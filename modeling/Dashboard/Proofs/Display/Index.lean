import Dashboard.Proofs.Display.Run
import Dashboard.Proofs.Remembering
import Mathlib

/-!
# The Index of a Display

A display keeps two things that follow from its formulas: which formulas an identifier
triggers, and which identifiers it has to ask for. Installing a formula adds to both, and a new
mapping has both built anew. Either way they are what one would read off the formulas: an
identifier triggers just the formulas that need it, in ascending order of their places, and the
display asks for what its formulas need, in the order of the formulas and each once.

What a formula needs follows from its text and the mappings, and all formulas of a display have
the mappings of the display. So the index is a matter of which formulas were registered
successfully, in which order, and of the last mapping of each path name. When these mappings
were made, and what was delivered in between, makes no difference.

## Main results

* `foldl_appendNew_eraseDups` — adding items one by one drops the duplicates.
* `exact_after` — every display that a host arrives at asks for what its formulas need.
* `find?_triggers` — the index has an entry for what some formula needs, and no other.
* `map_formula_installed` — the formulas are those that were registered successfully.
* `index_after` — what the index holds, and what it depends on.
-/

namespace Dashboard

namespace Display

/-! ### Duplicates -/

section Duplicates

variable {α : Type} [BEq α] [LawfulBEq α]

/-- An item at the end is dropped if the list has it. -/
theorem eraseDups_concat (items : List α) (item : α) :
    (items ++ [item]).eraseDups = appendNew items.eraseDups item := by
  rw [List.eraseDups_append, appendNew]
  by_cases hmem : item ∈ items
  · simp [List.removeAll, hmem]
  · simp [List.removeAll, hmem, List.eraseDups_cons]

/-- **Adding items one by one, if they are new, drops the duplicates.** -/
theorem foldl_appendNew_eraseDups (start items : List α) :
    items.foldl appendNew start.eraseDups = (start ++ items).eraseDups := by
  induction items generalizing start with
  | nil => rw [List.foldl_nil, List.append_nil]
  | cons item rest ih =>
      rw [List.foldl_cons, ← eraseDups_concat, ih, List.append_assoc, List.singleton_append]

end Duplicates

/-! ### The identifiers to ask for -/

/-- The identifiers that formulas need, each once, in the order of the formulas. -/
def needed (installed : List Installed) : List String :=
  (installed.flatMap fun i => i.formula.parameters).eraseDups

/-- The display asks for what its formulas need, and the index has no empty entry. -/
structure Exact (d : Display) : Prop where
  parameters : d.parameters = needed d.installed
  triggers : ∀ id, d.triggers.find? id ≠ some []

variable {d : Display}

/-- A place adds the parameters of its formula to those of the display. -/
theorem parameters_addTriggers (d : Display) (place : Nat) (f : LiveFormula) :
    (d.addTriggers place f).parameters = f.parameters.foldl appendNew d.parameters := by
  unfold addTriggers
  induction f.parameters generalizing d with
  | nil => rfl
  | cons id rest ih => exact ih (addTrigger place d id)

/-- What a formula at the end needs comes behind what the others need. -/
theorem needed_concat (installed : List Installed) (i : Installed) :
    needed (installed ++ [i]) = i.formula.parameters.foldl appendNew (needed installed) := by
  rw [needed, needed, foldl_appendNew_eraseDups, List.flatMap_append, List.flatMap_singleton]

/-- There is an item when one has been added. -/
theorem appendNew_ne_nil {α : Type} [BEq α] [LawfulBEq α] (items : List α) (item : α) :
    appendNew items item ≠ [] :=
  List.ne_nil_of_mem (mem_appendNew.mpr (.inr rfl))

/-- Finding triggers makes no empty entry. -/
theorem find?_triggers_addTriggers (h : ∀ id, d.triggers.find? id ≠ some []) (place : Nat)
    (f : LiveFormula) (id : String) :
    (d.addTriggers place f).triggers.find? id ≠ some [] := by
  unfold addTriggers
  induction f.parameters generalizing d with
  | nil => exact h id
  | cons other rest ih =>
      refine ih fun id => ?_
      rw [addTrigger, Table.find?_insert]
      split
      · exact fun heq => appendNew_ne_nil _ _ (Option.some.inj heq)
      · exact h id

/-- Installing a formula adds what it needs. -/
theorem Exact.add (hd : d.Exact) (i : Installed) : (d.add i).Exact where
  parameters := by
    rw [installed_add, needed_concat, ← hd.parameters, Display.add, parameters_addTriggers]
  triggers := fun id => find?_triggers_addTriggers (by exact hd.triggers) d.size i.formula id

/-- An index that is built anew asks for what the formulas need. -/
theorem exact_rebuildTriggers (d : Display) : d.rebuildTriggers.Exact := by
  have hprefix : ∀ (start : Display) (installed : List Installed),
      start.triggers = .empty → start.parameters = [] →
      (installed.zipIdx.foldl (fun d e => d.addTriggers e.2 e.1.formula) start).parameters =
          needed installed ∧
        ∀ id, (installed.zipIdx.foldl (fun d e => d.addTriggers e.2 e.1.formula)
          start).triggers.find? id ≠ some [] := by
    intro start installed htriggers hparameters
    induction installed using List.reverseRecOn with
    | nil =>
        refine ⟨hparameters, fun id => ?_⟩
        rw [List.zipIdx_nil, List.foldl_nil, htriggers, Table.find?_empty]
        exact nofun
    | append_singleton installed i ih =>
        rw [List.zipIdx_append, List.foldl_append]
        refine ⟨?_, find?_triggers_addTriggers ih.2 _ _⟩
        rw [needed_concat, ← ih.1]
        exact parameters_addTriggers _ _ _
  obtain ⟨hparameters, htriggers⟩ :=
    hprefix { d with triggers := .empty, parameters := [] } d.installed rfl rfl
  obtain ⟨triggers, parameters, heq⟩ := d.rebuildTriggers_eq
  have hinstalled : d.rebuildTriggers.installed = d.installed := by rw [heq]
  refine ⟨?_, htriggers⟩
  rw [hinstalled]
  exact hparameters

/-- A change that keeps what every formula needs keeps what the display asks for. -/
theorem Exact.mapFormulas (hd : d.Exact) {change : LiveFormula → LiveFormula}
    (h : ∀ f, (change f).parameters = f.parameters) : (d.mapFormulas change).Exact where
  parameters := by
    show d.parameters = _
    rw [hd.parameters, needed, needed, Display.mapFormulas, List.flatMap_map]
    simp only [h]
  triggers := hd.triggers

/-- Every transition keeps the index exact. -/
theorem Transition.exact (hd : d.Exact) {operation : Operation} {next : Display}
    (h : d.Transition operation next) : next.Exact := by
  cases h with
  | installs i cache =>
      have hissued : ({ d.issuing operation with cache } : Display).Exact :=
        ⟨hd.parameters, hd.triggers⟩
      exact hissued.add i
  | passes => exact ⟨hd.parameters, hd.triggers⟩
  | maps path id => exact exact_rebuildTriggers _
  | tells _ hpaths =>
      exact hd.mapFormulas fun f =>
        LiveFormula.parameters_congr (formula_drive f operation) (hpaths f)

/-- **Every display that a host arrives at asks for what its formulas need.** -/
theorem exact_after (options : Formula.Options) (operations : List Operation) :
    ((ofOptions options).after operations).Exact :=
  invariant_after options ⟨rfl, nofun⟩ (fun hd h => h.exact hd) operations

/-- **The index has an entry for what some formula needs**, and no other. -/
theorem find?_triggers (hindexed : d.Indexed) (hexact : d.Exact) (id : String) :
    d.triggers.find? id =
      if needing d.installed id = [] then none else some (needing d.installed id) := by
  have hentry := hindexed id
  rw [triggered] at hentry
  cases hfind : d.triggers.find? id with
  | none =>
      rw [hfind, Option.getD_none] at hentry
      rw [if_pos hentry.symm]
  | some places =>
      rw [hfind, Option.getD_some] at hentry
      have hne : places ≠ [] := fun hnil => hexact.triggers id (hnil ▸ hfind)
      rw [← hentry, if_neg hne]

/-! ### What was registered and mapped -/

/-- The identifier that an operation lets a path name stand for. -/
def Operation.mapping? (path : String) : Operation → Option String
  | .map other id => if other = path then some id else none
  | _ => none

/-- **The last mapping** of a path name in a sequence of operations. -/
def lastMapping? (operations : List Operation) (path : String) : Option String :=
  remembered? (Operation.mapping? path) (fun _ => false) none operations

/-- The source text of the formula that an operation registers, if the formula is new and can
be read. -/
def registered? (d : Display) : Operation → Option String
  | .register name =>
    if d.places.contains name then none
    else
      match d.register name with
      | .ok _ => some name
      | .error _ => none
  | .registerAnonymous source =>
    match (d.registerAnonymous source).1 with
    | .ok _ => some source
    | .error _ => none
  | _ => none

/-- **The successful registrations** in a sequence of operations: the source texts of the
formulas, in the order of their installation. -/
def registrations (d : Display) : List Operation → List String
  | [] => []
  | operation :: rest => (d.registered? operation).toList ++ (d.step operation).registrations rest

/-- One more operation may register one more formula. -/
theorem registrations_concat (d : Display) (operations : List Operation) (operation : Operation) :
    d.registrations (operations ++ [operation]) =
      d.registrations operations ++ ((d.after operations).registered? operation).toList := by
  induction operations generalizing d with
  | nil => rw [List.nil_append, registrations, registrations, registrations, after_nil,
      List.append_nil, List.nil_append]
  | cons first rest ih =>
      rw [List.cons_append, registrations, registrations, ih, List.append_assoc]
      rfl

/-- A display reads what the parser reads. -/
theorem exists_install_eq_ok_iff (hcache : d.cache.Faithful) (name source : String) :
    (∃ next, d.install name source = .ok next) ↔
      ∃ formula, Formula.ofSource d.options (sourceOfName source) = .ok formula := by
  have hread : (d.cache.get (sourceOfName source) d.dialect).map (fun got => got.1.formula) =
      Formula.ofSource d.options (sourceOfName source) := hcache.map_get _ _
  rw [install_eq, ← hread]
  cases d.cache.get (sourceOfName source) d.dialect with
  | error failure => simp [Except.map, inContext, Except.mapError]
  | ok got => simp [Except.map, inContext, Except.mapError]

/-- A new name whose source text can be read is registered. -/
theorem registered?_of_ofSource (hcache : d.cache.Faithful) {name : String} {formula : Formula}
    (hsource : Formula.ofSource d.options (sourceOfName name) = .ok formula)
    (hnew : d.places.contains name = false) : d.registered? (.register name) = some name := by
  obtain ⟨next, hinstall⟩ := (exists_install_eq_ok_iff hcache name name).mpr ⟨formula, hsource⟩
  rw [registered?, hnew, if_neg Bool.false_ne_true, register, hnew, if_neg Bool.false_ne_true,
    hinstall]

/-- What an operation registers is what it installs. -/
theorem map_registered? (hcache : d.cache.Faithful) (operation : Operation) :
    (d.registered? operation).toList.map (fun source =>
        Formula.ofSource d.options (sourceOfName source)) =
      (d.newcomer? operation).toList.map fun i => .ok i.formula.formula := by
  have hattempt : ∀ (e : Display) name source, e.cache.Faithful → e.options = d.options →
      ((match e.install name source with
        | .ok _ => some source
        | .error _ => none).toList.map fun source =>
          Formula.ofSource d.options (sourceOfName source)) =
        (d.spelled? name source).toList.map fun i => .ok i.formula.formula := by
    intro e name source hfaithful hoptions
    have hiff := exists_install_eq_ok_iff hfaithful name source
    rw [hoptions] at hiff
    rw [spelled?]
    cases hsource : Formula.ofSource d.options (sourceOfName source) with
    | ok formula =>
        obtain ⟨next, hinstall⟩ := hiff.mpr ⟨formula, hsource⟩
        rw [hinstall]
        exact congrArg (fun outcome => [outcome]) hsource
    | error failure =>
        cases hinstall : e.install name source with
        | ok next =>
            obtain ⟨formula, hformula⟩ := hiff.mp ⟨next, hinstall⟩
            rw [hsource] at hformula
            cases hformula
        | error failure => rfl
  cases operation with
  | register name =>
      rw [registered?, newcomer?, request?]
      split
      · rfl
      · next hnew =>
          rw [register, if_neg hnew]
          exact hattempt d name name hcache rfl
  | registerAnonymous source =>
      have hregistered : d.registered? (.registerAnonymous source) =
          match (d.issuing (.registerAnonymous source)).install d.bindings.issueName.1 source with
          | .ok _ => some source
          | .error _ => none := by
        rw [registered?, registerAnonymous]
        dsimp only [Bindings.issueName, issuing, issuedAfter]
        cases install _ _ source with
        | error failure => rfl
        | ok next => rfl
      rw [hregistered]
      exact hattempt (d.issuing (.registerAnonymous source)) _ source hcache rfl
  | _ => rfl

/-- **The formulas of a display are those that were registered successfully.** -/
theorem map_formula_installed (options : Formula.Options) (operations : List Operation) :
    (((ofOptions options).after operations).installed.map fun i =>
        (.ok i.formula.formula : Except Failure Formula)) =
      ((ofOptions options).registrations operations).map fun source =>
        Formula.ofSource options (sourceOfName source) := by
  induction operations using List.reverseRecOn with
  | nil => rfl
  | append_singleton operations operation ih =>
      have hd := coherent_after options operations
      have hregistered := map_registered? hd.cache operation
      rw [options_after] at hregistered
      rw [after_concat, (hd.effect operation).installed, registrations_concat, List.map_append,
        List.map_append, ← ih, hregistered, mapFormulas, List.map_map]
      simp only [Function.comp_def, formula_drive]

/-- **A display has the last mapping of each path name.** A formula is installed with the mappings
of the display, and it is told every later one. -/
theorem resolve?_after (options : Formula.Options) (operations : List Operation) (path : String) :
    ((ofOptions options).after operations).bindings.resolve? path =
      lastMapping? operations path := by
  induction operations using List.reverseRecOn with
  | nil => rfl
  | append_singleton operations operation ih =>
      have hpaths := ((coherent_after options operations).effect operation).pathNames
        (((ofOptions options).after operations).fresh "" ⟨.simplified, []⟩) rfl
      rw [after_concat, lastMapping?, remembered?_concat, Bindings.resolve?, ← hpaths]
      rw [lastMapping?] at ih
      rw [← ih]
      cases operation with
      | map other id =>
          rw [remember, Operation.mapping?, if_neg Bool.false_ne_true]
          show (((ofOptions options).after operations).bindings.map other id).resolve? path = _
          rw [Bindings.resolve?_map]
          split
          · rfl
          · rfl
      | deliver readings =>
          obtain ⟨known, symbols, heq⟩ := LiveFormula.receive_eq
            (((ofOptions options).after operations).fresh "" ⟨.simplified, []⟩) readings
          rw [drive, heq]
          rfl
      | _ => rfl

/-! ### What the index depends on -/

/-- What the formulas of a coherent display need follows from their texts and the mappings of
the display. -/
theorem Coherent.map_parameters (hd : d.Coherent) :
    (d.installed.map fun i => i.formula.parameters) =
      (d.installed.map fun i => i.formula.formula).map fun formula =>
        formula.parameters d.bindings := by
  rw [List.map_map]
  refine List.map_congr_left fun i hi => Formula.parameters_eq_of_resolve? ?_ _
  intro path
  rw [Bindings.resolve?, hd.pathNames i hi, Bindings.resolve?]

/-- Which formulas need an identifier follows from what each of them needs. -/
theorem needing_congr {installed other : List Installed}
    (h : (installed.map fun i => i.formula.parameters) = other.map fun i => i.formula.parameters)
    (id : String) : needing installed id = needing other id := by
  have hplaces : ∀ items : List Installed, needing items id =
      (((items.map fun i => i.formula.parameters).zipIdx.filter fun e =>
        e.1.contains id).map Prod.snd) := by
    intro items
    rw [needing, List.zipIdx_map, List.filter_map, List.map_map]
    rfl
  rw [hplaces, hplaces, h]

/-- Which identifiers are needed depends on the parameters of the formulas only. -/
theorem needed_congr {installed other : List Installed}
    (h : (installed.map fun i => i.formula.parameters) =
      other.map fun i => i.formula.parameters) : needed installed = needed other := by
  rw [needed, needed, List.flatMap_def, List.flatMap_def, h]

/-- **Displays with the same formulas and mappings need the same.** -/
theorem map_parameters_eq {options : Formula.Options} {operations other : List Operation}
    (hregistrations : (ofOptions options).registrations operations =
      (ofOptions options).registrations other)
    (hmapping : ∀ path, lastMapping? operations path = lastMapping? other path) :
    (((ofOptions options).after operations).installed.map fun i => i.formula.parameters) =
      ((ofOptions options).after other).installed.map fun i => i.formula.parameters := by
  have hformulas : (((ofOptions options).after operations).installed.map fun i =>
      i.formula.formula) = ((ofOptions options).after other).installed.map fun i =>
        i.formula.formula := by
    have hread := map_formula_installed options operations
    rw [hregistrations, ← map_formula_installed] at hread
    have hok : Function.Injective (Except.ok : Formula → Except Failure Formula) :=
      fun _ _ => Except.ok.inj
    refine List.map_injective_iff.mpr hok ?_
    rwa [List.map_map, List.map_map]
  have hneeds : ∀ formula : Formula,
      formula.parameters ((ofOptions options).after operations).bindings =
        formula.parameters ((ofOptions options).after other).bindings := by
    refine Formula.parameters_eq_of_resolve? fun path => ?_
    rw [resolve?_after, resolve?_after, hmapping]
  rw [(coherent_after options operations).map_parameters,
    (coherent_after options other).map_parameters, hformulas, funext hneeds]

/-- **The index of a display.** At all times every formula has the mappings of the display, an
identifier triggers just the formulas that need it, in ascending order, and the display asks
for what its formulas need, in their order and each once. So after other operations with the
same successful registrations and the same last mappings, the index is the same. -/
theorem index_after (options : Formula.Options) (operations : List Operation) :
    (∀ i ∈ ((ofOptions options).after operations).installed,
      i.formula.bindings.mappings = ((ofOptions options).after operations).bindings.mappings) ∧
    (∀ id, (((ofOptions options).after operations).triggered id).Pairwise (· < ·) ∧
      ∀ place, place ∈ ((ofOptions options).after operations).triggered id ↔
        ∃ i, ((ofOptions options).after operations).installed[place]? = some i ∧
          id ∈ i.formula.parameters) ∧
    ((ofOptions options).after operations).parameters =
      (((ofOptions options).after operations).installed.flatMap fun i =>
        i.formula.parameters).eraseDups ∧
    ∀ other, (ofOptions options).registrations other =
        (ofOptions options).registrations operations →
      (∀ path, lastMapping? other path = lastMapping? operations path) →
      (∀ id, ((ofOptions options).after other).triggers.find? id =
        ((ofOptions options).after operations).triggers.find? id) ∧
      ((ofOptions options).after other).parameters =
        ((ofOptions options).after operations).parameters := by
  have hd := coherent_after options operations
  have hexact := exact_after options operations
  refine ⟨fun i hi => ?_, fun id => ⟨?_, fun place => ?_⟩, hexact.parameters, ?_⟩
  · exact congrArg Table.entries (hd.pathNames i hi)
  · rw [hd.indexed id]
    exact pairwise_needing _ id
  · rw [hd.indexed id]
    exact mem_needing_iff
  · intro other hregistrations hmapping
    have hsame := map_parameters_eq hregistrations hmapping
    refine ⟨fun id => ?_, ?_⟩
    · rw [find?_triggers (coherent_after options other).indexed (exact_after options other),
        find?_triggers hd.indexed hexact, needing_congr hsame]
    · rw [(exact_after options other).parameters, hexact.parameters, needed_congr hsame]

/-- A formula is installed, and then its path name is mapped. -/
def mappedLate : List Operation :=
  [.register "=volts", .map "volts" "/b"]

/-- The path name is mapped twice before the formula is installed. -/
def mappedEarly : List Operation :=
  [.map "volts" "/a", .map "volts" "/b", .register "=volts"]

/-- Formulas that are mapped early and late need the same. -/
theorem index_mappedEarly :
    (ofOptions ⟨.simplified, 64⟩).registrations mappedEarly =
        (ofOptions ⟨.simplified, 64⟩).registrations mappedLate ∧
      (∀ path, lastMapping? mappedEarly path = lastMapping? mappedLate path) ∧
      ((ofOptions ⟨.simplified, 64⟩).after mappedLate).parameters = ["/b"] ∧
      ((ofOptions ⟨.simplified, 64⟩).after mappedEarly).parameters = ["/b"] := by
  have hsource : Formula.ofSource ⟨.simplified, 64⟩ (sourceOfName "=volts") =
      .ok ⟨.simplified, [.symbol "volts"]⟩ := by
    have htokens : Formula.tokenize (sourceOfName "=volts") = .ok [⟨.name "volts", ⟨0, 5⟩⟩] := by
      cbv
    exact Formula.ofSource_of_tokenize htokens rfl
  have hlate : (ofOptions ⟨.simplified, 64⟩).registered? (.register "=volts") = some "=volts" :=
    registered?_of_ofSource (coherent_after ⟨.simplified, 64⟩ []).cache hsource rfl
  have hearly : (((ofOptions ⟨.simplified, 64⟩).step (.map "volts" "/a")).step
      (.map "volts" "/b")).registered? (.register "=volts") = some "=volts" :=
    registered?_of_ofSource
      (coherent_after ⟨.simplified, 64⟩ [.map "volts" "/a", .map "volts" "/b"]).cache hsource rfl
  have hregistrations : (ofOptions ⟨.simplified, 64⟩).registrations mappedEarly =
      (ofOptions ⟨.simplified, 64⟩).registrations mappedLate := by
    simp only [mappedEarly, mappedLate, registrations, hlate, hearly]
    rfl
  have hmapping : ∀ path, lastMapping? mappedEarly path = lastMapping? mappedLate path := by
    intro path
    show (if "volts" = path then some "/b" else none).or
      ((if "volts" = path then some "/a" else none).or none) =
        (if "volts" = path then some "/b" else none).or none
    split
    · rfl
    · rfl
  obtain ⟨-, -, -, hsame⟩ := index_after ⟨.simplified, 64⟩ mappedLate
  obtain ⟨-, hparameters⟩ := hsame mappedEarly hregistrations hmapping
  have hregister : (ofOptions ⟨.simplified, 64⟩).step (.register "=volts") = _ :=
    step_of_ofSource hsource rfl rfl rfl
  have hneeded : ((ofOptions ⟨.simplified, 64⟩).after mappedLate).parameters = ["/b"] := by
    rw [mappedLate, after, List.foldl_cons, hregister]
    rfl
  exact ⟨hregistrations, hmapping, hneeded, hparameters.trans hneeded⟩

end Display

end Dashboard
