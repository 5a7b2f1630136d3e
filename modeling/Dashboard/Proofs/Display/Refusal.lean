import Dashboard.Proofs.Display.Names

/-!
# Formulas that are Refused

A formula that cannot be read is not installed, and the host is told why. If it came under the
name of a process variable, the display is as before: the host may try again, and fails again in
the same way. If it came without a name, the name that was issued for it is used up. Nothing else
has changed, so from then on the display goes along with one that was spared the failed call, and
all names that are issued later are one number ahead (`shift`).

This is so as long as the host has registered no name that is issued later, and does not register
any (`Apart`). Names of formulas are never issued. But the host may register others, and a display
does not compare an issued name with those that are known. Then the number that was used up
decides which formula takes the name from which, and a failed call hides a formula that would have
been found without it.

## Main results

* `register_eq_error_iff` — when a registration is refused, and with what.
* `Shifted.next`, `Shifted.alike` — displays whose later names are one number ahead stay so, and
  answer alike.
* `refused_spares` — what a refused formula leaves behind.
* `refused_hides` — a refused formula hides another one.
-/

namespace Dashboard

namespace Display

/-! ### Names that are one number ahead -/

/-- A name that is not issued once `k` names have been. -/
def Apart (k : Nat) (name : String) : Prop :=
  ∀ n, k < n → name ≠ Bindings.issuedName n

/-- The name that is issued in place of another one if one number more was used up when `k` names
had been issued. -/
def shift (k : Nat) (name : String) : String :=
  let n := Nat.ofDigitChars 10 (name.toList.drop 10) 0
  if k < n ∧ Bindings.issuedName n = name then Bindings.issuedName (n + 1) else name

variable {k : Nat} {name other : String}

/-- The number of an issued name can be read off. -/
theorem ofDigitChars_issuedName (n : Nat) :
    Nat.ofDigitChars 10 ((Bindings.issuedName n).toList.drop 10) 0 = n := by
  have hdigits : (Bindings.issuedName n).toList.drop 10 = Nat.toDigits 10 n := by
    rw [Bindings.issuedName, String.toList_append]
    simp [toString, Nat.repr]
  rw [hdigits, Nat.ofDigitChars_toDigits (by decide) (by decide)]

/-- A name that is issued later has the next number. -/
theorem shift_issuedName {n : Nat} (h : k < n) :
    shift k (Bindings.issuedName n) = Bindings.issuedName (n + 1) := by
  rw [shift, ofDigitChars_issuedName]
  exact if_pos ⟨h, rfl⟩

/-- A name that stands apart stays as it is. -/
theorem shift_of_apart (h : Apart k name) : shift k name = name := by
  rw [shift]
  exact if_neg fun hissued => h _ hissued.1 hissued.2.symm

/-- A name is issued later or is apart. -/
theorem apart_or_exists_issued (k : Nat) (name : String) :
    Apart k name ∨ ∃ n, k < n ∧ name = Bindings.issuedName n := by
  by_cases h : ∃ n, k < n ∧ name = Bindings.issuedName n
  · exact .inr h
  · exact .inl fun n hn hname => h ⟨n, hn, hname⟩

/-- No two names become one. -/
theorem shift_injective (k : Nat) : Function.Injective (shift k) := by
  intro name other h
  rcases apart_or_exists_issued k name with hname | ⟨m, hm, rfl⟩
  · rcases apart_or_exists_issued k other with hother | ⟨n, hn, rfl⟩
    · rwa [shift_of_apart hname, shift_of_apart hother] at h
    · rw [shift_of_apart hname, shift_issuedName hn] at h
      exact absurd h (hname _ (by omega))
  · rcases apart_or_exists_issued k other with hother | ⟨n, hn, rfl⟩
    · rw [shift_of_apart hother, shift_issuedName hm] at h
      exact absurd h.symm (hother _ (by omega))
    · rw [shift_issuedName hm, shift_issuedName hn] at h
      obtain rfl : m = n := Nat.succ.inj (Bindings.issuedName_injective h)
      rfl

/-- Names that spell formulas stand apart. -/
theorem apart_of_isFormulaName (h : isFormulaName name = true) (k : Nat) : Apart k name := by
  rintro n - rfl
  rw [isFormulaName_issuedName] at h
  cases h

/-! ### What a host is answered -/

/-- What a host can ask of a display: to do something, or to look a formula up. -/
inductive Request where
  | operate (operation : Operation)
  | lookUp (name : String)

/-- What a host is told when it asks. -/
inductive Response where
  | registered (outcome : Except Failure Unit)
  /-- The name that was issued for a formula, or why it was refused. -/
  | issued (outcome : Except Failure String)
  | delivered (values : List (String × Value)) (log : List Notice)
  | found (formula? : Option LiveFormula)
  | done

/-- What a host is told, and what it can see afterwards. -/
structure Answer where
  response : Response
  size : Nat
  parameters : List String

/-- What a host is told when it asks. -/
def respond (d : Display) : Request → Response
  | .operate (.register name) => .registered ((d.register name).map fun _ => ())
  | .operate (.registerAnonymous source) => .issued (d.registerAnonymous source).1
  | .operate (.deliver readings) =>
    .delivered (d.deliver readings).values (d.deliver readings).log
  | .operate _ => .done
  | .lookUp name => .found (d.formula? name)

/-- What a request makes of a display. -/
def next (d : Display) : Request → Display
  | .operate operation => d.step operation
  | .lookUp _ => d

/-- The answers to a sequence of requests. -/
def answers (d : Display) : List Request → List Answer
  | [] => []
  | request :: rest =>
    ⟨d.respond request, (d.next request).size, (d.next request).parameters⟩ ::
      (d.next request).answers rest

/-- A request that speaks of formulas by other names. -/
def Request.rename (ρ : String → String) : Request → Request
  | .operate operation => .operate operation
  | .lookUp name => .lookUp (ρ name)

/-- A failure to install a formula under a name. -/
def notInstalled (name : String) (cause : Failure) : Failure :=
  .within ("Formula " ++ name ++ " not installed") cause

/-- Responses that are the same but for the names of formulas. -/
inductive Response.Alike (ρ : String → String) : Response → Response → Prop
  | registered (outcome : Except Failure Unit) : Alike ρ (.registered outcome) (.registered outcome)
  | issued (name : String) : Alike ρ (.issued (.ok name)) (.issued (.ok (ρ name)))
  | refused (name : String) (cause : Failure) :
      Alike ρ (.issued (.error (notInstalled name cause)))
        (.issued (.error (notInstalled (ρ name) cause)))
  | delivered (values : List (String × Value)) (log : List Notice) :
      Alike ρ (.delivered values log)
        (.delivered (values.map fun told => (ρ told.1, told.2)) log)
  | found (formula? : Option LiveFormula) : Alike ρ (.found formula?) (.found formula?)
  | done : Alike ρ .done .done

/-- Answers that are the same but for the names of formulas. -/
structure Answer.Alike (ρ : String → String) (a b : Answer) : Prop where
  response : a.response.Alike ρ b.response
  size : b.size = a.size
  parameters : b.parameters = a.parameters

/-! ### Displays whose later names are one number ahead -/

/-- A formula that is installed under another name. -/
def renamed (ρ : String → String) (i : Installed) : Installed :=
  { i with name := ρ i.name }

/-- Of two displays that are the same otherwise, the second one is one number ahead with the
names that are issued once `k` names have been. -/
structure Shifted (k : Nat) (d e : Display) : Prop where
  dialect : e.dialect = d.dialect
  cache : e.cache = d.cache
  installed : e.installed = d.installed.map (renamed (shift k))
  places : ∀ name, e.places.find? (shift k name) = d.places.find? name
  triggers : e.triggers = d.triggers
  parameters : e.parameters = d.parameters
  bindings : e.bindings = { d.bindings with issued := d.bindings.issued + 1 }
  reached : k ≤ d.bindings.issued

variable {d e : Display}

/-- The two displays have as many formulas. -/
theorem Shifted.size (h : Shifted k d e) : e.size = d.size := by
  rw [Display.size, h.installed, List.length_map, Display.size]

/-- Which places need an identifier does not depend on the names of the formulas. -/
theorem needing_map_renamed (ρ : String → String) (installed : List Installed) (id : String) :
    needing (installed.map (renamed ρ)) id = needing installed id := by
  rw [needing, List.zipIdx_map, List.filter_map, List.map_map, needing]
  rfl

/-- In both displays the same places need an identifier. -/
theorem Shifted.needing (h : Shifted k d e) (id : String) :
    needing e.installed id = Display.needing d.installed id := by
  rw [h.installed, needing_map_renamed]

/-- If one of them is indexed, so is the other one. -/
theorem Shifted.indexed (h : Shifted k d e) (hd : d.Indexed) : e.Indexed := by
  intro id
  rw [h.needing, ← hd id, triggered, triggered, h.triggers]

/-! ### Triggers -/

/-- The triggers of a formula keep two displays shifted. -/
theorem Shifted.addTriggers (h : Shifted k d e) (place : Nat) (f : LiveFormula) :
    Shifted k (d.addTriggers place f) (e.addTriggers place f) := by
  unfold Display.addTriggers
  induction f.parameters generalizing d e with
  | nil => exact h
  | cons id rest ih =>
      refine ih ⟨h.dialect, h.cache, h.installed, h.places, ?_, ?_, h.bindings, h.reached⟩
      · rw [addTrigger, addTrigger, h.triggers]
      · rw [addTrigger, addTrigger, h.parameters]

/-- So do the triggers of several formulas. -/
theorem Shifted.foldl_addTriggers (h : Shifted k d e) (places : List (Installed × Nat)) :
    Shifted k (places.foldl (fun d p => d.addTriggers p.2 p.1.formula) d)
      ((places.map (Prod.map (renamed (shift k)) id)).foldl
        (fun d p => d.addTriggers p.2 p.1.formula) e) := by
  induction places generalizing d e with
  | nil => exact h
  | cons p rest ih => exact ih (h.addTriggers p.2 p.1.formula)

/-- So do all triggers when they are made anew. -/
theorem Shifted.rebuildTriggers (h : Shifted k d e) :
    Shifted k d.rebuildTriggers e.rebuildTriggers := by
  have hempty : Shifted k { d with triggers := .empty, parameters := [] }
      { e with triggers := .empty, parameters := [] } :=
    ⟨h.dialect, h.cache, h.installed, h.places, rfl, rfl, h.bindings, h.reached⟩
  have hfolded := hempty.foldl_addTriggers d.installed.zipIdx
  rw [← List.zipIdx_map, ← h.installed] at hfolded
  exact hfolded

/-! ### What is done to displays one number apart -/

/-- So does a change of all formulas. -/
theorem Shifted.mapFormulas (h : Shifted k d e) (change : LiveFormula → LiveFormula) :
    Shifted k (d.mapFormulas change) (e.mapFormulas change) where
  dialect := h.dialect
  cache := h.cache
  installed := by
    rw [Display.mapFormulas, h.installed, List.map_map, Display.mapFormulas, List.map_map]
    rfl
  places := h.places
  triggers := h.triggers
  parameters := h.parameters
  bindings := h.bindings
  reached := h.reached

/-- So does a mapping. -/
theorem Shifted.map (h : Shifted k d e) (path id : String) :
    Shifted k (d.map path id) (e.map path id) := by
  have htold := h.mapFormulas (·.map path id)
  have hmapped : Shifted k
      { d.mapFormulas (·.map path id) with bindings := d.bindings.map path id }
      { e.mapFormulas (·.map path id) with bindings := e.bindings.map path id } := by
    refine ⟨htold.dialect, htold.cache, htold.installed, htold.places, htold.triggers,
      htold.parameters, ?_, h.reached⟩
    rw [h.bindings]
    rfl
  exact hmapped.rebuildTriggers

/-- The same formula is added under names that correspond. -/
theorem Shifted.add (h : Shifted k d e) (i : Installed) :
    Shifted k (d.add i) (e.add (renamed (shift k) i)) := by
  have hplaced : Shifted k
      { d with installed := d.installed ++ [i], places := d.places.insert i.name d.size }
      { e with
        installed := e.installed ++ [renamed (shift k) i]
        places := e.places.insert (shift k i.name) d.size } := by
    refine ⟨h.dialect, h.cache, ?_, fun name => ?_, h.triggers, h.parameters, h.bindings,
      h.reached⟩
    · rw [h.installed, List.map_append, List.map_singleton]
    · rw [Table.find?_insert, Table.find?_insert, ← h.places]
      simp only [(shift_injective k).eq_iff]
  rw [Display.add, Display.add, h.size]
  exact hplaced.addTriggers d.size i.formula

/-- An installation under names that correspond is refused for the same cause, or leads to
displays one number apart. -/
theorem Shifted.install (h : Shifted k d e) (name source : String) :
    (∃ cause, d.install name source = .error (notInstalled name cause) ∧
      e.install (shift k name) source = .error (notInstalled (shift k name) cause)) ∨
    ∃ d' e', d.install name source = .ok d' ∧ e.install (shift k name) source = .ok e' ∧
      Shifted k d' e' := by
  have hfresh : e.fresh (sourceOfName source) = d.fresh (sourceOfName source) := by
    funext formula
    rw [fresh, h.bindings, fresh]
  rw [install_eq, install_eq, h.cache, h.dialect, hfresh]
  cases d.cache.get (sourceOfName source) d.dialect with
  | error cause => exact .inl ⟨cause, rfl, rfl⟩
  | ok got =>
      have hcached : Shifted k { d with cache := got.2 }
          { e with dialect := d.dialect, cache := got.2 } :=
        ⟨rfl, rfl, h.installed, h.places, h.triggers, h.parameters, h.bindings, h.reached⟩
      have hadded := hcached.add ⟨name, d.fresh (sourceOfName source) got.1.formula⟩
      exact .inr ⟨_, _, rfl, rfl, hadded⟩

/-- The next name that is issued is one number ahead. -/
theorem Shifted.issueName (h : Shifted k d e) :
    e.bindings.issueName.1 = shift k d.bindings.issueName.1 := by
  have hreached := h.reached
  show Bindings.issuedName (e.bindings.issued + 1) =
    shift k (Bindings.issuedName (d.bindings.issued + 1))
  rw [h.bindings, shift_issuedName (by omega)]

/-- A display that issues a name is ahead by one of the display that does not. -/
theorem Shifted.issuing (h : Shifted k d e) :
    Shifted k { d with bindings := d.bindings.issueName.2 }
      { e with bindings := e.bindings.issueName.2 } := by
  refine ⟨h.dialect, h.cache, h.installed, h.places, h.triggers, h.parameters, ?_, ?_⟩
  · rw [h.bindings]
    rfl
  · exact Nat.le_succ_of_le h.reached

/-- A registration without a name has corresponding outcomes. -/
theorem Shifted.registerAnonymous (h : Shifted k d e) (source : String) :
    (Response.issued (d.registerAnonymous source).1).Alike (shift k)
        (.issued (e.registerAnonymous source).1) ∧
      Shifted k (d.registerAnonymous source).2 (e.registerAnonymous source).2 := by
  rw [Display.registerAnonymous, Display.registerAnonymous]
  dsimp only
  rw [h.issueName]
  obtain ⟨cause, hd, he⟩ | ⟨d', e', hd, he, hshifted⟩ :=
    h.issuing.install d.bindings.issueName.1 source
  · rw [hd, he]
    exact ⟨.refused _ cause, h.issuing⟩
  · rw [hd, he]
    exact ⟨.issued _, hshifted⟩

/-- A registration under a name that is never issued has the same outcome. -/
theorem Shifted.register (h : Shifted k d e) (hname : Apart k name) :
    (∃ failure, d.register name = .error failure ∧ e.register name = .error failure) ∨
    ∃ d' e', d.register name = .ok d' ∧ e.register name = .ok e' ∧ Shifted k d' e' := by
  have hshift := shift_of_apart hname
  have hknown : e.places.contains name = d.places.contains name := by
    have hfind := h.places name
    rw [hshift] at hfind
    rw [Table.contains, hfind, Table.contains]
  have hinstall := h.install name name
  rw [hshift] at hinstall
  rw [Display.register, Display.register, hknown]
  split
  · exact .inr ⟨d, e, rfl, rfl, h⟩
  · obtain ⟨cause, hd, he⟩ | hinstalled := hinstall
    · exact .inl ⟨_, hd, he⟩
    · exact .inr hinstalled

/-- A name denotes in one display what it denotes in the other one. -/
theorem Shifted.formula? (h : Shifted k d e) (name : String) :
    e.formula? (shift k name) = d.formula? name := by
  rw [Display.formula?, h.places, Display.formula?]
  refine congrArg _ (funext fun place => ?_)
  rw [h.installed, List.getElem?_map, Option.map_map]
  rfl

/-- A delivery reports the same values, under the shifted names. -/
theorem Shifted.reports (h : Shifted k d e) (readings : List (String × Reading)) :
    e.reports readings = (d.reports readings).map fun told => (shift k told.1, told.2) := by
  have hdue : e.due readings = d.due readings := due_congr h.needing readings
  have hreport : ∀ place, e.report? readings place =
      (d.report? readings place).map fun told => (shift k told.1, told.2) := by
    intro place
    rw [report?, h.installed, List.getElem?_map, report?]
    cases d.installed[place]? with
    | none => rfl
    | some i =>
        rw [Option.map_some, Option.bind_some, Option.bind_some, Option.map_map]
        rfl
  rw [Display.reports, hdue, funext hreport, Display.reports, List.map_filterMap]

/-- A delivery to displays one number apart tells the same under names that correspond. -/
theorem Shifted.deliver (h : Shifted k d e) (hd : d.Indexed) (readings : List (String × Reading)) :
    (e.deliver readings).values =
        (d.deliver readings).values.map (fun told => (shift k told.1, told.2)) ∧
      (e.deliver readings).log = (d.deliver readings).log ∧
      Shifted k (d.deliver readings).display (e.deliver readings).display := by
  rw [deliver_eq hd, deliver_eq (h.indexed hd), h.reports]
  refine ⟨?_, ?_, h.mapFormulas (·.receive readings)⟩
  · show List.map _ (List.map _ _) = List.map _ (List.map _ _)
    rw [List.map_map, List.map_map]
    rfl
  · show List.flatMap _ (List.map _ _) = _
    rw [List.flatMap_map]

/-! ### Requests -/

/-- What is asked registers no name that is issued later. -/
def Request.Apart (k : Nat) (request : Request) : Prop :=
  ∀ name, request = .operate (.register name) → Display.Apart k name

/-- **Displays one number apart stay so**, whatever they are asked. -/
theorem Shifted.next (h : Shifted k d e) (hd : d.Indexed) {request : Request}
    (hrequest : request.Apart k) :
    Shifted k (d.next request) (e.next (request.rename (shift k))) := by
  cases request with
  | lookUp name => exact h
  | operate operation =>
      cases operation with
      | register name =>
          show Shifted k (d.step (.register name)) (e.step (.register name))
          rw [step, step]
          obtain ⟨failure, hd, he⟩ | ⟨d', e', hd, he, hshifted⟩ := h.register (hrequest name rfl)
          · rw [hd, he]
            exact h
          · rw [hd, he]
            exact hshifted
      | registerAnonymous source => exact (h.registerAnonymous source).2
      | map path id => exact h.map path id
      | deliver readings => exact (h.deliver hd readings).2.2
      | clear => exact h.mapFormulas _

/-- **Displays one number apart respond alike.** -/
theorem Shifted.respond (h : Shifted k d e) (hd : d.Indexed) {request : Request}
    (hrequest : request.Apart k) :
    (d.respond request).Alike (shift k) (e.respond (request.rename (shift k))) := by
  cases request with
  | lookUp name =>
      show (Response.found _).Alike _ (.found (e.formula? (shift k name)))
      rw [h.formula?]
      exact .found _
  | operate operation =>
      cases operation with
      | register name =>
          show (Response.registered _).Alike _ (.registered ((e.register name).map _))
          obtain ⟨failure, hd, he⟩ | ⟨d', e', hd, he, -⟩ := h.register (hrequest name rfl)
          · rw [hd, he]
            exact .registered _
          · rw [hd, he]
            exact .registered _
      | registerAnonymous source => exact (h.registerAnonymous source).1
      | map path id => exact .done
      | deliver readings =>
          obtain ⟨hvalues, hlog, -⟩ := h.deliver hd readings
          show (Response.delivered _ _).Alike _ (.delivered (e.deliver readings).values _)
          rw [hvalues, hlog]
          exact .delivered _ _
      | clear => exact .done

/-- A request keeps a display coherent. -/
theorem coherent_next (hd : d.Coherent) (request : Request) : (d.next request).Coherent := by
  cases request with
  | operate operation => exact hd.step operation
  | lookUp name => exact hd

/-- Displays one number apart answer alike, by induction on what they are asked. -/
theorem Shifted.answers (h : Shifted k d e) (hd : d.Coherent) {requests : List Request}
    (hrequests : ∀ request ∈ requests, request.Apart k) :
    List.Forall₂ (Answer.Alike (shift k)) (d.answers requests)
      (e.answers (requests.map (Request.rename (shift k)))) := by
  induction requests generalizing d e with
  | nil => exact .nil
  | cons request rest ih =>
      have hrequest := hrequests request List.mem_cons_self
      have hnext := h.next hd.indexed hrequest
      refine .cons ⟨h.respond hd.indexed hrequest, hnext.size, hnext.parameters⟩
        (ih hnext (coherent_next hd request) fun other hother => ?_)
      exact hrequests other (List.mem_cons_of_mem _ hother)

/-! ### What is refused -/

variable {options : Formula.Options} {before : List Operation}

/-- An installation is refused exactly if its source text cannot be read. -/
theorem install_eq_error_iff (hcache : d.cache.Faithful) {source : String} {failure : Failure} :
    d.install name source = .error failure ↔
      ∃ cause, Formula.ofSource d.options (sourceOfName source) = .error cause ∧
        failure = notInstalled name cause := by
  have hread : (d.cache.get (sourceOfName source) d.dialect).map (fun got => got.1.formula) =
      Formula.ofSource d.options (sourceOfName source) := hcache.map_get _ _
  rw [install_eq, ← hread]
  cases d.cache.get (sourceOfName source) d.dialect with
  | error cause =>
      constructor
      · rintro ⟨⟩
        exact ⟨cause, rfl, rfl⟩
      · rintro ⟨_, ⟨⟩, rfl⟩
        rfl
  | ok got =>
      constructor
      · rintro ⟨⟩
      · rintro ⟨_, ⟨⟩, -⟩

/-- **A registration is refused** if the name is not known and its source text cannot be
read. -/
theorem register_eq_error_iff (hcache : d.cache.Faithful) (hplaced : d.Placed)
    {failure : Failure} :
    d.register name = .error failure ↔ name ∉ d.names ∧
      ∃ cause, Formula.ofSource d.options (sourceOfName name) = .error cause ∧
        failure = notInstalled name cause := by
  rw [← install_eq_error_iff hcache, ← hplaced.contains_iff, register]
  split
  · next hknown => simp [hknown]
  · next hnew => simp [hnew]

/-- What is refused is malformed. -/
theorem exists_malformed_of_ofSource {source : String} {cause : Failure}
    (h : Formula.ofSource options source = .error cause) :
    ∃ detail offset position, cause = .malformed detail offset position := by
  rw [Formula.ofSource] at h
  cases hparse : Formula.parse options source with
  | ok formula =>
      rw [hparse] at h
      cases h
  | error fault =>
      rw [hparse] at h
      cases h
      exact ⟨_, _, _, rfl⟩

/-- A name that cannot be read and is not issued later is never known. -/
theorem not_mem_names_after (h : name ∉ ((ofOptions options).after before).names)
    (hread : ¬ Readable options name) (hapart : Apart (issuings before) name)
    (later : List Operation) :
    name ∉ ((ofOptions options).after (before ++ later)).names := by
  induction later using List.reverseRecOn with
  | nil => rwa [List.append_nil]
  | append_singleton later operation ih =>
      rw [← List.append_assoc, mem_names_concat]
      rintro (hmem | ⟨-, hreadable⟩ | ⟨source, -, -, hissued⟩)
      · exact ih hmem
      · exact hread hreadable
      · refine hapart _ ?_ hissued.symm
        rw [issuings, issuings, List.countP_append]
        omega

/-- A registration without a name is an installation once a name has been issued. -/
theorem registerAnonymous_eq (d : Display) (source : String) :
    d.registerAnonymous source =
      match (d.issuing (.registerAnonymous source)).install d.bindings.issueName.1 source with
      | .ok next => (.ok d.bindings.issueName.1, next)
      | .error failure => (.error failure, d.issuing (.registerAnonymous source)) :=
  rfl

/-- **A registration without a name is refused** if its source text cannot be read. -/
theorem registerAnonymous_eq_error_iff (hcache : d.cache.Faithful) {source : String}
    {failure : Failure} :
    (d.registerAnonymous source).1 = .error failure ↔
      ∃ cause, Formula.ofSource d.options (sourceOfName source) = .error cause ∧
        failure = notInstalled d.bindings.issueName.1 cause := by
  have hissuing : (d.issuing (.registerAnonymous source)).cache.Faithful := hcache
  have hinstall : (d.issuing (.registerAnonymous source)).install d.bindings.issueName.1 source =
      .error failure ↔ _ := install_eq_error_iff hissuing
  rw [registerAnonymous_eq]
  refine Iff.trans ?_ hinstall
  split
  · next hok => simp [hok]
  · next herror => simp [herror]

/-- A refused registration without a name uses up the name, and does nothing else. -/
theorem step_registerAnonymous_of_error {source : String} {failure : Failure}
    (h : (d.registerAnonymous source).1 = .error failure) :
    d.step (.registerAnonymous source) = d.issuing (.registerAnonymous source) := by
  rw [registerAnonymous_eq] at h
  rw [step, registerAnonymous_eq]
  split at h
  · cases h
  · rfl

/-- What is issued later is not known before. -/
theorem issuedName_not_mem_names
    (h : ∀ name, .register name ∈ before → Apart (issuings before) name) {n : Nat}
    (hn : issuings before < n) :
    Bindings.issuedName n ∉ ((ofOptions options).after before).names := by
  rw [mem_names_iff]
  rintro (⟨hregistered, -⟩ | hissued)
  · exact h _ hregistered n hn rfl
  · have hle := le_issuings_of_issues hissued
    omega

/-- Once a name has been used up, the names that are issued later are one number ahead. What is
installed has a name that was registered or issued before, and neither the next name nor the one in
its place is among these. -/
theorem shifted_issuing (options : Formula.Options)
    (h : ∀ name, .register name ∈ before → Apart (issuings before) name) (source : String) :
    Shifted (issuings before) ((ofOptions options).after before)
      (((ofOptions options).after before).issuing (.registerAnonymous source)) where
  dialect := rfl
  cache := rfl
  installed := by
    refine (List.map_id' _).symm.trans (List.map_congr_left fun i hi => ?_)
    have hname : i.name ∈ ((ofOptions options).after before).names := List.mem_map_of_mem hi
    have hapart : Apart (issuings before) i.name := by
      intro n hn heq
      exact issuedName_not_mem_names h hn (heq ▸ hname)
    rw [renamed, shift_of_apart hapart]
  places := by
    intro name
    rcases apart_or_exists_issued (issuings before) name with hapart | ⟨n, hn, rfl⟩
    · rw [shift_of_apart hapart]
      rfl
    · have hunknown : ∀ m, issuings before < m →
          ((ofOptions options).after before).places.find? (Bindings.issuedName m) = none := by
        intro m hm
        rw [← Option.not_isSome_iff_eq_none, ← Table.contains,
          (placed_after options before).contains_iff]
        exact issuedName_not_mem_names h hm
      rw [shift_issuedName hn, hunknown n hn]
      exact hunknown (n + 1) (by omega)
  triggers := rfl
  parameters := rfl
  bindings := rfl
  reached := Nat.le_of_eq (issued_after options before).symm

/-- **What a refused formula leaves behind.** It is refused as malformed. A name under which it
was to be registered may be tried again, at once or later, and is refused in the same way; the
display is as before. A formula that came without a name has used up the name that was issued
for it. As long as no name is registered that is issued later, the display goes on to answer as
if it had not been asked, but for the names that it issues, which are one number ahead. -/
theorem refused_spares (options : Formula.Options) (before : List Operation) :
    (∀ name failure, ((ofOptions options).after before).register name = .error failure →
      (∃ detail offset position,
        failure = notInstalled name (.malformed detail offset position)) ∧
      ((ofOptions options).after before).step (.register name) = (ofOptions options).after before ∧
      (Apart (issuings before) name → ∀ later,
        (((ofOptions options).after before).after later).register name = .error failure)) ∧
    ∀ source failure,
      (((ofOptions options).after before).registerAnonymous source).1 = .error failure →
      (∃ detail offset position, failure =
        notInstalled (Bindings.issuedName (issuings before + 1))
          (.malformed detail offset position)) ∧
      ((ofOptions options).after before).step (.registerAnonymous source) =
        ((ofOptions options).after before).issuing (.registerAnonymous source) ∧
      ((∀ name, .register name ∈ before → Apart (issuings before) name) → ∀ later,
        (∀ request ∈ later, request.Apart (issuings before)) →
        List.Forall₂ (Answer.Alike (shift (issuings before)))
          (((ofOptions options).after before).answers later)
          ((((ofOptions options).after before).step (.registerAnonymous source)).answers
            (later.map (Request.rename (shift (issuings before)))))) := by
  have hd := coherent_after options before
  constructor
  · intro name failure hrefused
    obtain ⟨hnew, cause, hcause, rfl⟩ :=
      (register_eq_error_iff hd.cache (placed_after options before)).mp hrefused
    obtain ⟨detail, offset, position, rfl⟩ := exists_malformed_of_ofSource hcause
    refine ⟨⟨detail, offset, position, rfl⟩, by rw [step, hrefused], fun hapart later => ?_⟩
    rw [options_after] at hcause
    have hread : ¬ Readable options name := by
      rintro ⟨formula, hformula⟩
      rw [hcause] at hformula
      cases hformula
    rw [← after_append, register_eq_error_iff (coherent_after options _).cache
      (placed_after options _), options_after]
    exact ⟨not_mem_names_after hnew hread hapart later, _, hcause, rfl⟩
  · intro source failure hrefused
    have hstep := step_registerAnonymous_of_error hrefused
    obtain ⟨cause, hcause, rfl⟩ := (registerAnonymous_eq_error_iff hd.cache).mp hrefused
    obtain ⟨detail, offset, position, rfl⟩ := exists_malformed_of_ofSource hcause
    refine ⟨⟨detail, offset, position, ?_⟩, hstep, fun hbefore later hlater => ?_⟩
    · rw [← issued_after options before]
      rfl
    · rw [hstep]
      exact (shifted_issuing options hbefore source).answers hd hlater

/-- What is asked after a refusal: a formula is installed, and the formulas are looked up. -/
def laterRequests : List Request :=
  [.operate (.registerAnonymous "X"), .lookUp "=A", .lookUp "__formula_1"]

/-- A formula lacks an operand. -/
theorem ofSource_lacking (source : String) (h : sourceOfName source = "A +") :
    ∃ cause, Formula.ofSource ⟨.simplified, 64⟩ (sourceOfName source) = .error cause := by
  have htokens : Formula.tokenize "A +" = .ok [⟨.name "A", ⟨0, 1⟩⟩, ⟨.plus, ⟨2, 3⟩⟩] := by cbv
  refine ⟨Formula.Fault.toFailure "A +" ⟨3, .unexpectedEnd⟩, ?_⟩
  rw [h, Formula.ofSource, Formula.parse, htokens]
  rfl

/-- A formula is refused with and without a name, and the other one stays. -/
theorem refused_spares_lacking :
    (∃ failure, ((ofOptions ⟨.simplified, 64⟩).after [.register "=A"]).register "=A +" =
        .error failure ∧
      ∀ later, (((ofOptions ⟨.simplified, 64⟩).after [.register "=A"]).after later).register
        "=A +" = .error failure) ∧
    (∃ failure, (((ofOptions ⟨.simplified, 64⟩).after [.register "=A"]).registerAnonymous
      "A +").1 = .error failure) ∧
    laterRequests.map (Request.rename (shift 0)) =
      [.operate (.registerAnonymous "X"), .lookUp "=A", .lookUp "__formula_2"] ∧
    List.Forall₂ (Answer.Alike (shift 0))
      (((ofOptions ⟨.simplified, 64⟩).after [.register "=A"]).answers laterRequests)
      ((((ofOptions ⟨.simplified, 64⟩).after [.register "=A"]).step
        (.registerAnonymous "A +")).answers (laterRequests.map (Request.rename (shift 0)))) := by
  have hd := coherent_after ⟨.simplified, 64⟩ [.register "=A"]
  have hplaced := placed_after ⟨.simplified, 64⟩ [.register "=A"]
  have hoptions := options_after ⟨.simplified, 64⟩ [.register "=A"]
  obtain ⟨hnamed, hanonymous⟩ := refused_spares ⟨.simplified, 64⟩ [.register "=A"]
  have hregister : ∃ failure,
      ((ofOptions ⟨.simplified, 64⟩).after [.register "=A"]).register "=A +" = .error failure := by
    obtain ⟨cause, hcause⟩ := ofSource_lacking "=A +" rfl
    refine ⟨_, (register_eq_error_iff hd.cache hplaced).mpr ⟨?_, cause, by rwa [hoptions], rfl⟩⟩
    rw [mem_names_iff, not_or]
    exact ⟨fun h => absurd h.1 (by simp), not_issues_of_isFormulaName rfl⟩
  have hissued : ∃ failure, (((ofOptions ⟨.simplified, 64⟩).after
      [.register "=A"]).registerAnonymous "A +").1 = .error failure := by
    obtain ⟨cause, hcause⟩ := ofSource_lacking "A +" rfl
    exact ⟨_, (registerAnonymous_eq_error_iff hd.cache).mpr ⟨cause, by rwa [hoptions], rfl⟩⟩
  refine ⟨?_, hissued, ?_, ?_⟩
  · obtain ⟨failure, hfailure⟩ := hregister
    exact ⟨failure, hfailure,
      (hnamed "=A +" failure hfailure).2.2 (apart_of_isFormulaName rfl _)⟩
  · have hname : shift 0 "=A" = "=A" := shift_of_apart (apart_of_isFormulaName rfl 0)
    have hfirst : "__formula_1" = Bindings.issuedName 1 := by decide
    have hsecond : Bindings.issuedName 2 = "__formula_2" := by decide
    have hissued : shift 0 "__formula_1" = "__formula_2" := by
      rw [hfirst, shift_issuedName Nat.zero_lt_one, ← hsecond]
    rw [laterRequests, List.map_cons, List.map_cons, List.map_cons, List.map_nil, Request.rename,
      Request.rename, Request.rename, hname, hissued]
  · obtain ⟨failure, hfailure⟩ := hissued
    refine (hanonymous "A +" failure hfailure).2.2 (fun name hname => ?_) laterRequests
      fun request hrequest name heq => ?_
    · obtain rfl : name = "=A" := by simpa using hname
      exact apart_of_isFormulaName rfl _
    · rw [heq] at hrequest
      simp [laterRequests] at hrequest

/-- **A refused formula hides another one.** The name `__formula_2` is registered, and then a
formula without a name is to be installed. This takes the name if one was refused before, and
takes another one if not. -/
theorem refused_hides :
    (∃ failure, (((ofOptions ⟨.simplified, 64⟩).after
      [.register "__formula_2"]).registerAnonymous "A +").1 = .error failure) ∧
    ((((ofOptions ⟨.simplified, 64⟩).after [.register "__formula_2"]).step
      (.registerAnonymous "X")).formula? "__formula_2").map LiveFormula.source =
        some "__formula_2" ∧
    (((((ofOptions ⟨.simplified, 64⟩).after [.register "__formula_2"]).step
      (.registerAnonymous "A +")).step (.registerAnonymous "X")).formula? "__formula_2").map
        LiveFormula.source = some "X" := by
  have hnamed : Formula.ofSource ⟨.simplified, 64⟩ (sourceOfName "__formula_2") =
      .ok ⟨.simplified, [.symbol "__formula_2"]⟩ := by
    have htokens : Formula.tokenize (sourceOfName "__formula_2") =
        .ok [⟨.name "__formula_2", ⟨0, 11⟩⟩] := by cbv
    exact Formula.ofSource_of_tokenize htokens rfl
  have hanonymous : Formula.ofSource ⟨.simplified, 64⟩ (sourceOfName "X") =
      .ok ⟨.simplified, [.symbol "X"]⟩ := by
    have htokens : Formula.tokenize (sourceOfName "X") = .ok [⟨.name "X", ⟨0, 1⟩⟩] := by cbv
    exact Formula.ofSource_of_tokenize htokens rfl
  have hrefused : ∃ failure, (((ofOptions ⟨.simplified, 64⟩).after
      [.register "__formula_2"]).registerAnonymous "A +").1 = .error failure := by
    have hoptions := options_after ⟨.simplified, 64⟩ [.register "__formula_2"]
    obtain ⟨cause, hcause⟩ := ofSource_lacking "A +" rfl
    exact ⟨_, (registerAnonymous_eq_error_iff (coherent_after _ _).cache).mpr
      ⟨cause, by rwa [hoptions], rfl⟩⟩
  have hregister : (ofOptions ⟨.simplified, 64⟩).step (.register "__formula_2") = _ :=
    step_of_ofSource hnamed rfl rfl rfl
  refine ⟨hrefused, ?_⟩
  obtain ⟨failure, hfailure⟩ := hrefused
  rw [step_registerAnonymous_of_error hfailure, after, List.foldl_cons, List.foldl_nil, hregister,
    step_of_ofSource hanonymous ?_ rfl ?_, step_of_ofSource hanonymous ?_ rfl ?_]
  · exact ⟨rfl, rfl⟩
  · rfl
  · rfl
  · rfl
  · rfl

end Display

end Dashboard
