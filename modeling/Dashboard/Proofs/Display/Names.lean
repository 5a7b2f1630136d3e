import Dashboard.Proofs.Display.Independence
import Mathlib

/-!
# The Names of a Display's Formulas

A formula is installed under the name of its process variable or, if it has none, under a name
that is issued for it. A host that registers a name again is told that all is well, and nothing
happens. A name that is issued, however, is not compared with the names that are known: the
host may have registered it before (`Clash`). Then two formulas have one name. Look-ups find
the later of them only, while a delivery may report both.

Names can clash in no other way. Issued names differ from one another, and none of them begins
with an equals sign, so there is no clash among formulas that are registered by names of
formulas.

## Main results

* `placed_after` — a name denotes the last formula that was installed under it.
* `mem_names_iff` — the names are those that were registered and those that were issued.
* `nodup_names_iff` — the names are distinct unless a name was registered and later issued.
* `count_values_le` — a delivery reports a name for each of its formulas once at most.
* `names_after` — what holds of the names at all times, and what holds if none of them clash.
-/

namespace Dashboard

namespace Display

/-! ### Names and places -/

/-- The names of the formulas, in the order of their installation. -/
def names (d : Display) : List String :=
  d.installed.map Installed.name

/-- The place is the last one of a name. -/
def IsLast (names : List String) (name : String) (place : Nat) : Prop :=
  names[place]? = some name ∧ ∀ later, place < later → names[later]? ≠ some name

variable {names : List String} {name other : String} {place : Nat}

/-- A name at the end is the last of its kind. -/
theorem isLast_concat_self : IsLast (names ++ [name]) name place ↔ place = names.length := by
  constructor
  · rintro ⟨hplace, hlast⟩
    have hbound := (List.getElem?_eq_some_iff.mp hplace).1
    rw [List.length_append, List.length_singleton] at hbound
    by_contra hne
    exact hlast names.length (by omega) List.getElem?_concat_length
  · rintro rfl
    refine ⟨List.getElem?_concat_length, fun later hlater => ?_⟩
    rw [List.getElem?_eq_none (by rw [List.length_append, List.length_singleton]; omega)]
    exact nofun

/-- A name is not at the new place if another one is. -/
theorem getElem?_concat_of_ne (h : other ≠ name) (place : Nat) :
    (names ++ [other])[place]? = some name ↔ names[place]? = some name := by
  rcases Nat.lt_trichotomy place names.length with hlt | rfl | hgt
  · rw [List.getElem?_append_left hlt]
  · rw [List.getElem?_concat_length, List.getElem?_eq_none (Nat.le_refl _)]
    simp [h]
  · rw [List.getElem?_eq_none (Nat.le_of_lt hgt), List.getElem?_eq_none]
    rw [List.length_append, List.length_singleton]
    exact hgt

/-- Another name at the end changes nothing. -/
theorem isLast_concat_of_ne (h : other ≠ name) :
    IsLast (names ++ [other]) name place ↔ IsLast names name place := by
  simp only [IsLast, ne_eq, getElem?_concat_of_ne h]

/-- Every name of a list has a last place. -/
theorem exists_isLast_iff : (∃ place, IsLast names name place) ↔ name ∈ names := by
  constructor
  · rintro ⟨place, hplace, -⟩
    exact List.mem_of_getElem? hplace
  · intro hmem
    induction names using List.reverseRecOn with
    | nil => cases hmem
    | append_singleton names last ih =>
        by_cases hname : last = name
        · subst hname
          exact ⟨names.length, isLast_concat_self.mpr rfl⟩
        · simp only [isLast_concat_of_ne hname]
          refine ih ((List.mem_append.mp hmem).resolve_right ?_)
          exact fun hlast => hname (List.mem_singleton.mp hlast).symm

/-- Where all names are distinct, every place of a name is its last. -/
theorem isLast_iff_of_nodup (h : names.Nodup) :
    IsLast names name place ↔ names[place]? = some name := by
  refine ⟨And.left, fun hplace => ⟨hplace, fun later hlater hagain => ?_⟩⟩
  have hbound := (List.getElem?_eq_some_iff.mp hplace).1
  have hsame := (List.getElem?_inj hbound h).mp (hplace.trans hagain.symm)
  omega

/-- **A name denotes the last formula that was installed under it.** -/
def Placed (d : Display) : Prop :=
  ∀ name place, d.places.find? name = some place ↔ IsLast d.names name place

variable {d : Display} {options : Formula.Options} {operations : List Operation}

/-- An installation adds its name at the end. -/
@[simp] theorem names_add (d : Display) (i : Installed) :
    (d.add i).names = d.names ++ [i.name] := by
  rw [Display.names, installed_add, List.map_append]
  rfl

/-- A change of the formulas leaves their names. -/
@[simp] theorem names_mapFormulas (d : Display) (change : LiveFormula → LiveFormula) :
    (d.mapFormulas change).names = d.names := by
  rw [Display.names, mapFormulas, List.map_map]
  rfl

/-- The new name has the new place. -/
theorem places_add (d : Display) (i : Installed) :
    (d.add i).places = d.places.insert i.name d.size := by
  obtain ⟨triggers, parameters, heq⟩ := addTriggers_eq { d with
    installed := d.installed ++ [i], places := d.places.insert i.name d.size } d.size i.formula
  rw [add, heq]

/-- Names keep their places when one is added. -/
theorem Placed.add (hd : d.Placed) (i : Installed) : (d.add i).Placed := by
  intro name place
  rw [places_add, names_add, Table.find?_insert]
  split
  · next hname =>
      subst hname
      rw [isLast_concat_self, Option.some.injEq, Display.names, List.length_map, size, eq_comm]
  · next hname => rw [isLast_concat_of_ne hname, hd name place]

/-- Every transition keeps the names in their places. -/
theorem Transition.placed (hd : d.Placed) {operation : Operation} {next : Display}
    (h : d.Transition operation next) : next.Placed := by
  cases h with
  | installs i cache =>
      have hissued : ({ d.issuing operation with cache } : Display).Placed := hd
      exact hissued.add i
  | passes => exact hd
  | maps path id =>
      obtain ⟨triggers, parameters, heq⟩ := rebuildTriggers_eq
        { d.mapFormulas (·.map path id) with bindings := d.bindings.map path id }
      rw [heq]
      intro name place
      show d.places.find? name = some place ↔
        IsLast (d.mapFormulas (·.map path id)).names name place
      rw [names_mapFormulas]
      exact hd name place
  | tells =>
      intro name place
      rw [names_mapFormulas]
      exact hd name place

/-- **In every display that a host arrives at, a name denotes the last formula that was
installed under it.** -/
theorem placed_after (options : Formula.Options) (operations : List Operation) :
    ((ofOptions options).after operations).Placed := by
  refine invariant_after options ?_ (fun hd h => h.placed hd) operations
  simp [Placed, IsLast, ofOptions, Display.names]

/-- The display knows the names of its formulas. -/
theorem Placed.contains_iff (hd : d.Placed) (name : String) :
    d.places.contains name = true ↔ name ∈ d.names := by
  rw [Table.contains, Option.isSome_iff_exists, ← exists_isLast_iff]
  exact exists_congr (hd name)

/-- A look-up finds the last formula of a name. -/
theorem Placed.formula?_eq_some_iff (hd : d.Placed) (name : String) (f : LiveFormula) :
    d.formula? name = some f ↔
      ∃ place : Nat, d.installed[place]? = some ⟨name, f⟩ ∧
        ∀ later, place < later → d.names[later]? ≠ some name := by
  rw [formula?, Option.bind_eq_some_iff]
  refine exists_congr fun place => ?_
  rw [hd name place, IsLast, Display.names, List.getElem?_map, and_right_comm]
  refine and_congr_left fun _ => ?_
  cases d.installed[place]? with
  | none => simp
  | some i =>
      obtain ⟨known, g⟩ := i
      simp

/-- Where all names are distinct, look-ups find all formulas. -/
theorem Placed.formula?_iff_mem (hd : d.Placed) (hnames : d.names.Nodup) (name : String)
    (f : LiveFormula) : d.formula? name = some f ↔ ⟨name, f⟩ ∈ d.installed := by
  rw [hd.formula?_eq_some_iff, List.mem_iff_getElem?]
  refine exists_congr fun place => and_iff_left_of_imp fun hplace => ?_
  refine ((isLast_iff_of_nodup hnames).mpr ?_).2
  rw [Display.names, List.getElem?_map, hplace]
  rfl

/-! ### Registered and issued names -/

/-- Whether an operation is issued a name. -/
def Operation.isAnonymous : Operation → Bool
  | .registerAnonymous _ => true
  | _ => false

/-- How many names are issued in a sequence of operations. -/
def issuings (operations : List Operation) : Nat :=
  operations.countP Operation.isAnonymous

/-- A source text that is read as a formula. -/
def Readable (options : Formula.Options) (source : String) : Prop :=
  ∃ formula, Formula.ofSource options (sourceOfName source) = .ok formula

/-- **A name is registered** in a sequence of operations. -/
def Registers (options : Formula.Options) (operations : List Operation) (name : String) : Prop :=
  .register name ∈ operations ∧ Readable options name

/-- The operations include one that is as said, given those before it. -/
def Includes (what : List Operation → Operation → Prop) (operations : List Operation) : Prop :=
  ∃ before operation rest, operations = before ++ operation :: rest ∧ what before operation

/-- An operation installs a formula under a name that is issued for it. -/
def InstallsIssued (options : Formula.Options) (name : String) (before : List Operation)
    (operation : Operation) : Prop :=
  ∃ source, operation = .registerAnonymous source ∧ Readable options source ∧
    Bindings.issuedName (issuings before + 1) = name

/-- **A name is issued** for a formula that is installed. -/
def Issues (options : Formula.Options) (operations : List Operation) (name : String) : Prop :=
  Includes (InstallsIssued options name) operations

/-- **Names clash** if one of them is issued that was registered before. -/
def Clash (options : Formula.Options) (operations : List Operation) : Prop :=
  Includes (fun before operation =>
    ∃ name, InstallsIssued options name before operation ∧ Registers options before name) operations

/-- One more operation is included, or an earlier one was. -/
theorem includes_concat {what : List Operation → Operation → Prop} {operation : Operation} :
    Includes what (operations ++ [operation]) ↔
      Includes what operations ∨ what operations operation := by
  constructor
  · rintro ⟨before, first, rest, heq, hwhat⟩
    rcases List.eq_nil_or_concat rest with rfl | ⟨rest, last, rfl⟩
    · obtain ⟨rfl, hlast⟩ := List.append_inj' heq rfl
      cases hlast
      exact .inr hwhat
    · rw [List.concat_eq_append, ← List.cons_append, ← List.append_assoc] at heq
      exact .inl ⟨before, first, rest, (List.append_inj' heq rfl).1, hwhat⟩
  · rintro (⟨before, first, rest, rfl, hwhat⟩ | hwhat)
    · refine ⟨before, first, rest ++ [operation], ?_, hwhat⟩
      rw [List.append_assoc, List.cons_append]
    · exact ⟨operations, operation, [], rfl, hwhat⟩

/-- Where no operation has been, none is included. -/
theorem not_includes_nil {what : List Operation → Operation → Prop} : ¬ Includes what [] := by
  rintro ⟨before, operation, rest, heq, -⟩
  simp at heq

/-- A name is registered by the last operation, or it was before. -/
theorem registers_concat {operation : Operation} :
    Registers options (operations ++ [operation]) name ↔
      Registers options operations name ∨
        (operation = .register name ∧ Readable options name) := by
  rw [Registers, Registers, List.mem_append, List.mem_singleton, or_and_right, eq_comm]

/-- Only so many names can have been issued. -/
theorem le_issuings_of_issues {n : Nat} (h : Issues options operations (Bindings.issuedName n)) :
    n ≤ issuings operations := by
  obtain ⟨before, operation, rest, rfl, source, rfl, -, hname⟩ := h
  obtain rfl := Bindings.issuedName_injective hname
  rw [issuings, issuings, List.countP_append, List.countP_cons_of_pos rfl]
  omega

/-- An issued name is not the name of a formula. -/
theorem isFormulaName_issuedName (n : Nat) : isFormulaName (Bindings.issuedName n) = false := by
  rw [isFormulaName, Bindings.issuedName, String.toList_append]
  rfl

/-- A name that spells a formula is never issued. -/
theorem not_issues_of_isFormulaName (h : isFormulaName name = true) :
    ¬ Issues options operations name := by
  rintro ⟨before, operation, rest, -, source, -, -, rfl⟩
  rw [isFormulaName_issuedName] at h
  cases h

/-- Names of formulas do not clash. -/
theorem not_clash_of_isFormulaName
    (h : ∀ name, .register name ∈ operations → isFormulaName name = true) :
    ¬ Clash options operations := by
  rintro ⟨before, operation, rest, rfl, name, ⟨source, -, -, rfl⟩, hregistered, -⟩
  have hformula := h _ (List.mem_append_left _ hregistered)
  rw [isFormulaName_issuedName] at hformula
  cases hformula

/-! ### The names after a run -/

/-- Every transition uses up the names that it is issued. -/
theorem Transition.issued {operation : Operation} {next : Display}
    (h : d.Transition operation next) : next.bindings.issued = d.issuedAfter operation := by
  cases h with
  | installs i cache =>
      obtain ⟨-, -, hbindings⟩ := add_frame { d.issuing operation with cache } i
      rw [hbindings]
      rfl
  | passes => rfl
  | maps path id =>
      obtain ⟨triggers, parameters, heq⟩ := rebuildTriggers_eq
        { d.mapFormulas (·.map path id) with bindings := d.bindings.map path id }
      rw [heq]
      rfl
  | tells hrequest =>
      cases operation with
      | registerAnonymous source => cases hrequest
      | _ => rfl

/-- A display counts the names that it has issued. -/
theorem issued_after (options : Formula.Options) (operations : List Operation) :
    ((ofOptions options).after operations).bindings.issued = issuings operations := by
  induction operations using List.reverseRecOn with
  | nil => rfl
  | append_singleton operations operation ih =>
      have hissued := ((coherent_after options operations).transition operation).issued
      rw [after_concat, hissued, issuings, List.countP_append, ← issuings, ← ih]
      cases operation with
      | _ => rfl

/-- An operation adds the name of the formula that it installs. -/
theorem names_concat (options : Formula.Options) (operations : List Operation)
    (operation : Operation) :
    ((ofOptions options).after (operations ++ [operation])).names =
      ((ofOptions options).after operations).names ++
        (((ofOptions options).after operations).newcomer? operation).toList.map Installed.name := by
  have heffect := (coherent_after options operations).effect operation
  rw [after_concat, Display.names, heffect.installed, List.map_append, ← Display.names,
    names_mapFormulas]

/-- A formula is installed under a registered name that is new, or under an issued one. -/
theorem exists_newcomer?_iff {operation : Operation} :
    (∃ i, ((ofOptions options).after operations).newcomer? operation = some i ∧ i.name = name) ↔
      (operation = .register name ∧ Readable options name ∧
          name ∉ ((ofOptions options).after operations).names) ∨
        InstallsIssued options name operations operation := by
  simp only [newcomer?_eq_some_iff, options_after]
  constructor
  · rintro ⟨_, ⟨known, source, formula, hrequest, hformula, rfl⟩, rfl⟩
    cases operation with
    | register given =>
        rw [request?] at hrequest
        split at hrequest
        · cases hrequest
        · next hnew =>
            cases hrequest
            refine .inl ⟨rfl, ⟨formula, hformula⟩, ?_⟩
            rwa [← (placed_after options operations).contains_iff]
    | registerAnonymous text =>
        cases hrequest
        refine .inr ⟨source, rfl, ⟨formula, hformula⟩, ?_⟩
        rw [← issued_after options]
        rfl
    | _ => cases hrequest
  · rintro (⟨rfl, ⟨formula, hformula⟩, hnew⟩ | ⟨source, rfl, ⟨formula, hformula⟩, rfl⟩)
    · refine ⟨_, ⟨name, name, formula, ?_, hformula, rfl⟩, rfl⟩
      rw [request?, if_neg (mt ((placed_after options operations).contains_iff name).mp hnew)]
    · refine ⟨_, ⟨_, source, formula, rfl, hformula, rfl⟩, ?_⟩
      rw [← issued_after options]
      rfl

/-- A name is on the display after one more operation if it was there, if it has been registered, or
if it has been issued to a formula that was installed. -/
theorem mem_names_concat {operation : Operation} :
    name ∈ ((ofOptions options).after (operations ++ [operation])).names ↔
      name ∈ ((ofOptions options).after operations).names ∨
        (operation = .register name ∧ Readable options name) ∨
        InstallsIssued options name operations operation := by
  rw [names_concat, List.mem_append, List.mem_map]
  simp only [Option.mem_toList, exists_newcomer?_iff]
  by_cases hmem : name ∈ ((ofOptions options).after operations).names
  · simp only [hmem, true_or]
  · simp only [hmem, not_false_eq_true, and_true]

/-- **The names of a display** are those that were registered and those that were issued. -/
theorem mem_names_iff :
    name ∈ ((ofOptions options).after operations).names ↔
      Registers options operations name ∨ Issues options operations name := by
  induction operations using List.reverseRecOn with
  | nil => simp [Display.names, ofOptions, Registers, Issues, not_includes_nil]
  | append_singleton operations operation ih =>
      rw [mem_names_concat, ih, registers_concat, Issues, Issues, includes_concat, or_or_or_comm]

/-- The name of a newcomer is taken if it is issued now and was registered before. A name that
is registered now is new, and issued names differ from one another. -/
theorem mem_names_of_newcomer? {operation : Operation} {i : Installed}
    (h : ((ofOptions options).after operations).newcomer? operation = some i) :
    i.name ∈ ((ofOptions options).after operations).names ↔
      ∃ name, InstallsIssued options name operations operation ∧
        Registers options operations name := by
  obtain ⟨rfl, -, hfresh⟩ | ⟨source, rfl, hreadable, hname⟩ := exists_newcomer?_iff.mp ⟨i, h, rfl⟩
  · refine iff_of_false hfresh ?_
    rintro ⟨name, ⟨source, hanonymous, -, -⟩, -⟩
    cases hanonymous
  · have hissued : ¬ Issues options operations i.name := by
      rw [← hname]
      intro hissued
      have hle := le_issuings_of_issues hissued
      omega
    rw [mem_names_iff, or_iff_left hissued, ← hname]
    constructor
    · exact fun hregistered => ⟨_, ⟨source, rfl, hreadable, rfl⟩, hregistered⟩
    · rintro ⟨_, ⟨_, -, -, rfl⟩, hregistered⟩
      exact hregistered

/-- **The names are distinct** unless a name was registered and later issued. -/
theorem nodup_names_iff :
    ((ofOptions options).after operations).names.Nodup ↔ ¬ Clash options operations := by
  induction operations using List.reverseRecOn with
  | nil => simp [Display.names, ofOptions, Clash, not_includes_nil]
  | append_singleton operations operation ih =>
      rw [names_concat, Clash, includes_concat, ← Clash, not_or, ← ih]
      cases hnew : ((ofOptions options).after operations).newcomer? operation with
      | none =>
          have hsilent : ∀ name, ¬ InstallsIssued options name operations operation := by
            intro name hissued
            obtain ⟨i, hi, -⟩ := exists_newcomer?_iff.mpr (.inr hissued)
            rw [hnew] at hi
            cases hi
          simp [hsilent]
      | some i =>
          rw [← mem_names_of_newcomer? hnew, Option.toList_some, List.map_singleton,
            ← List.concat_eq_append, List.nodup_concat, and_comm]

/-! ### What the host is told -/

/-- A registration changes nothing, and says that all is well, if the name is known. An installation
would make the display longer. -/
theorem register_eq_ok_self_iff (hd : d.Placed) (name : String) :
    d.register name = .ok d ↔ name ∈ d.names := by
  rw [← hd.contains_iff]
  refine ⟨fun hok => ?_, register_of_known⟩
  by_contra hnew
  rw [register, if_neg hnew, install_eq] at hok
  cases hget : d.cache.get (sourceOfName name) d.dialect with
  | error failure =>
      rw [hget] at hok
      cases hok
  | ok got =>
      rw [hget] at hok
      have hlength := congrArg (fun d : Display => d.installed.length) (Except.ok.inj hok)
      simp at hlength

/-- **A delivery reports a name once at most for each formula that has it.** -/
theorem count_values_le (hd : d.Coherent) (readings : List (String × Reading)) (name : String) :
    ((d.deliver readings).values.map Prod.fst).count name ≤ d.names.count name := by
  have hreports : (d.due readings).map (d.names[·]?) =
      ((d.deliver readings).values.map Prod.fst).map some := by
    rw [← List.forall₂_eq_eq_eq, List.forall₂_map_left_iff, List.forall₂_map_right_iff,
      List.forall₂_map_right_iff]
    refine (forall₂_due_values hd readings).imp ?_
    rintro place told ⟨f, run, hplace, -, -⟩
    rw [Display.names, List.getElem?_map, hplace]
    rfl
  have hplaces : (d.due readings).Subperm (List.range d.names.length) := by
    refine List.subperm_of_subset (nodup_due d readings) fun place hplace => ?_
    obtain ⟨i, hi, -⟩ := mem_due_iff.mp hplace
    rw [List.mem_range, Display.names, List.length_map]
    exact (List.getElem?_eq_some_iff.mp hi).1
  have hall : (List.range d.names.length).map (d.names[·]?) = d.names.map some :=
    List.ext_getElem (by simp) fun place _ hplace => by simp_all
  have hsome : Function.Injective (some : String → Option String) := fun _ _ => Option.some.inj
  calc ((d.deliver readings).values.map Prod.fst).count name
      = ((d.due readings).map (d.names[·]?)).count (some name) := by
        rw [hreports, List.count_map_of_injective _ _ hsome]
    _ ≤ ((List.range d.names.length).map (d.names[·]?)).count (some name) := by
        rw [List.count_eq_countP, List.count_eq_countP, List.countP_map, List.countP_map]
        exact hplaces.countP_le _
    _ = d.names.count name := by
        rw [hall, List.count_map_of_injective _ _ hsome]

/-- **The names of a display's formulas.** They are distinct as long as no name is issued that
was registered before. A look-up finds the last formula of a name. A registration is passed
over if the name was registered before or has been issued. While no names clash, look-ups find
all formulas, and no delivery reports two values under one name. Names of formulas do not
clash, and are passed over only if they were registered before. -/
theorem names_after (options : Formula.Options) (operations : List Operation) :
    (((ofOptions options).after operations).names.Nodup ↔ ¬ Clash options operations) ∧
    (∀ name f, ((ofOptions options).after operations).formula? name = some f ↔
      ∃ place : Nat, ((ofOptions options).after operations).installed[place]? = some ⟨name, f⟩ ∧
        ∀ later, place < later →
          ((ofOptions options).after operations).names[later]? ≠ some name) ∧
    (∀ name, ((ofOptions options).after operations).register name =
        .ok ((ofOptions options).after operations) ↔
      Registers options operations name ∨ Issues options operations name) ∧
    (¬ Clash options operations →
      (∀ name f, ((ofOptions options).after operations).formula? name = some f ↔
        ⟨name, f⟩ ∈ ((ofOptions options).after operations).installed) ∧
      ∀ readings, ((((ofOptions options).after operations).deliver readings).values.map
        Prod.fst).Nodup) ∧
    (∀ name, isFormulaName name = true →
      (((ofOptions options).after operations).register name =
          .ok ((ofOptions options).after operations) ↔ Registers options operations name)) ∧
    ((∀ name, .register name ∈ operations → isFormulaName name = true) →
      ¬ Clash options operations) := by
  have hplaced := placed_after options operations
  have hregister : ∀ name, ((ofOptions options).after operations).register name =
      .ok ((ofOptions options).after operations) ↔
        Registers options operations name ∨ Issues options operations name := fun name =>
    (register_eq_ok_self_iff hplaced name).trans mem_names_iff
  refine ⟨nodup_names_iff, hplaced.formula?_eq_some_iff, hregister, fun hclash => ⟨?_, ?_⟩, ?_,
    not_clash_of_isFormulaName⟩
  · exact hplaced.formula?_iff_mem (nodup_names_iff.mpr hclash)
  · intro readings
    rw [List.nodup_iff_count_le_one]
    intro name
    exact Nat.le_trans (count_values_le (coherent_after options operations) readings name)
      (List.nodup_iff_count_le_one.mp (nodup_names_iff.mpr hclash) name)
  · intro name hname
    rw [hregister, or_iff_left (not_issues_of_isFormulaName hname)]

/-- A formula that is registered twice, and one without a name that reads the same. -/
def sharedOperations : List Operation :=
  [.register "=A", .register "=A", .registerAnonymous "A"]

/-- The name of a formula and an issued name do not clash. -/
theorem names_shared :
    (∀ name, .register name ∈ sharedOperations → isFormulaName name = true) ∧
      ¬ Clash ⟨.simplified, 64⟩ sharedOperations ∧
      ((ofOptions ⟨.simplified, 64⟩).after sharedOperations).names.Nodup ∧
      ∀ readings, ((((ofOptions ⟨.simplified, 64⟩).after sharedOperations).deliver
        readings).values.map Prod.fst).Nodup := by
  have hformulas : ∀ name, .register name ∈ sharedOperations → isFormulaName name = true := by
    intro name hname
    simp only [sharedOperations, List.mem_cons, Operation.register.injEq, List.not_mem_nil,
      reduceCtorEq, or_false] at hname
    rcases hname with rfl | rfl
    · rfl
    · rfl
  obtain ⟨hnames, -, -, hclear, -, hapart⟩ := names_after ⟨.simplified, 64⟩ sharedOperations
  have hclash := hapart hformulas
  exact ⟨hformulas, hclash, hnames.mpr hclash, (hclear hclash).2⟩

/-- A host registers a name that is not the name of a formula, and it is issued later. -/
def clashingOperations : List Operation :=
  [.register "__formula_1", .registerAnonymous "X"]

/-- **Two formulas have one name.** The first of them cannot be looked up any more, and a
delivery reports two values under the name. The other way round, the registration of a name
that has been issued is passed over. -/
theorem names_clash :
    ((ofOptions ⟨.simplified, 64⟩).after clashingOperations).names =
        ["__formula_1", "__formula_1"] ∧
      (((ofOptions ⟨.simplified, 64⟩).after clashingOperations).formula? "__formula_1").map
        LiveFormula.source = some "X" ∧
      (((ofOptions ⟨.simplified, 64⟩).after clashingOperations).deliver
        [("__formula_1", ⟨.boolean true, none⟩), ("X", ⟨.boolean false, none⟩)]).values =
          [("__formula_1", .boolean true), ("__formula_1", .boolean false)] ∧
      ((ofOptions ⟨.simplified, 64⟩).after [.registerAnonymous "X"]).register "__formula_1" =
        .ok ((ofOptions ⟨.simplified, 64⟩).after [.registerAnonymous "X"]) := by
  have hnamed : Formula.ofSource ⟨.simplified, 64⟩ (sourceOfName "__formula_1") =
      .ok ⟨.simplified, [.symbol "__formula_1"]⟩ := by
    have htokens : Formula.tokenize (sourceOfName "__formula_1") =
        .ok [⟨.name "__formula_1", ⟨0, 11⟩⟩] := by cbv
    exact Formula.ofSource_of_tokenize htokens rfl
  have hanonymous : Formula.ofSource ⟨.simplified, 64⟩ (sourceOfName "X") =
      .ok ⟨.simplified, [.symbol "X"]⟩ := by
    have htokens : Formula.tokenize (sourceOfName "X") = .ok [⟨.name "X", ⟨0, 1⟩⟩] := by cbv
    exact Formula.ofSource_of_tokenize htokens rfl
  have hregister : (ofOptions ⟨.simplified, 64⟩).step (.register "__formula_1") = _ :=
    step_of_ofSource hnamed rfl rfl rfl
  have hissue : (ofOptions ⟨.simplified, 64⟩).step (.registerAnonymous "X") = _ :=
    step_of_ofSource hanonymous rfl rfl rfl
  rw [clashingOperations, after, after, List.foldl_cons, List.foldl_cons, List.foldl_nil,
    List.foldl_cons, List.foldl_nil, hregister, hissue, step_of_ofSource hanonymous ?_ rfl ?_]
  · exact ⟨rfl, rfl, rfl, rfl⟩
  · rfl
  · rfl

end Display

end Dashboard
