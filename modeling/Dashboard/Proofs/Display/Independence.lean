import Dashboard.Proofs.Display.Run

/-!
# The Formulas of a Display are Independent

A display with many formulas is as good as many formulas on their own. To have a formula on
its own, one reads its source text, tells it the mappings that the display knew when it was
installed, and from then on everything that is done to the display: it follows each new
mapping, each clearing, and each delivery as far as it needs the readings (`driveAll`).

The index of triggers, the parse cache, and the other formulas with their failures and
assignments make no difference: what the display holds at a place is at all times the formula
on its own (`alone_iff`), and what it reports is what the formulas report on their own.

## Main results

* `driveAll_filter_isMap` — a new formula has been told the mappings made before it.
* `alone_iff` — the display holds just what the formulas are on their own.
* `deliver_alone` — a delivery reports just what the formulas make of it on their own.
-/

namespace Dashboard

namespace Display

/-- Whether an operation maps a path name. -/
def Operation.isMap : Operation → Bool
  | .map .. => true
  | _ => false

/-- What a sequence of operations makes of a formula by itself. -/
def driveAll (f : LiveFormula) (operations : List Operation) : LiveFormula :=
  operations.foldl drive f

/-- The last operation comes on top of the others. -/
theorem driveAll_concat (f : LiveFormula) (operations : List Operation) (operation : Operation) :
    driveAll f (operations ++ [operation]) = drive (driveAll f operations) operation :=
  List.foldl_append

/-- **A formula on its own.** One of the operations installs the formula at the place, under
the name; the formula is what the source text spells, is told the mappings that were made
before, and then follows all later operations. -/
def Alone (options : Formula.Options) (operations : List Operation) (place : Nat)
    (name : String) (f : LiveFormula) : Prop :=
  ∃ before operation rest source start,
    operations = before ++ operation :: rest ∧
    ((ofOptions options).after before).request? operation = some (name, source) ∧
    LiveFormula.ofSource options (sourceOfName source) = .ok start ∧
    place = ((ofOptions options).after before).size ∧
    f = driveAll (driveAll start (before.filter Operation.isMap)) rest

variable {options : Formula.Options} {operations : List Operation} {d : Display}

/-! ### The state of a formula -/

/-- A formula that is told the mappings made so far is a formula that is installed now. -/
theorem driveAll_filter_isMap (options : Formula.Options) (operations : List Operation)
    (source : String) (formula : Formula) :
    driveAll (LiveFormula.ofFormula source formula) (operations.filter Operation.isMap) =
      ((ofOptions options).after operations).fresh source formula := by
  induction operations using List.reverseRecOn with
  | nil => rfl
  | append_singleton operations operation ih =>
      have hpaths := ((coherent_after options operations).effect operation).pathNames
        (((ofOptions options).after operations).fresh source formula) rfl
      rw [List.filter_append, after_concat, fresh, ← hpaths]
      cases operation with
      | map path id =>
          show driveAll _ (operations.filter Operation.isMap ++ [.map path id]) = _
          rw [driveAll_concat, ih]
          rfl
      | deliver readings =>
          obtain ⟨known, symbols, heq⟩ := LiveFormula.receive_eq
            (((ofOptions options).after operations).fresh source formula) readings
          rw [drive, heq]
          exact (congrArg (driveAll _) (List.append_nil _)).trans ih
      | register name => exact (congrArg (driveAll _) (List.append_nil _)).trans ih
      | registerAnonymous text => exact (congrArg (driveAll _) (List.append_nil _)).trans ih
      | clear => exact (congrArg (driveAll _) (List.append_nil _)).trans ih

/-- An operation makes of the formula at a place what it would make of it alone. -/
theorem getElem?_step (hd : d.Coherent) {place : Nat} {name : String} {f : LiveFormula}
    (h : d.installed[place]? = some ⟨name, f⟩) (operation : Operation) :
    (d.step operation).installed[place]? = some ⟨name, drive f operation⟩ := by
  have hplace : place < d.installed.length := (List.getElem?_eq_some_iff.mp h).1
  rw [(hd.effect operation).installed, mapFormulas,
    List.getElem?_append_left (by rwa [List.length_map]), List.getElem?_map, h]
  rfl

/-- A formula that was installed first by an operation is alone from then on. -/
theorem Alone.step {place : Nat} {name : String} {f : LiveFormula}
    (h : Alone options operations place name f) (operation : Operation) :
    Alone options (operations ++ [operation]) place name (drive f operation) := by
  obtain ⟨before, first, rest, source, start, rfl, hrequest, hstart, hplace, rfl⟩ := h
  refine ⟨before, first, rest ++ [operation], source, start, ?_, hrequest, hstart, hplace, ?_⟩
  · rw [List.append_assoc, List.cons_append]
  · rw [driveAll_concat]

/-- What an operation installs is a formula on its own. -/
theorem alone_of_newcomer? {operation : Operation} {i : Installed}
    (h : ((ofOptions options).after operations).newcomer? operation = some i) :
    Alone options (operations ++ [operation]) ((ofOptions options).after operations).size i.name
      i.formula := by
  obtain ⟨name, source, formula, hrequest, hformula, rfl⟩ := newcomer?_eq_some_iff.mp h
  rw [options_after] at hformula
  refine ⟨operations, operation, [], source,
    LiveFormula.ofFormula (sourceOfName source) formula, rfl, hrequest, ?_, rfl, ?_⟩
  · exact LiveFormula.ofSource_eq_ok_iff.mpr ⟨formula, hformula, rfl⟩
  · rw [driveAll_filter_isMap]
    rfl

/-- A formula on its own is installed by the operation that it starts from. -/
theorem newcomer?_of_request? {operation : Operation} {name source : String}
    {start : LiveFormula}
    (hrequest : ((ofOptions options).after operations).request? operation = some (name, source))
    (hstart : LiveFormula.ofSource options (sourceOfName source) = .ok start) :
    ((ofOptions options).after operations).newcomer? operation =
      some ⟨name, driveAll start (operations.filter Operation.isMap)⟩ := by
  obtain ⟨formula, hformula, rfl⟩ := LiveFormula.ofSource_eq_ok_iff.mp hstart
  rw [newcomer?_eq_some_iff]
  refine ⟨name, source, formula, hrequest, ?_, ?_⟩
  · rw [options_after]
    exact hformula
  · rw [driveAll_filter_isMap options]

/-- **The display holds just what the formulas are on their own.** -/
theorem alone_iff {place : Nat} {name : String} {f : LiveFormula} :
    Alone options operations place name f ↔
      ((ofOptions options).after operations).installed[place]? = some ⟨name, f⟩ := by
  constructor
  · rintro ⟨before, operation, rest, source, start, rfl, hrequest, hstart, rfl, rfl⟩
    induction rest using List.reverseRecOn with
    | nil =>
        have hd := coherent_after options before
        rw [after_concat, (hd.effect operation).installed, newcomer?_of_request? hrequest hstart]
        simp [size, mapFormulas, driveAll]
    | append_singleton rest later ih =>
        rw [← List.cons_append, ← List.append_assoc, after_concat, driveAll_concat]
        exact getElem?_step (coherent_after options _) ih later
  · intro h
    induction operations using List.reverseRecOn generalizing place name f with
    | nil => cases h
    | append_singleton operations operation ih =>
        rw [after_concat] at h
        obtain ⟨old, hold, heq⟩ | ⟨rfl, hnew⟩ :=
          (coherent_after options operations).cases_of_getElem?_step h
        · cases heq
          exact (ih hold).step operation
        · exact alone_of_newcomer? hnew

/-! ### What is reported -/

/-- Every place that is due has a formula that makes something of the delivery, and the
values are those that the formulas have then. -/
theorem forall₂_due_values (hd : d.Coherent) (readings : List (String × Reading)) :
    List.Forall₂ (fun place told => ∃ f run, d.installed[place]? = some ⟨told.1, f⟩ ∧
      f.receive? readings = some run ∧ told.2 = run.result)
      (d.due readings) (d.deliver readings).values := by
  have hdue : ∀ place ∈ d.due readings, ∃ i, d.installed[place]? = some i ∧
      ∃ run, i.formula.receive? readings = some run := fun _ => mem_due_iff.mp
  rw [deliver_eq hd.indexed, reports]
  show List.Forall₂ _ _ (((d.due readings).filterMap (d.report? readings)).map _)
  generalize d.due readings = due at hdue ⊢
  induction due with
  | nil => exact .nil
  | cons place rest ih =>
      obtain ⟨i, hi, run, hrun⟩ := hdue place List.mem_cons_self
      have hreport : d.report? readings place = some (i.name, run) := by
        rw [report?, hi, Option.bind_some, hrun, Option.map_some]
      rw [List.filterMap_cons_some hreport]
      refine .cons ⟨i.formula, run, hi, hrun, rfl⟩ (ih fun other hother => ?_)
      exact hdue other (List.mem_cons_of_mem _ hother)

/-- **The formulas of a display are independent.** At all times the display holds just what
the formulas are on their own, and a delivery reports just what the formulas make of it on
their own: each of those that need any of the readings once, under its name. -/
theorem deliver_alone (options : Formula.Options) (operations : List Operation)
    (readings : List (String × Reading)) :
    (∀ place name f, Alone options operations place name f ↔
      ((ofOptions options).after operations).installed[place]? = some ⟨name, f⟩) ∧
    ∃ due : List Nat, due.Nodup ∧
      (∀ place, place ∈ due ↔ ∃ name f run,
        Alone options operations place name f ∧ f.receive? readings = some run) ∧
      List.Forall₂ (fun place told => ∃ f run, Alone options operations place told.1 f ∧
          f.receive? readings = some run ∧ told.2 = run.result)
        due (((ofOptions options).after operations).deliver readings).values := by
  have hd := coherent_after options operations
  refine ⟨fun _ _ _ => alone_iff, ((ofOptions options).after operations).due readings,
    nodup_due _ _, ?_, ?_⟩
  · intro place
    rw [mem_due_iff]
    constructor
    · rintro ⟨i, hi, run, hrun⟩
      exact ⟨i.name, i.formula, run, alone_iff.mpr hi, hrun⟩
    · rintro ⟨name, f, run, halone, hrun⟩
      exact ⟨⟨name, f⟩, alone_iff.mp halone, run, hrun⟩
  · simp only [alone_iff]
    exact forall₂_due_values hd readings

end Display

end Dashboard
