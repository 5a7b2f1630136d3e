import Dashboard.Proofs.Display.Latest

/-!
# What a Delivery Affects

A delivery reports the formulas that it affects: those that need one of the identifiers
delivered. The readings are gone through one by one, and each marks the formulas that need it,
in the order of their installation and unless they are marked already. So a formula is reported
once, at the turn of the first reading that concerns it.

No formula is evaluated before all readings have been handed out. Of several readings of one
identifier a formula is left with the last. Readings of other identifiers do not reach it, and
those that no formula needs might as well not have been delivered.

## Main results

* `pairwise_foldl_appendNew` — marking goes by rows, and within a row upwards.
* `LiveFormula.supplied_updateAll` — what a formula has been told once all is handed out.
* `deliver_concerning` — readings that no formula needs make no difference.
* `deliver_affected` — which formulas are reported, in which order, and with which values.
-/

namespace Dashboard

/-! ### A formula that has been told the readings -/

namespace LiveFormula

/-- The formula `g` is `f` after readings: it knows the last of each identifier that it needs,
and is as before otherwise. -/
structure Supplied (f : LiveFormula) (readings : List (String × Reading)) (g : LiveFormula) :
    Prop where
  source : g.source = f.source
  formula : g.formula = f.formula
  pathNames : g.bindings.pathNames = f.bindings.pathNames
  symbols : g.symbols = f.symbols
  reading : ∀ id, g.bindings.reading? id =
    if id ∈ f.parameters then (Display.lastOf? id readings).or (f.bindings.reading? id)
    else f.bindings.reading? id

variable {f g h : LiveFormula} {readings : List (String × Reading)}

/-- A formula that takes note of what it needs is supplied. -/
theorem supplied_updateAll (f : LiveFormula) (readings : List (String × Reading)) :
    f.Supplied readings (f.updateAll (f.wanted readings)) := by
  have hreading := Display.reading?_receive f readings
  rw [Display.bindings_receive] at hreading
  obtain ⟨known, heq⟩ := f.updateAll_eq (f.wanted readings)
  rw [heq] at hreading ⊢
  exact ⟨rfl, rfl, rfl, rfl, hreading⟩

/-- Formulas that are supplied alike have the same value. -/
theorem Supplied.result_eq (hg : f.Supplied readings g) (hh : f.Supplied readings h) :
    g.execute.result = h.execute.result := by
  have hresolve : ∀ path, h.bindings.resolve? path = g.bindings.resolve? path := by
    intro path
    rw [Bindings.resolve?, Bindings.resolve?, hh.pathNames, hg.pathNames]
  have halike : g.RunsAlike h.bindings := by
    refine .of_reading?_eq fun name _ => ?_
    rw [reading?_withBindings hresolve, Formula.Environment.reading?]
    refine congrArg _ (funext fun id => ?_)
    rw [hh.reading, ← hg.reading]
    rfl
  have heq : g.withBindings h.bindings = h := by
    rw [withBindings, hg.source, hg.formula, hg.symbols, ← hh.source, ← hh.formula, ← hh.symbols]
  rw [result_execute, result_execute, ← halike.result, heq]

/-- A formula without loose symbols might as well be told all readings. -/
theorem Supplied.result_of_loose_eq_nil (hg : f.Supplied readings g)
    (hloose : f.formula.loose = []) :
    g.execute.result = (f.updateAll readings).execute.result := by
  obtain ⟨known, heq⟩ := f.updateAll_eq readings
  have hparameters : g.parameters = f.parameters := parameters_congr hg.formula hg.pathNames
  have hagrees : g.AgreesOnParameters (f.updateAll readings).bindings := by
    refine ⟨fun path => ?_, fun id hid => ?_⟩
    · rw [heq, Bindings.resolve?, Bindings.resolve?, hg.pathNames]
    · rw [hparameters] at hid
      rw [hg.reading, if_pos hid, Display.reading?_updateAll]
  have halike : g.RunsAlike (f.updateAll readings).bindings :=
    (covered_of_loose_eq_nil (by rw [hg.formula, hloose])).runsAlike hagrees
  have hall : g.withBindings (f.updateAll readings).bindings = f.updateAll readings := by
    rw [heq, withBindings, hg.source, hg.formula, hg.symbols]
  rw [result_execute, result_execute, ← halike.result, hall]

end LiveFormula

namespace Display

/-! ### Marking by rows -/

/-- A row of distinct items adds those that are not there yet, at the end. -/
theorem foldl_appendNew_of_nodup {row : List Nat} (h : row.Nodup) (marked : List Nat) :
    row.foldl appendNew marked = marked ++ row.filter fun item => !marked.contains item := by
  induction row generalizing marked with
  | nil => simp
  | cons item rest ih =>
      obtain ⟨hnew, hrest⟩ := List.nodup_cons.mp h
      rw [List.foldl_cons, ih hrest, appendNew, List.filter_cons]
      by_cases hmarked : marked.contains item = true
      · rw [if_pos hmarked, hmarked, if_neg (by decide)]
      · have hothers : (rest.filter fun other => !(marked ++ [item]).contains other) =
            rest.filter fun other => !marked.contains other := by
          refine List.filter_congr fun other hother => ?_
          have hne : other ≠ item := fun heq => hnew (heq ▸ hother)
          simp [hne]
        rw [if_neg hmarked, hothers, Bool.eq_false_iff.mpr hmarked, if_pos (by decide),
          List.append_assoc, List.singleton_append]

/-- The first row that has an item. -/
def firstRow (rows : List (List Nat)) (item : Nat) : Nat :=
  rows.findIdx (·.contains item)

/-- An item that has been in a row before keeps its first row. -/
theorem firstRow_concat_of_mem {rows : List (List Nat)} {item : Nat} (h : item ∈ rows.flatten)
    (row : List Nat) : firstRow (rows ++ [row]) item = firstRow rows item := by
  obtain ⟨first, hfirst, hitem⟩ := List.mem_flatten.mp h
  have hlt : rows.findIdx (·.contains item) < rows.length :=
    List.findIdx_lt_length_of_exists ⟨first, hfirst, List.contains_iff_mem.mpr hitem⟩
  rw [firstRow, List.findIdx_append, if_pos hlt, firstRow]

/-- An item that has been in no row before has the new one as its first. -/
theorem firstRow_concat_of_not_mem {rows : List (List Nat)} {item : Nat}
    (h : item ∉ rows.flatten) {row : List Nat} (hrow : item ∈ row) :
    firstRow (rows ++ [row]) item = rows.length := by
  have hnot : ¬ rows.findIdx (·.contains item) < rows.length := by
    rw [List.findIdx_lt_length]
    rintro ⟨other, hother, hitem⟩
    exact h (List.mem_flatten.mpr ⟨other, hother, List.contains_iff_mem.mp hitem⟩)
  rw [firstRow, List.findIdx_append, if_neg hnot, List.findIdx_cons,
    List.contains_iff_mem.mpr hrow]
  simp

/-- **Marking goes by rows, and within a row upwards**, by induction on the rows. What was marked
keeps its row, and what a row adds has been in no row before. -/
theorem pairwise_foldl_appendNew {rows : List (List Nat)}
    (h : ∀ row ∈ rows, row.Pairwise (· < ·)) :
    (rows.flatten.foldl appendNew []).Pairwise fun item other =>
      firstRow rows item < firstRow rows other ∨
        firstRow rows item = firstRow rows other ∧ item < other := by
  induction rows using List.reverseRecOn with
  | nil => exact .nil
  | append_singleton rows row ih =>
      have hrow := h row (List.mem_append_right _ (List.mem_singleton_self row))
      have hmarked : ∀ item, item ∈ rows.flatten.foldl appendNew [] ↔ item ∈ rows.flatten := by
        intro item
        rw [mem_foldl_appendNew]
        simp
      have hadded : ∀ item,
          (item ∈ row.filter fun item => !(rows.flatten.foldl appendNew []).contains item) →
            firstRow (rows ++ [row]) item = rows.length := by
        intro item hitem
        rw [List.mem_filter, Bool.not_eq_true', ← Bool.not_eq_true, List.contains_iff_mem,
          hmarked] at hitem
        exact firstRow_concat_of_not_mem hitem.2 hitem.1
      rw [List.flatten_append, List.foldl_append, List.flatten_singleton,
        foldl_appendNew_of_nodup (hrow.imp Nat.ne_of_lt), List.pairwise_append]
      refine ⟨?_, ?_, ?_⟩
      · refine (ih fun other hother => h other (List.mem_append_left _ hother)).imp_of_mem ?_
        intro item other hitem hother
        rw [firstRow_concat_of_mem ((hmarked item).mp hitem),
          firstRow_concat_of_mem ((hmarked other).mp hother)]
        exact id
      · refine (hrow.sublist List.filter_sublist).imp_of_mem ?_
        intro item other hitem hother hlt
        exact .inr ⟨(hadded item hitem).trans (hadded other hother).symm, hlt⟩
      · intro item hitem other hother
        have hold := (hmarked item).mp hitem
        rw [hadded other hother, firstRow_concat_of_mem hold]
        obtain ⟨first, hfirst, hmem⟩ := List.mem_flatten.mp hold
        exact .inl (List.findIdx_lt_length_of_exists
          ⟨first, hfirst, List.contains_iff_mem.mpr hmem⟩)

/-! ### The readings that concern a formula -/

variable {d : Display} {options : Formula.Options} {operations : List Operation}

/-- Whether the formula at a place needs an identifier. -/
def needs (d : Display) (place : Nat) (id : String) : Bool :=
  d.installed[place]?.any fun i => i.formula.parameters.contains id

/-- The position of the first reading that concerns the formula at a place. -/
def turn (d : Display) (readings : List (String × Reading)) (place : Nat) : Nat :=
  readings.findIdx fun delivered => d.needs place delivered.1

/-- The readings that concern any formula. -/
def concerning (d : Display) (readings : List (String × Reading)) : List (String × Reading) :=
  readings.filter fun delivered => d.installed.any fun i =>
    i.formula.parameters.contains delivered.1

/-- A place needs an identifier if it is among the places that need it. -/
theorem needs_eq_contains (d : Display) (place : Nat) (id : String) :
    d.needs place id = (needing d.installed id).contains place := by
  rw [Bool.eq_iff_iff, List.contains_iff_mem, mem_needing_iff, needs, Option.any_eq_true]
  simp only [List.contains_iff_mem]

/-- A formula is due if it needs one of the identifiers delivered. -/
theorem mem_due_iff_exists {readings : List (String × Reading)} {place : Nat} :
    place ∈ d.due readings ↔ ∃ i, d.installed[place]? = some i ∧
      ∃ delivered ∈ readings, delivered.1 ∈ i.formula.parameters := by
  simp only [mem_due_iff, LiveFormula.exists_receive?_iff, ne_eq, LiveFormula.wanted_eq_nil_iff,
    not_forall, not_not, exists_prop]

/-- Formulas are due at the turn of the first reading that concerns them, and those of one turn
in the order of their installation. -/
theorem pairwise_due (d : Display) (readings : List (String × Reading)) :
    (d.due readings).Pairwise fun place other =>
      d.turn readings place < d.turn readings other ∨
        d.turn readings place = d.turn readings other ∧ place < other := by
  have hturn : ∀ place, d.turn readings place =
      firstRow (readings.map fun delivered => needing d.installed delivered.1) place := by
    intro place
    rw [turn, firstRow, List.findIdx_map]
    simp only [needs_eq_contains, Function.comp_def]
  simp only [hturn]
  rw [due, List.flatMap_def]
  refine pairwise_foldl_appendNew fun row hrow => ?_
  obtain ⟨delivered, -, rfl⟩ := List.mem_map.mp hrow
  exact pairwise_needing d.installed delivered.1

/-! ### Readings that concern nothing -/

/-- A formula wants nothing that does not concern any. -/
theorem wanted_concerning {i : Installed} (hi : i ∈ d.installed)
    (readings : List (String × Reading)) :
    i.formula.wanted (d.concerning readings) = i.formula.wanted readings := by
  rw [LiveFormula.wanted, concerning, List.filter_filter, LiveFormula.wanted]
  refine List.filter_congr fun delivered _ => ?_
  rw [Bool.and_eq_left_iff_imp]
  exact fun hneeded => List.any_eq_true.mpr ⟨i, hi, hneeded⟩

/-- What concerns no formula makes none of them due. -/
theorem due_concerning (d : Display) (readings : List (String × Reading)) :
    d.due (d.concerning readings) = d.due readings := by
  have hrows : ((d.concerning readings).flatMap fun delivered => needing d.installed delivered.1) =
      readings.flatMap fun delivered => needing d.installed delivered.1 := by
    induction readings with
    | nil => rfl
    | cons delivered rest ih =>
        rw [concerning] at ih
        rw [concerning, List.filter_cons]
        split
        · rw [List.flatMap_cons, List.flatMap_cons, ih]
        · next hnone =>
            have hempty : needing d.installed delivered.1 = [] := by
              rw [List.eq_nil_iff_forall_not_mem]
              intro place hplace
              obtain ⟨i, hi, hneeded⟩ := mem_needing_iff.mp hplace
              exact hnone (List.any_eq_true.mpr
                ⟨i, List.mem_of_getElem? hi, List.contains_iff_mem.mpr hneeded⟩)
            rw [List.flatMap_cons, hempty, List.nil_append, ih]
  rw [due, hrows, due]

/-- **Readings that no formula needs make no difference.** -/
theorem deliver_concerning (hd : d.Indexed) (readings : List (String × Reading)) :
    d.deliver (d.concerning readings) = d.deliver readings := by
  have hreceive? : ∀ i ∈ d.installed,
      i.formula.receive? (d.concerning readings) = i.formula.receive? readings := by
    intro i hi
    rw [LiveFormula.receive?, LiveFormula.receive?, wanted_concerning hi]
  have hreports : d.reports (d.concerning readings) = d.reports readings := by
    rw [reports, due_concerning, reports]
    refine List.filterMap_congr fun place hplace => ?_
    obtain ⟨i, hi, -⟩ := mem_due_iff.mp hplace
    rw [report?, report?, hi, Option.bind_some, Option.bind_some,
      hreceive? i (List.mem_of_getElem? hi)]
  have hdisplay : d.mapFormulas (·.receive (d.concerning readings)) =
      d.mapFormulas (·.receive readings) := by
    rw [mapFormulas, mapFormulas]
    congr 1
    refine List.map_congr_left fun i hi => ?_
    rw [LiveFormula.receive, LiveFormula.receive, hreceive? i hi]
  rw [deliver_eq hd, deliver_eq hd, hreports, hdisplay]

/-! ### The whole delivery -/

/-- **What a delivery affects.** The formulas reported are those that need one of the
identifiers delivered. Each is reported once, at the turn of the first reading that concerns it,
and those of one turn in the order of their installation. The value is that of the formula once
it has been told the last reading of each identifier that it needs; without loose symbols, this
is the value after all readings. Readings that no formula needs make no difference. -/
theorem deliver_affected (options : Formula.Options) (operations : List Operation)
    (readings : List (String × Reading)) :
    ∃ affected : List Nat, affected.Nodup ∧
      (∀ place, place ∈ affected ↔
        ∃ i, ((ofOptions options).after operations).installed[place]? = some i ∧
          ∃ delivered ∈ readings, delivered.1 ∈ i.formula.parameters) ∧
      affected.Pairwise (fun place other =>
        ((ofOptions options).after operations).turn readings place <
            ((ofOptions options).after operations).turn readings other ∨
          ((ofOptions options).after operations).turn readings place =
            ((ofOptions options).after operations).turn readings other ∧ place < other) ∧
      List.Forall₂ (fun place told => ∃ f,
          ((ofOptions options).after operations).installed[place]? = some ⟨told.1, f⟩ ∧
          (∃ g, f.Supplied readings g) ∧
          (∀ g, f.Supplied readings g → told.2 = g.execute.result) ∧
          (f.formula.loose = [] → told.2 = (f.updateAll readings).execute.result))
        affected (((ofOptions options).after operations).deliver readings).values ∧
      ((ofOptions options).after operations).deliver
          (((ofOptions options).after operations).concerning readings) =
        ((ofOptions options).after operations).deliver readings := by
  have hd := coherent_after options operations
  refine ⟨((ofOptions options).after operations).due readings, nodup_due _ _,
    fun place => mem_due_iff_exists, pairwise_due _ _, ?_, deliver_concerning hd.indexed readings⟩
  refine (forall₂_due_values hd readings).imp ?_
  rintro place told ⟨f, run, hf, hrun, hvalue⟩
  have hsupplied := f.supplied_updateAll readings
  have hresult : told.2 = (f.updateAll (f.wanted readings)).execute.result := by
    rw [LiveFormula.receive?] at hrun
    split at hrun
    · cases hrun
    · cases hrun
      exact hvalue
  refine ⟨f, hf, ⟨_, hsupplied⟩, fun g hg => ?_, fun hloose => ?_⟩
  · rw [hresult, hsupplied.result_eq hg]
  · rw [hresult, hsupplied.result_of_loose_eq_nil hloose]

end Display

end Dashboard
