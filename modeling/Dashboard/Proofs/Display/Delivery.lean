import Dashboard.Display
import Mathlib.Data.List.Basic

/-!
# Deliveries

A delivery goes to the formulas of a display through an index: the triggers say at which
places the formulas stand that need an identifier. If the index is right, what happens is
what would happen without it: every formula takes note of the readings that it needs, and is
evaluated once if there were any (`LiveFormula.receive?`). No formula sees anything of the
others.

So a delivery comes to one equation (`deliver_eq`). The display after it has its formulas
changed one by one, all in the same way, and the values are those of the formulas concerned,
in the order in which the readings came to concern them.

## Main results

* `hand_eq` — a reading goes to exactly the formulas that need its identifier.
* `foldl_executeAt` — the formulas that are due are evaluated independently of each other.
* `deliver_eq` — a delivery is what the formulas make of it, one by one.
* `mem_due_iff` — a formula is due if it makes something of the delivery.
-/

namespace Dashboard

/-! ### A formula by itself -/

namespace LiveFormula

/-- The readings among those delivered that the formula needs. -/
def wanted (f : LiveFormula) (readings : List (String × Reading)) : List (String × Reading) :=
  readings.filter fun delivered => f.parameters.contains delivered.1

/-- Takes note of readings, one after the other. -/
def updateAll (f : LiveFormula) (readings : List (String × Reading)) : LiveFormula :=
  readings.foldl (fun f delivered => f.update delivered.1 delivered.2) f

/-- What a formula makes of a delivery by itself: it takes note of the readings that it
needs, and is evaluated once if there are any. -/
def receive? (f : LiveFormula) (readings : List (String × Reading)) : Option (Run Value) :=
  if f.wanted readings = [] then none else some (f.updateAll (f.wanted readings)).execute

/-- The formula after a delivery. -/
def receive (f : LiveFormula) (readings : List (String × Reading)) : LiveFormula :=
  ((f.receive? readings).map Run.formula).getD f

/-- Takes note of a reading if it is needed. -/
def hear (f : LiveFormula) (id : String) (reading : Reading) : LiveFormula :=
  if f.parameters.contains id then f.update id reading else f

variable {f g : LiveFormula}

/-- What a formula needs depends on its text and its mappings only. -/
theorem parameters_congr (hformula : g.formula = f.formula)
    (hpaths : g.bindings.pathNames = f.bindings.pathNames) : g.parameters = f.parameters := by
  have hresolve : ∀ path, g.bindings.resolve? path = f.bindings.resolve? path := by
    intro path
    rw [Bindings.resolve?, Bindings.resolve?, hpaths]
  rw [parameters, parameters, hformula, Formula.parameters_eq_of_resolve? hresolve]

/-- A reading does not change which identifiers a formula needs. -/
@[simp] theorem parameters_update (f : LiveFormula) (id : String) (reading : Reading) :
    (f.update id reading).parameters = f.parameters :=
  parameters_congr rfl rfl

/-- Neither does taking note of a reading if it is needed. -/
@[simp] theorem parameters_hear (f : LiveFormula) (id : String) (reading : Reading) :
    (f.hear id reading).parameters = f.parameters := by
  rw [hear]
  split
  · exact parameters_update f id reading
  · rfl

/-- Taking note of readings changes nothing but the readings. -/
theorem updateAll_eq (f : LiveFormula) (readings : List (String × Reading)) :
    ∃ known, f.updateAll readings =
      { f with bindings := { f.bindings with readings := known } } := by
  induction readings generalizing f with
  | nil => exact ⟨f.bindings.readings, rfl⟩
  | cons delivered rest ih => exact ih (f.update delivered.1 delivered.2)

/-- What a formula makes of a delivery changes neither its text nor its mappings. -/
theorem receive_eq (f : LiveFormula) (readings : List (String × Reading)) :
    ∃ known symbols, f.receive readings =
      { f with bindings := { f.bindings with readings := known }, symbols } := by
  rw [receive, receive?]
  split
  · exact ⟨f.bindings.readings, f.symbols, rfl⟩
  · obtain ⟨known, heq⟩ := f.updateAll_eq (f.wanted readings)
    refine ⟨known, (f.updateAll (f.wanted readings)).run.formula.symbols, ?_⟩
    show (f.updateAll (f.wanted readings)).execute.formula = _
    rw [formula_execute, heq]

/-- Hearing readings is taking note of those that are needed. -/
theorem foldl_hear (f : LiveFormula) (readings : List (String × Reading)) :
    readings.foldl (fun f delivered => f.hear delivered.1 delivered.2) f =
      f.updateAll (f.wanted readings) := by
  induction readings generalizing f with
  | nil => rfl
  | cons delivered rest ih =>
      have hrest : (f.hear delivered.1 delivered.2).wanted rest = f.wanted rest := by
        rw [wanted, wanted, parameters_hear]
      rw [List.foldl_cons, ih, hrest, hear, wanted, wanted, List.filter_cons]
      split
      · rfl
      · rfl

/-- A formula makes something of a delivery if it needs any of the readings. -/
theorem exists_receive?_iff {readings : List (String × Reading)} :
    (∃ run, f.receive? readings = some run) ↔ f.wanted readings ≠ [] := by
  rw [receive?]
  split
  · next hnothing => simp [hnothing]
  · next hwanted => simp [hwanted]

/-- A formula wants nothing from a delivery just if none of its identifiers is in it. -/
theorem wanted_eq_nil_iff {readings : List (String × Reading)} :
    f.wanted readings = [] ↔ ∀ delivered ∈ readings, delivered.1 ∉ f.parameters := by
  simp [wanted, List.filter_eq_nil_iff]

end LiveFormula

namespace Display

/-! ### Places -/

section Lists

variable {α : Type}

/-- Changes at distinct places, one after the other, are changes at each of them. -/
theorem foldl_modify {places : List Nat} (h : places.Nodup) (change : α → α) (items : List α) :
    places.foldl (fun items place => items.modify place change) items =
      items.mapIdx fun place item => if place ∈ places then change item else item := by
  induction places generalizing items with
  | nil =>
      refine List.ext_getElem? fun i => ?_
      simp
  | cons place rest ih =>
      obtain ⟨hnew, hrest⟩ := List.nodup_cons.mp h
      rw [List.foldl_cons, ih hrest]
      refine List.ext_getElem? fun i => ?_
      rw [List.getElem?_mapIdx, List.getElem?_mapIdx, List.getElem?_modify]
      cases items[i]? with
      | none => rfl
      | some item =>
          by_cases hplace : place = i
          · subst hplace
            simp [hnew]
          · simp [hplace, Ne.symm hplace]

variable [BEq α] [LawfulBEq α]

/-- A new item is added, and no other. -/
theorem mem_appendNew {items : List α} {item other : α} :
    other ∈ appendNew items item ↔ other ∈ items ∨ other = item := by
  rw [appendNew]
  split
  · next hknown =>
      rw [List.contains_iff_mem] at hknown
      constructor
      · exact .inl
      · rintro (hother | rfl)
        · exact hother
        · exact hknown
  · rw [List.mem_append, List.mem_singleton]

/-- Distinct items stay distinct. -/
theorem nodup_appendNew {items : List α} (h : items.Nodup) (item : α) :
    (appendNew items item).Nodup := by
  rw [appendNew]
  split
  · exact h
  · next hnew =>
      rw [List.contains_iff_mem] at hnew
      rw [List.nodup_append]
      refine ⟨h, by simp, ?_⟩
      intro other hother last hlast heq
      rw [List.mem_singleton] at hlast
      exact hnew (hlast ▸ heq ▸ hother)

/-- All new items are added, and no others. -/
theorem mem_foldl_appendNew {items : List α} {start : List α} {other : α} :
    other ∈ items.foldl appendNew start ↔ other ∈ start ∨ other ∈ items := by
  induction items generalizing start with
  | nil => simp
  | cons item rest ih => rw [List.foldl_cons, ih, mem_appendNew, List.mem_cons, or_assoc]

/-- Distinct items stay distinct, however many are added. -/
theorem nodup_foldl_appendNew {items : List α} {start : List α} (h : start.Nodup) :
    (items.foldl appendNew start).Nodup := by
  induction items generalizing start with
  | nil => exact h
  | cons item rest ih => exact ih (nodup_appendNew h item)

end Lists

/-- The places of the formulas that need an identifier, in ascending order. -/
def needing (installed : List Installed) (id : String) : List Nat :=
  (installed.zipIdx.filter fun e => e.1.formula.parameters.contains id).map Prod.snd

/-- The places that need an identifier are those of the formulas that have it as a parameter. -/
theorem mem_needing_iff {installed : List Installed} {id : String} {place : Nat} :
    place ∈ needing installed id ↔
      ∃ i, installed[place]? = some i ∧ id ∈ i.formula.parameters := by
  simp only [needing, List.mem_map, List.mem_filter, List.contains_iff_mem]
  constructor
  · rintro ⟨⟨i, place'⟩, ⟨hmem, hid⟩, rfl⟩
    exact ⟨i, List.mem_zipIdx_iff_getElem?.mp hmem, hid⟩
  · rintro ⟨i, hi, hid⟩
    exact ⟨(i, place), ⟨List.mem_zipIdx_iff_getElem?.mpr hi, hid⟩, rfl⟩

/-- They come in the order of installation. -/
theorem pairwise_needing (installed : List Installed) (id : String) :
    (needing installed id).Pairwise (· < ·) := by
  have hall : (installed.zipIdx.map Prod.snd).Pairwise (· < ·) := by
    rw [List.zipIdx_map_snd]
    exact List.pairwise_lt_range'
  exact hall.sublist (List.filter_sublist.map _)

/-- No place needs an identifier twice. -/
theorem nodup_needing (installed : List Installed) (id : String) :
    (needing installed id).Nodup :=
  (pairwise_needing installed id).imp Nat.ne_of_lt

/-! ### Handing out readings -/

variable {d : Display}

/-- The display with all of its formulas changed in the same way. -/
def mapFormulas (d : Display) (change : LiveFormula → LiveFormula) : Display :=
  { d with installed := d.installed.map fun i => { i with formula := change i.formula } }

/-- The places of the formulas that a reading of an identifier triggers. -/
def triggered (d : Display) (id : String) : List Nat :=
  (d.triggers.find? id).getD []

/-- **The index is right**: an identifier triggers the formulas that need it. -/
def Indexed (d : Display) : Prop :=
  ∀ id, d.triggered id = needing d.installed id

/-- Formulas that are not changed are left as they are. -/
@[simp] theorem mapFormulas_id (d : Display) : d.mapFormulas (fun f => f) = d := by
  simp [mapFormulas]

/-- Two changes of all formulas are one. -/
theorem mapFormulas_mapFormulas (d : Display) (change change' : LiveFormula → LiveFormula) :
    (d.mapFormulas change).mapFormulas change' = d.mapFormulas fun f => change' (change f) := by
  simp [mapFormulas]

/-- A change that keeps what every formula needs keeps the places that need an identifier. -/
theorem needing_mapFormulas {change : LiveFormula → LiveFormula}
    (h : ∀ f, (change f).parameters = f.parameters) (id : String) :
    needing (d.mapFormulas change).installed id = needing d.installed id := by
  rw [needing, mapFormulas, List.zipIdx_map, List.filter_map, List.map_map, needing]
  simp only [Function.comp_def, Prod.map, h]
  rfl

/-- Such a change keeps the index right. -/
theorem Indexed.mapFormulas (hd : d.Indexed) {change : LiveFormula → LiveFormula}
    (h : ∀ f, (change f).parameters = f.parameters) : (d.mapFormulas change).Indexed := by
  intro id
  rw [needing_mapFormulas h id]
  exact hd id

/-- Changes of formulas at distinct places, one after the other. -/
theorem foldl_modifyAt {places : List Nat} (h : places.Nodup)
    (change : LiveFormula → LiveFormula) (d : Display) :
    places.foldl (fun d place => d.modifyAt place change) d =
      { d with installed := d.installed.mapIdx fun place i =>
          if place ∈ places then { i with formula := change i.formula } else i } := by
  rw [← foldl_modify h]
  clear h
  induction places generalizing d with
  | nil => rfl
  | cons place rest ih => exact ih (d.modifyAt place change)

/-- Changes at some places, after a change of all formulas, are a change of all formulas if
the formulas tell the places apart. -/
theorem foldl_modifyAt_mapFormulas {places : List Nat} (h : places.Nodup)
    (first change both : LiveFormula → LiveFormula)
    (hplaces : ∀ place i, d.installed[place]? = some i → both i.formula =
      if place ∈ places then change (first i.formula) else first i.formula) :
    places.foldl (fun d place => d.modifyAt place change) (d.mapFormulas first) =
      d.mapFormulas both := by
  rw [foldl_modifyAt h, mapFormulas, mapFormulas, Display.mk.injEq]
  refine ⟨rfl, rfl, List.ext_getElem? fun place => ?_, rfl, rfl, rfl, rfl⟩
  rw [List.getElem?_mapIdx, List.getElem?_map, List.getElem?_map]
  cases hi : d.installed[place]? with
  | none => rfl
  | some i =>
      rw [Option.map_some, Option.map_some, Option.map_some, hplaces place i hi]
      split
      · rfl
      · rfl

/-- **A reading goes to exactly the formulas that need its identifier.** -/
theorem hand_eq (hd : d.Indexed) (due : List Nat) (id : String) (reading : Reading) :
    hand (d, due) (id, reading) =
      (d.mapFormulas (·.hear id reading), (needing d.installed id).foldl appendNew due) := by
  have hpair : ∀ (places due : List Nat) (d : Display),
      places.foldl (fun (state : Display × List Nat) place =>
        (state.1.modifyAt place (·.update id reading), appendNew state.2 place)) (d, due) =
      (places.foldl (fun d place => d.modifyAt place (·.update id reading)) d,
        places.foldl appendNew due) := by
    intro places
    induction places with
    | nil => exact fun _ _ => rfl
    | cons place rest ih => exact fun due d => ih _ _
  have hchange : ∀ place i, d.installed[place]? = some i → i.formula.hear id reading =
      if place ∈ needing d.installed id then i.formula.update id reading else i.formula := by
    intro place i hi
    have hneeds : place ∈ needing d.installed id ↔ i.formula.parameters.contains id := by
      rw [mem_needing_iff, hi, List.contains_iff_mem]
      simp
    rw [LiveFormula.hear]
    simp only [hneeds]
  rw [← foldl_modifyAt_mapFormulas (nodup_needing _ _) (fun f => f) (·.update id reading) _
    hchange, mapFormulas_id, ← hpair, ← hd id]
  rfl

/-- **Readings go to the formulas that need them**, and the formulas that are due are those
that need any, in the order in which the readings came to concern them. -/
theorem foldl_hand_eq (hd : d.Indexed) (due : List Nat) (readings : List (String × Reading)) :
    readings.foldl hand (d, due) =
      (d.mapFormulas fun f => f.updateAll (f.wanted readings),
        (readings.flatMap fun delivered => needing d.installed delivered.1).foldl appendNew
          due) := by
  have hheard : ∀ f : LiveFormula, f.updateAll (f.wanted readings) =
      readings.foldl (fun f delivered => f.hear delivered.1 delivered.2) f :=
    fun f => (f.foldl_hear readings).symm
  simp only [hheard]
  clear hheard
  induction readings generalizing d due with
  | nil => exact congrArg (·, due) (mapFormulas_id d).symm
  | cons delivered rest ih =>
      have hkeeps := fun f => LiveFormula.parameters_hear f delivered.1 delivered.2
      rw [List.foldl_cons, hand_eq hd, ih (hd.mapFormulas hkeeps), mapFormulas_mapFormulas,
        List.flatMap_cons, List.foldl_append]
      simp only [needing_mapFormulas hkeeps, List.foldl_cons]

/-! ### Evaluation -/

/-- What the evaluation of the formula at a place gives, with the name of the formula. -/
def evaluate? (d : Display) (place : Nat) : Option (String × LiveFormula.Run Value) :=
  d.installed[place]?.map fun i => (i.name, i.formula.execute)

/-- A change of one formula is not seen at any other place. -/
theorem evaluate?_modifyAt {place other : Nat} (h : other ≠ place) (d : Display)
    (change : LiveFormula → LiveFormula) :
    (d.modifyAt place change).evaluate? other = d.evaluate? other := by
  rw [evaluate?, modifyAt, List.getElem?_modify, evaluate?]
  simp [Ne.symm h]

/-- What changes a formula at a place may look at the formula there. -/
theorem modifyAt_of_getElem? {place : Nat} {i : Installed} (h : d.installed[place]? = some i)
    (change : LiveFormula → LiveFormula) :
    d.modifyAt place (fun _ => change i.formula) = d.modifyAt place change := by
  rw [modifyAt, modifyAt, Display.mk.injEq]
  refine ⟨rfl, rfl, List.ext_getElem? fun other => ?_, rfl, rfl, rfl, rfl⟩
  rw [List.getElem?_modify, List.getElem?_modify]
  by_cases hplace : place = other
  · rw [← hplace, h]
    rfl
  · simp [hplace]

/-- **The formulas that are due are evaluated independently of each other.** -/
theorem foldl_executeAt {due : List Nat} (hdue : due.Nodup)
    (hinstalled : ∀ place ∈ due, place < d.size) (values : List (String × Value))
    (log : List Notice) :
    due.foldl executeAt ⟨values, d, log⟩ =
      { values := values ++ (due.filterMap d.evaluate?).map fun told => (told.1, told.2.result)
        display := due.foldl (fun d place => d.modifyAt place fun f => f.execute.formula) d
        log := log ++ (due.filterMap d.evaluate?).flatMap fun told => told.2.log } := by
  induction due generalizing d values log with
  | nil => simp
  | cons place rest ih =>
      obtain ⟨hnew, hrest⟩ := List.nodup_cons.mp hdue
      have hplace : place < d.installed.length := hinstalled place List.mem_cons_self
      obtain ⟨i, hi⟩ : ∃ i, d.installed[place]? = some i := ⟨_, List.getElem?_eq_getElem hplace⟩
      have htold : rest.filterMap (d.modifyAt place fun f => f.execute.formula).evaluate? =
          rest.filterMap d.evaluate? := by
        refine List.filterMap_congr fun other hother => evaluate?_modifyAt ?_ d _
        rintro rfl
        exact hnew hother
      have hstep : executeAt ⟨values, d, log⟩ place =
          ⟨values ++ [(i.name, i.formula.execute.result)],
            d.modifyAt place fun f => f.execute.formula, log ++ i.formula.execute.log⟩ := by
        rw [← modifyAt_of_getElem? hi fun f => f.execute.formula, executeAt, hi]
      have hevaluate : d.evaluate? place = some (i.name, i.formula.execute) := by
        rw [evaluate?, hi, Option.map_some]
      have hsize : ∀ other ∈ rest,
          other < (d.modifyAt place fun f => f.execute.formula).size := by
        intro other hother
        rw [size, modifyAt, List.length_modify]
        exact hinstalled other (List.mem_cons_of_mem _ hother)
      rw [List.foldl_cons, hstep, ih hrest hsize, htold, List.foldl_cons,
        List.filterMap_cons_some hevaluate, List.map_cons, List.flatMap_cons,
        List.append_assoc, List.append_assoc]
      rfl

/-! ### The whole delivery -/

/-- The places of the formulas that a delivery concerns, in the order in which its readings
come to concern them. -/
def due (d : Display) (readings : List (String × Reading)) : List Nat :=
  (readings.flatMap fun delivered => needing d.installed delivered.1).foldl appendNew []

/-- What the formula at a place makes of a delivery by itself, with its name. -/
def report? (d : Display) (readings : List (String × Reading)) (place : Nat) :
    Option (String × LiveFormula.Run Value) :=
  d.installed[place]?.bind fun i => (i.formula.receive? readings).map (i.name, ·)

/-- What the formulas that are due make of a delivery by themselves. -/
def reports (d : Display) (readings : List (String × Reading)) :
    List (String × LiveFormula.Run Value) :=
  (d.due readings).filterMap (d.report? readings)

/-- No place is due twice. -/
theorem nodup_due (d : Display) (readings : List (String × Reading)) :
    (d.due readings).Nodup :=
  nodup_foldl_appendNew List.nodup_nil

/-- Which formulas are due is a matter of what they need. -/
theorem due_congr {e : Display} (h : ∀ id, needing e.installed id = needing d.installed id)
    (readings : List (String × Reading)) : e.due readings = d.due readings := by
  rw [due, due]
  simp only [h]

/-- **A formula is due if it makes something of the delivery.** -/
theorem mem_due_iff {readings : List (String × Reading)} {place : Nat} :
    place ∈ d.due readings ↔
      ∃ i, d.installed[place]? = some i ∧ ∃ run, i.formula.receive? readings = some run := by
  simp only [LiveFormula.exists_receive?_iff]
  rw [due, mem_foldl_appendNew]
  simp only [List.not_mem_nil, false_or, List.mem_flatMap, mem_needing_iff, ne_eq,
    LiveFormula.wanted_eq_nil_iff, not_forall, not_not, exists_prop]
  constructor
  · rintro ⟨delivered, hmem, i, hi, hid⟩
    exact ⟨i, hi, delivered, hmem, hid⟩
  · rintro ⟨i, hi, delivered, hmem, hid⟩
    exact ⟨delivered, hmem, i, hi, hid⟩

/-- **A delivery is what the formulas make of it, one by one.** -/
theorem deliver_eq (hd : d.Indexed) (readings : List (String × Reading)) :
    d.deliver readings =
      { values := (d.reports readings).map fun told => (told.1, told.2.result)
        display := d.mapFormulas (·.receive readings)
        log := (d.reports readings).flatMap fun told => told.2.log } := by
  have hsize : ∀ place ∈ d.due readings,
      place < (d.mapFormulas fun f => f.updateAll (f.wanted readings)).size := by
    intro place hplace
    obtain ⟨i, hi, -⟩ := mem_due_iff.mp hplace
    rw [size, mapFormulas, List.length_map]
    exact (List.getElem?_eq_some_iff.mp hi).1
  have hreports : (d.due readings).filterMap
      (d.mapFormulas fun f => f.updateAll (f.wanted readings)).evaluate? = d.reports readings := by
    refine List.filterMap_congr fun place hplace => ?_
    obtain ⟨i, hi, hreceive⟩ := mem_due_iff.mp hplace
    have hwanted := LiveFormula.exists_receive?_iff.mp hreceive
    rw [evaluate?, mapFormulas, List.getElem?_map, report?, hi, Option.bind_some,
      LiveFormula.receive?, if_neg hwanted]
    rfl
  have hdisplay : (d.due readings).foldl
      (fun d place => d.modifyAt place fun f => f.execute.formula)
      (d.mapFormulas fun f => f.updateAll (f.wanted readings)) =
      d.mapFormulas (·.receive readings) := by
    refine foldl_modifyAt_mapFormulas (d.nodup_due readings) _ _ _ fun place i hi => ?_
    have hdue : place ∈ d.due readings ↔ i.formula.wanted readings ≠ [] := by
      rw [mem_due_iff, hi, ← LiveFormula.exists_receive?_iff]
      simp
    rw [LiveFormula.receive, LiveFormula.receive?]
    by_cases hwanted : i.formula.wanted readings = []
    · rw [if_pos hwanted, if_neg (mt hdue.mp (not_not_intro hwanted)), hwanted]
      rfl
    · rw [if_neg hwanted, if_pos (hdue.mpr hwanted)]
      rfl
  rw [deliver, foldl_hand_eq hd]
  show (d.due readings).foldl executeAt ⟨[], _, []⟩ = _
  rw [foldl_executeAt (d.nodup_due readings) hsize, hreports, hdisplay, List.nil_append,
    List.nil_append]

/-- A delivery changes the formulas of a display one by one. -/
theorem display_deliver (hd : d.Indexed) (readings : List (String × Reading)) :
    (d.deliver readings).display = d.mapFormulas (·.receive readings) :=
  congrArg Delivered.display (deliver_eq hd readings)

end Display

end Dashboard
