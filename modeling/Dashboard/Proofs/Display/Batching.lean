import Dashboard.Proofs.Display.Latest
import Dashboard.Proofs.Display.Names

/-!
# Deliveries in Batches

Readings may be delivered to a simplified display in one batch or in several. The display is the
same in the end: a simplified formula assigns nothing, so evaluating it in between leaves no
trace, and it knows the last reading of each identifier either way.

What is told differs, as a formula that two batches concern is evaluated twice. The one batch
tells of each formula once, where the two first told of it, and with the value that they last
told. In other words, one enters what the first batch told into a table, and then what the second
one told (`told`). The keys are the places of the formulas, as two formulas may have one name; as
long as no names clash, the names will do.

## Main results

* `Table.map_snd_entries_ofList` — a table may be kept under other keys that say the same.
* `LiveFormula.receive?_append` — what a formula without assignments makes of two batches.
* `told_append` — what one batch tells, put together from what two tell.
* `deliver_append` — one batch and two leave the same display, and how they tell of it.
-/

namespace Dashboard

/-! ### Tables of entries -/

namespace Table

variable {κ ν α : Type} [DecidableEq κ] [DecidableEq ν]

/-- An insertion adds its key as a new item. -/
theorem keys_insert_eq_appendNew (t : Table κ α) (k : κ) (v : α) :
    (t.insert k v).keys = Display.appendNew t.keys k := by
  rw [keys_insert, Display.appendNew]
  simp only [List.contains_iff_mem]

/-- The keys of a table are those of its list of entries, each once. -/
theorem keys_ofList (entries : List (κ × α)) :
    (ofList entries).keys = (entries.map Prod.fst).foldl Display.appendNew [] := by
  induction entries using List.reverseRecOn with
  | nil => rfl
  | append_singleton entries e ih =>
      rw [ofList, List.foldl_append, List.map_append, List.foldl_append, ← ih]
      exact keys_insert_eq_appendNew _ _ _

/-- Insertions into a table: what they hold comes first, and then what was there. -/
theorem find?_foldl_insert (t : Table κ α) (entries : List (κ × α)) (k : κ) :
    (entries.foldl (fun t e => t.insert e.1 e.2) t).find? k =
      ((ofList entries).find? k).or (t.find? k) := by
  induction entries using List.reverseRecOn with
  | nil => rfl
  | append_singleton entries e ih =>
      rw [ofList, List.foldl_append, List.foldl_append]
      show (insert _ _ _).find? k = ((insert _ _ _).find? k).or _
      rw [find?_insert, find?_insert, ih]
      split
      · rfl
      · rfl

/-- Of the entries of two tables, those of the second one win. -/
theorem find?_ofList_append (t t' : Table κ α) (k : κ) :
    (ofList (t.entries ++ t'.entries)).find? k = (t'.find? k).or (t.find? k) := by
  have happend : ofList (t.entries ++ t'.entries) =
      t'.entries.foldl (fun t e => t.insert e.1 e.2) (ofList t.entries) := List.foldl_append
  rw [happend, find?_foldl_insert, ofList_entries, ofList_entries]

/-- Entries with the same distinct keys are the same if they look the same. -/
theorem entries_eq_of_lookup {entries other : List (κ × α)}
    (hkeys : entries.map Prod.fst = other.map Prod.fst) (hnodup : (entries.map Prod.fst).Nodup)
    (h : ∀ k, lookup k entries = lookup k other) : entries = other := by
  induction entries generalizing other with
  | nil => exact (List.map_eq_nil_iff.mp hkeys.symm).symm
  | cons e rest ih =>
      obtain ⟨e', rest', rfl, hkey, hrest⟩ := List.map_eq_cons_iff.mp hkeys.symm
      rw [List.map_cons, List.nodup_cons] at hnodup
      obtain ⟨k, v⟩ := e
      obtain ⟨k', v'⟩ := e'
      obtain rfl : k' = k := hkey
      have hvalue := h k'
      rw [lookup, lookup, if_pos rfl, if_pos rfl, Option.some.injEq] at hvalue
      subst hvalue
      refine congrArg _ (ih hrest.symm hnodup.2 fun other => ?_)
      by_cases hother : k' = other
      · subst hother
        rw [lookup_eq_none_iff.mpr hnodup.1, lookup_eq_none_iff.mpr (hrest ▸ hnodup.1)]
      · have hlook := h other
        rwa [lookup, lookup, if_neg hother, if_neg hother] at hlook

/-- Tables with the same keys in the same order are the same if they look the same. -/
theorem ext_find? {t t' : Table κ α} (hkeys : t.keys = t'.keys)
    (h : ∀ k, t.find? k = t'.find? k) : t = t' := by
  have hentries := entries_eq_of_lookup hkeys t.nodup h
  cases t
  cases t'
  congr

/-- Under other keys that tell the entries apart in the same way, the same entry is replaced. -/
theorem map_snd_put {k : κ} {v : ν × α} {entries : List (κ × (ν × α))}
    (h : ∀ e ∈ entries, e.1 = k ↔ e.2.1 = v.1) :
    (put k v entries).map Prod.snd = put v.1 v.2 (entries.map Prod.snd) := by
  induction entries with
  | nil => rfl
  | cons e rest ih =>
      have hrest := ih fun other hother => h other (List.mem_cons_of_mem _ hother)
      have hfirst := h e List.mem_cons_self
      rw [put, List.map_cons, put]
      by_cases hkey : e.1 = k
      · rw [if_pos hkey, if_pos (hfirst.mp hkey), List.map_cons]
      · rw [if_neg hkey, if_neg (mt hfirst.mpr hkey), List.map_cons, hrest]

/-- The entries of the table of a list are entries of the list. -/
theorem mem_entries_ofList {entries : List (κ × α)} {e : κ × α}
    (h : e ∈ (ofList entries).entries) : e ∈ entries := by
  induction entries using List.reverseRecOn with
  | nil => cases h
  | append_singleton entries last ih =>
      rw [ofList, List.foldl_append, mem_entries_iff] at h
      change (insert _ _ _).find? e.1 = some e.2 at h
      rw [find?_insert] at h
      split at h
      · next hkey =>
          have hlast : e = last := Prod.ext hkey.symm (Option.some.inj h).symm
          exact List.mem_append_right _ (List.mem_singleton.mpr hlast)
      · exact List.mem_append_left _ (ih (mem_entries_iff.mpr h))

/-- **A table may be kept under other keys** that tell its entries apart in the same way. -/
theorem map_snd_entries_ofList {entries : List (κ × (ν × α))}
    (h : ∀ e ∈ entries, ∀ other ∈ entries, e.1 = other.1 ↔ e.2.1 = other.2.1) :
    (ofList entries).entries.map Prod.snd = (ofList (entries.map Prod.snd)).entries := by
  induction entries using List.reverseRecOn with
  | nil => rfl
  | append_singleton entries last ih =>
      have hentries := ih fun e he other hother =>
        h e (List.mem_append_left _ he) other (List.mem_append_left _ hother)
      rw [List.map_append, ofList, ofList, List.foldl_append, List.foldl_append]
      show (put _ _ (ofList entries).entries).map Prod.snd =
        put _ _ (ofList (entries.map Prod.snd)).entries
      rw [map_snd_put, hentries]
      intro e he
      exact h e (List.mem_append_left _ (mem_entries_ofList he)) last
        (List.mem_append_right _ (List.mem_singleton_self last))

end Table

/-! ### A formula without assignments -/

namespace LiveFormula

variable {f : LiveFormula}

/-- What a formula wants from two deliveries. -/
theorem wanted_append (f : LiveFormula) (first second : List (String × Reading)) :
    f.wanted (first ++ second) = f.wanted first ++ f.wanted second :=
  List.filter_append ..

/-- A formula is told two deliveries one after the other. -/
theorem updateAll_append (f : LiveFormula) (first second : List (String × Reading)) :
    f.updateAll (first ++ second) = (f.updateAll first).updateAll second :=
  List.foldl_append

/-- A delivery does not change which identifiers a formula needs. -/
@[simp] theorem parameters_receive (f : LiveFormula) (readings : List (String × Reading)) :
    (f.receive readings).parameters = f.parameters := by
  obtain ⟨known, symbols, heq⟩ := f.receive_eq readings
  rw [heq]
  exact parameters_congr rfl rfl

/-- So it wants the same from a second delivery as before the first. -/
theorem wanted_receive (f : LiveFormula) (first second : List (String × Reading)) :
    (f.receive first).wanted second = f.wanted second := by
  rw [wanted, parameters_receive, wanted]

/-- A delivery makes a formula without assignments take note of what it needs, and does nothing
else to it. -/
theorem receive_of_targets (h : ∀ e ∈ f.formula.statements, e.targets = [])
    (readings : List (String × Reading)) :
    f.receive readings = f.updateAll (f.wanted readings) := by
  rw [receive, receive?]
  split
  · next hnothing => rw [hnothing]; rfl
  · obtain ⟨known, heq⟩ := f.updateAll_eq (f.wanted readings)
    have hkept : (f.updateAll (f.wanted readings)).run.formula.symbols =
        (f.updateAll (f.wanted readings)).symbols := by
      refine symbols_run ?_
      rw [heq]
      exact h
    rw [Option.map_some, Option.getD_some, formula_execute, hkept]

/-- A formula that assigns nothing comes to the same from one delivery or two. -/
theorem receive_append (h : ∀ e ∈ f.formula.statements, e.targets = [])
    (first second : List (String × Reading)) :
    f.receive (first ++ second) = (f.receive first).receive second := by
  have hfirst := receive_of_targets h first
  have hkept : ∀ e ∈ (f.receive first).formula.statements, e.targets = [] := by
    obtain ⟨known, symbols, heq⟩ := f.receive_eq first
    rw [heq]
    exact h
  rw [receive_of_targets h, receive_of_targets hkept, wanted_receive, wanted_append,
    updateAll_append, hfirst]

/-- **What a formula without assignments makes of two batches** is what it makes of the second
one after the first one, or of the first one if the second one does not concern it. -/
theorem receive?_append (h : ∀ e ∈ f.formula.statements, e.targets = [])
    (first second : List (String × Reading)) :
    f.receive? (first ++ second) = ((f.receive first).receive? second).or (f.receive? first) := by
  have hsecond : (f.receive first).receive? second =
      if f.wanted second = [] then none
      else some ((f.updateAll (f.wanted first)).updateAll (f.wanted second)).execute := by
    rw [receive?, wanted_receive, receive_of_targets h]
  rw [hsecond, receive?, wanted_append, updateAll_append]
  by_cases hwanted : f.wanted second = []
  · rw [if_pos hwanted, hwanted, List.append_nil, Option.none_or, receive?]
    rfl
  · have hboth : f.wanted first ++ f.wanted second ≠ [] :=
      List.append_ne_nil_of_right_ne_nil _ hwanted
    rw [if_neg hwanted, Option.some_or, if_neg hboth]

end LiveFormula

namespace Display

/-! ### What is told -/

variable {d : Display} {options : Formula.Options} {operations : List Operation}

/-- What a delivery tells, each value with its name, under the place of the formula. -/
def told (d : Display) (readings : List (String × Reading)) : Table Nat (String × Value) :=
  .ofList ((d.due readings).zip (d.deliver readings).values)

/-- The places that are due, beside the values that a delivery gives. -/
theorem map_fst_zip_due (hd : d.Coherent) (readings : List (String × Reading)) :
    ((d.due readings).zip (d.deliver readings).values).map Prod.fst = d.due readings :=
  List.map_fst_zip (Nat.le_of_eq (forall₂_due_values hd readings).length_eq)

/-- What is told about a delivery is the value of each place that is due. -/
theorem entries_told (hd : d.Coherent) (readings : List (String × Reading)) :
    (d.told readings).entries = (d.due readings).zip (d.deliver readings).values := by
  rw [told, Table.ofList, Table.entries_foldl_insert]
  · rfl
  · show (((d.due readings).zip (d.deliver readings).values).map Prod.fst).Nodup
    rw [map_fst_zip_due hd]
    exact nodup_due d readings

/-- The places that are told about are those that are due. -/
theorem keys_told (hd : d.Coherent) (readings : List (String × Reading)) :
    (d.told readings).keys = d.due readings := by
  rw [Table.keys, entries_told hd, map_fst_zip_due hd]

/-- What is told is all that is reported, in order. -/
theorem map_snd_entries_told (hd : d.Coherent) (readings : List (String × Reading)) :
    (d.told readings).entries.map Prod.snd = (d.deliver readings).values := by
  rw [entries_told hd]
  exact List.map_snd_zip (Nat.le_of_eq (forall₂_due_values hd readings).length_eq.symm)

/-- What is told of a formula is what it makes of the delivery. A formula that is not due makes
nothing of it. -/
theorem find?_told (hd : d.Coherent) (readings : List (String × Reading)) (place : Nat) :
    (d.told readings).find? place =
      (d.report? readings place).map fun report => (report.1, report.2.result) := by
  by_cases hdue : place ∈ d.due readings
  · obtain ⟨entry, hentry, rfl⟩ : ∃ e ∈ (d.told readings).entries, e.1 = place := by
      rw [← keys_told hd, Table.keys, List.mem_map] at hdue
      exact hdue
    have hfind : (d.told readings).find? entry.1 = some entry.2 := Table.mem_entries_iff.mp hentry
    rw [entries_told hd] at hentry
    obtain ⟨f, run, hplace, hrun, hvalue⟩ :=
      List.forall₂_zip (forall₂_due_values hd readings) hentry
    rw [hfind, report?, hplace, Option.bind_some, hrun, Option.map_some, Option.map_some, ← hvalue]
  · have hnone : (d.told readings).find? place = none := by
      rw [← Option.not_isSome_iff_eq_none, ← Table.mem_keys_iff, keys_told hd]
      exact hdue
    rw [hnone, eq_comm, Option.map_eq_none_iff, report?]
    cases hplace : d.installed[place]? with
    | none => rfl
    | some i =>
        rw [Option.bind_some, Option.map_eq_none_iff, Option.eq_none_iff_forall_ne_some]
        exact fun run hrun => hdue (mem_due_iff.mpr ⟨i, hplace, run, hrun⟩)

/-! ### Two batches -/

/-- Items might as well be added without their duplicates. -/
theorem foldl_appendNew_foldl_appendNew {α : Type} [BEq α] [LawfulBEq α] (items start : List α) :
    (items.foldl appendNew []).foldl appendNew start = items.foldl appendNew start := by
  induction items using List.reverseRecOn with
  | nil => rfl
  | append_singleton items item ih =>
      rw [List.foldl_append, List.foldl_append, List.foldl_cons, List.foldl_nil, List.foldl_cons,
        List.foldl_nil]
      by_cases hknown : item ∈ items
      · have hadded : ∀ start : List α, item ∈ items.foldl appendNew start :=
          fun _ => mem_foldl_appendNew.mpr (.inr hknown)
        rw [appendNew, if_pos (List.contains_iff_mem.mpr (hadded _)), ih, appendNew,
          if_pos (List.contains_iff_mem.mpr (hadded _))]
      · have hnew : item ∉ items.foldl appendNew [] := by
          rw [mem_foldl_appendNew]
          simpa using hknown
        rw [appendNew, if_neg (mt List.contains_iff_mem.mp hnew), List.foldl_append, ih]
        rfl

/-- Two batches concern the formulas that one of them concerns, in the order in which they come
to concern them. -/
theorem due_append (d : Display) (first second : List (String × Reading)) :
    d.due (first ++ second) = (d.due first ++ d.due second).foldl appendNew [] := by
  rw [due, List.flatMap_append, List.foldl_append, List.foldl_append, due, due,
    foldl_appendNew_foldl_appendNew, foldl_appendNew_foldl_appendNew]

/-- A delivery does not change which places need an identifier. -/
theorem needing_deliver (hd : d.Coherent) (readings : List (String × Reading)) (id : String) :
    needing (d.deliver readings).display.installed id = needing d.installed id := by
  rw [display_deliver hd.indexed]
  exact needing_mapFormulas (fun f => f.parameters_receive readings) id

/-- So the same places are due to a second delivery as before the first. -/
theorem due_deliver (hd : d.Coherent) (first second : List (String × Reading)) :
    (d.deliver first).display.due second = d.due second :=
  due_congr (needing_deliver hd first) second

/-- The formulas of a display assign nothing. -/
def AssignsNothing (d : Display) : Prop :=
  ∀ i ∈ d.installed, ∀ e ∈ i.formula.formula.statements, e.targets = []

/-- Two batches leave the display as one does. -/
theorem display_deliver_append (hd : d.Coherent) (hassigns : d.AssignsNothing)
    (first second : List (String × Reading)) :
    (d.deliver (first ++ second)).display = ((d.deliver first).display.deliver second).display := by
  have hafter : (d.deliver first).display.Coherent := hd.step (.deliver first)
  rw [display_deliver hd.indexed, display_deliver hafter.indexed, display_deliver hd.indexed,
    mapFormulas_mapFormulas, mapFormulas, mapFormulas]
  congr 1
  refine List.map_congr_left fun i hi => ?_
  rw [LiveFormula.receive_append (hassigns i hi)]

/-- **What one batch tells, put together from what two tell.** -/
theorem told_append (hd : d.Coherent) (hassigns : d.AssignsNothing)
    (first second : List (String × Reading)) :
    d.told (first ++ second) =
      .ofList ((d.told first).entries ++ ((d.deliver first).display.told second).entries) := by
  have hafter : (d.deliver first).display.Coherent := hd.step (.deliver first)
  refine Table.ext_find? ?_ fun place => ?_
  · rw [Table.keys_ofList, List.map_append]
    show _ = ((d.told first).keys ++ ((d.deliver first).display.told second).keys).foldl
      appendNew []
    rw [keys_told hd, keys_told hd, keys_told hafter, due_deliver hd, due_append]
  · have hreport : d.report? (first ++ second) place =
        ((d.deliver first).display.report? second place).or (d.report? first place) := by
      rw [report?, report?, report?, display_deliver hd.indexed, mapFormulas, List.getElem?_map]
      cases hplace : d.installed[place]? with
      | none => rfl
      | some i =>
          rw [Option.map_some, Option.bind_some, Option.bind_some, Option.bind_some,
            LiveFormula.receive?_append (hassigns i (List.mem_of_getElem? hplace)), Option.map_or]
    rw [Table.find?_ofList_append, find?_told hd, find?_told hd, find?_told hafter, hreport,
      Option.map_or]

/-- What is told under a place is the name of the formula there, and what it makes of the
delivery. -/
theorem of_mem_told (hd : d.Coherent) {readings : List (String × Reading)}
    {e : Nat × String × Value} (he : e ∈ (d.told readings).entries) :
    ∃ f run, d.installed[e.1]? = some ⟨e.2.1, f⟩ ∧ f.receive? readings = some run ∧
      e.2.2 = run.result := by
  rw [entries_told hd] at he
  exact List.forall₂_zip (forall₂_due_values hd readings) he

/-- A place is told about under its own name. -/
theorem getElem?_names_of_mem_told (hd : d.Coherent) {readings : List (String × Reading)}
    {e : Nat × String × Value} (he : e ∈ (d.told readings).entries) :
    d.names[e.1]? = some e.2.1 := by
  obtain ⟨f, run, hplace, -, -⟩ := of_mem_told hd he
  rw [Display.names, List.getElem?_map, hplace, Option.map_some]

/-- As long as no two formulas have one name, the names will do for the places. -/
theorem values_append (hd : d.Coherent) (hassigns : d.AssignsNothing) (hnames : d.names.Nodup)
    (first second : List (String × Reading)) :
    (d.deliver (first ++ second)).values =
      (Table.ofList ((d.deliver first).values ++
        ((d.deliver first).display.deliver second).values)).entries := by
  have hafter : (d.deliver first).display.Coherent := hd.step (.deliver first)
  have hsame : (d.deliver first).display.names = d.names := by
    rw [display_deliver hd.indexed, names_mapFormulas]
  rw [← map_snd_entries_told hd, told_append hd hassigns, Table.map_snd_entries_ofList,
    List.map_append, map_snd_entries_told hd, map_snd_entries_told hafter]
  have hplaced : ∀ e ∈ (d.told first).entries ++ ((d.deliver first).display.told second).entries,
      d.names[e.1]? = some e.2.1 := by
    intro e he
    rcases List.mem_append.mp he with he | he
    · exact getElem?_names_of_mem_told hd he
    · rw [← hsame]
      exact getElem?_names_of_mem_told hafter he
  intro e he other hother
  have hplace := hplaced e he
  have hbound := (List.getElem?_eq_some_iff.mp hplace).1
  rw [← List.getElem?_inj hbound hnames, hplace, hplaced other hother, Option.some.injEq]

/-! ### Simplified displays -/

/-- Formulas in the simplified dialect assign nothing. -/
theorem assignsNothing_after (hdialect : options.dialect = .simplified)
    (operations : List Operation) : ((ofOptions options).after operations).AssignsNothing := by
  intro i hi
  obtain ⟨place, hplace⟩ := List.mem_iff_getElem?.mp hi
  obtain ⟨⟨source, hsource⟩, -⟩ := simplified_of_getElem? hdialect hplace
  exact LiveFormula.targets_of_simplified hdialect hsource

/-- **Batches make no difference to a simplified display.** One batch leaves it as two do. It
tells of the formulas that one of the two tells of, of each once, in the order in which they
first told of it, and with the value that they last told: this is what a table of all that the
two tell holds, under the places of the formulas or, if no names clash, under their names. -/
theorem deliver_append (hdialect : options.dialect = .simplified)
    (operations : List Operation) (first second : List (String × Reading)) :
    (((ofOptions options).after operations).deliver (first ++ second)).display =
        ((((ofOptions options).after operations).deliver first).display.deliver second).display ∧
    ((ofOptions options).after operations).told (first ++ second) =
        .ofList ((((ofOptions options).after operations).told first).entries ++
          ((((ofOptions options).after operations).deliver first).display.told second).entries) ∧
    (∀ operations readings,
      (((ofOptions options).after operations).told readings).entries.map Prod.snd =
          (((ofOptions options).after operations).deliver readings).values ∧
        ∀ e ∈ (((ofOptions options).after operations).told readings).entries, ∃ f run,
          ((ofOptions options).after operations).installed[e.1]? = some ⟨e.2.1, f⟩ ∧
            f.receive? readings = some run ∧ e.2.2 = run.result) ∧
    (¬ Clash options operations →
      (((ofOptions options).after operations).deliver (first ++ second)).values =
        (Table.ofList ((((ofOptions options).after operations).deliver first).values ++
          ((((ofOptions options).after operations).deliver first).display.deliver
            second).values)).entries) := by
  have hd := coherent_after options operations
  have hassigns := assignsNothing_after hdialect operations
  refine ⟨display_deliver_append hd hassigns first second, told_append hd hassigns first second,
    fun operations readings => ?_, fun hclash => ?_⟩
  · have hd := coherent_after options operations
    exact ⟨map_snd_entries_told hd readings, fun e he => of_mem_told hd he⟩
  · exact values_append hd hassigns (nodup_names_iff.mpr hclash) first second

/-- Two formulas that need the same reading. -/
def gatedOperations : List Operation :=
  [.register "=A", .register "=B ? A : B"]

/-- The batches concern both formulas, in opposite orders. -/
theorem deliver_append_gated :
    (⟨.simplified, 64⟩ : Formula.Options).dialect = .simplified ∧
      ¬ Clash ⟨.simplified, 64⟩ gatedOperations ∧
      (((ofOptions ⟨.simplified, 64⟩).after gatedOperations).deliver
        [("A", ⟨.boolean true, none⟩)]).values =
          [("=A", .boolean true), ("=B ? A : B", .undefined)] ∧
      ((((ofOptions ⟨.simplified, 64⟩).after gatedOperations).deliver
        [("A", ⟨.boolean true, none⟩)]).display.deliver
          [("B", ⟨.boolean true, none⟩), ("A", ⟨.boolean false, none⟩)]).values =
            [("=B ? A : B", .boolean false), ("=A", .boolean false)] ∧
      (((ofOptions ⟨.simplified, 64⟩).after gatedOperations).deliver
        [("A", ⟨.boolean true, none⟩), ("B", ⟨.boolean true, none⟩),
          ("A", ⟨.boolean false, none⟩)]).values =
            [("=A", .boolean false), ("=B ? A : B", .boolean false)] := by
  have hclash : ¬ Clash ⟨.simplified, 64⟩ gatedOperations := by
    refine not_clash_of_isFormulaName fun name hname => ?_
    simp only [gatedOperations, List.mem_cons, Operation.register.injEq, List.not_mem_nil,
      or_false] at hname
    rcases hname with rfl | rfl
    · rfl
    · rfl
  have hplain : Formula.ofSource ⟨.simplified, 64⟩ (sourceOfName "=A") =
      .ok ⟨.simplified, [.symbol "A"]⟩ := by
    have htokens : Formula.tokenize (sourceOfName "=A") = .ok [⟨.name "A", ⟨0, 1⟩⟩] := by cbv
    exact Formula.ofSource_of_tokenize htokens rfl
  have hgated : Formula.ofSource ⟨.simplified, 64⟩ (sourceOfName "=B ? A : B") =
      .ok ⟨.simplified, [.conditional (.symbol "B") (.symbol "A") (some (.symbol "B"))]⟩ := by
    have htokens : Formula.tokenize (sourceOfName "=B ? A : B") =
        .ok [⟨.name "B", ⟨0, 1⟩⟩, ⟨.question, ⟨2, 3⟩⟩, ⟨.name "A", ⟨4, 5⟩⟩, ⟨.colon, ⟨6, 7⟩⟩,
          ⟨.name "B", ⟨8, 9⟩⟩] := by cbv
    exact Formula.ofSource_of_tokenize htokens rfl
  have hfirst : (ofOptions ⟨.simplified, 64⟩).step (.register "=A") = _ :=
    step_of_ofSource hplain rfl rfl rfl
  have hsimplified : (⟨.simplified, 64⟩ : Formula.Options).dialect = .simplified := rfl
  obtain ⟨-, -, -, hvalues⟩ := deliver_append hsimplified gatedOperations
    [("A", ⟨.boolean true, none⟩)] [("B", ⟨.boolean true, none⟩), ("A", ⟨.boolean false, none⟩)]
  have htwo : (((ofOptions ⟨.simplified, 64⟩).after gatedOperations).deliver
        [("A", ⟨.boolean true, none⟩)]).values =
          [("=A", .boolean true), ("=B ? A : B", .undefined)] ∧
      ((((ofOptions ⟨.simplified, 64⟩).after gatedOperations).deliver
        [("A", ⟨.boolean true, none⟩)]).display.deliver
          [("B", ⟨.boolean true, none⟩), ("A", ⟨.boolean false, none⟩)]).values =
            [("=B ? A : B", .boolean false), ("=A", .boolean false)] := by
    rw [gatedOperations, after, List.foldl_cons, List.foldl_cons, List.foldl_nil, hfirst,
      step_of_ofSource hgated ?_ rfl ?_]
    · exact ⟨rfl, rfl⟩
    · rfl
    · rfl
  refine ⟨hsimplified, hclash, htwo.1, htwo.2, (hvalues hclash).trans ?_⟩
  rw [htwo.1, htwo.2]
  rfl

end Display

end Dashboard
