import Dashboard.Proofs.Feed.Run
import Dashboard.Records
import Mathlib.Data.List.Induction
import Mathlib.Data.List.Nodup
import Mathlib.Data.List.Permutation

/-!
# The View of a Feed

What a host sees of a feed is its snapshot. This module says what a snapshot is without
speaking of how it is computed. Under `byId` it has one entry for each key that is held
anywhere: the entry that was entered last (`latest?`), dated by its order key and, among
equal order keys, by the number of the first slot of its key (`firstNumber?`). Under
`append` it is a rearrangement of all slots.

The merge is described by what a look-up by key finds in it (`find?_merged`): the number
comes from the first slot of the key and the entry from the last one. The order of the view
is strict because no number is held twice, and this is the only fact about runs that is
needed.

## Main results

* `find?_merged` — what the merge of a list of slots holds for a key.
* `pairwise_newer_mergeSort` — slots with distinct numbers are sorted strictly.
* `snapshot_of_reachable` — the contents and the order of a snapshot, under both policies.
-/

namespace Dashboard

namespace Feed

variable {α η κ ω : Type} [Entry α κ ω]

/-! ### Looking up a key -/

section Key

variable [DecidableEq κ]

/-- Whether a slot holds an entry of a key. -/
def holds (k : κ) (s : Slot α) : Bool :=
  decide (Entry.key s.entry = k)

/-- The entry that counts for a key: the last realtime entry, or else the last archived
one. -/
def latest? (f : Feed α η) (k : κ) : Option α :=
  ((f.realtime.findRev? (holds k)).or (f.archive.findRev? (holds k))).map Slot.entry

/-- The number of the first slot of a key, archived slots looked at first. -/
def firstNumber? (f : Feed α η) (k : κ) : Option Nat :=
  ((f.archive ++ f.realtime).find? (holds k)).map Slot.number

/-- A slot holds the key of its entry. -/
@[simp] theorem holds_iff {k : κ} {s : Slot α} : holds k s = true ↔ Entry.key s.entry = k := by
  simp [holds]

/-- Where every key is held once, a look-up by key finds everything. -/
theorem find?_eq_some_iff_of_nodup {β : Type} {key : β → κ} {items : List β}
    (hnodup : (items.map key).Nodup) {k : κ} {b : β} :
    items.find? (fun b => decide (key b = k)) = some b ↔ b ∈ items ∧ key b = k := by
  constructor
  · intro h
    have hkey := List.find?_some h
    exact ⟨List.mem_of_find?_eq_some h, of_decide_eq_true hkey⟩
  · rintro ⟨hmem, hkey⟩
    have hsome : (items.find? fun b => decide (key b = k)).isSome := by
      rw [List.find?_isSome]
      exact ⟨b, hmem, decide_eq_true hkey⟩
    obtain ⟨found, hfound⟩ := Option.isSome_iff_exists.mp hsome
    have hkey' := List.find?_some hfound
    rw [decide_eq_true_eq] at hkey'
    have hsame : found = b :=
      List.inj_on_of_nodup_map hnodup (List.mem_of_find?_eq_some hfound) hmem
        (hkey'.trans hkey.symm)
    rw [hfound, hsame]

/-- The last slot of a key in both stores together is that of the second one, if it has
any. -/
theorem findRev?_append (k : κ) (first second : List (Slot α)) :
    (first ++ second).findRev? (holds k) =
      (second.findRev? (holds k)).or (first.findRev? (holds k)) := by
  rw [List.findRev?_eq_find?_reverse, List.findRev?_eq_find?_reverse,
    List.findRev?_eq_find?_reverse, List.reverse_append, List.find?_append]

/-! ### Placing one slot -/

/-- Placing a slot changes what is found for its key and for no other: the entry is the new
one, and the number stays if the key had one. -/
theorem find?_place (slots : List (Slot α)) (s : Slot α) (k : κ) :
    (place slots s).find? (holds k) =
      if Entry.key s.entry = k then
        some ⟨((slots.find? (holds k)).map Slot.number).getD s.number, s.entry⟩
      else slots.find? (holds k) := by
  induction slots with
  | nil => by_cases h : Entry.key s.entry = k <;> simp [place, holds, h]
  | cons t rest ih =>
      rw [place]
      by_cases hts : Entry.key t.entry = Entry.key s.entry
      · rw [if_pos hts]
        by_cases h : Entry.key s.entry = k
        · simp [holds, h, hts.trans h]
        · simp [holds, h, hts]
      · rw [if_neg hts, List.find?_cons, ih]
        by_cases ht : Entry.key t.entry = k
        · have hs : Entry.key s.entry ≠ k := fun hs => hts (ht.trans hs.symm)
          simp [holds, ht, hs]
        · simp [holds, ht]

/-- Placing a slot adds its key at the end unless it is there already. -/
theorem map_key_place (slots : List (Slot α)) (s : Slot α) :
    (place slots s).map (fun t => Entry.key t.entry) =
      if Entry.key s.entry ∈ slots.map (fun t => Entry.key t.entry) then
        slots.map fun t => Entry.key t.entry
      else slots.map (fun t => Entry.key t.entry) ++ [Entry.key s.entry] := by
  induction slots with
  | nil => simp [place]
  | cons t rest ih =>
      rw [place]
      by_cases hts : Entry.key t.entry = Entry.key s.entry
      · simp [hts]
      · rw [if_neg hts]
        simp only [List.map_cons, ih, List.mem_cons, Ne.symm hts, false_or]
        split
        · rfl
        · rfl

/-! ### The merge -/

/-- A further slot is placed in what has been merged so far. -/
theorem merged_append_singleton (slots : List (Slot α)) (s : Slot α) :
    merged (slots ++ [s]) = place (merged slots) s := by
  rw [merged, List.foldl_append]
  rfl

/-- **What the merge holds for a key**: the number of its first slot and the entry of its last one.
A new slot is the last one of its key, and the first one if there was none. -/
theorem find?_merged (slots : List (Slot α)) (k : κ) :
    (merged slots).find? (holds k) =
      (slots.find? (holds k)).bind fun first =>
        (slots.findRev? (holds k)).map fun last => ⟨first.number, last.entry⟩ := by
  induction slots using List.reverseRecOn with
  | nil => rfl
  | append_singleton slots s ih =>
      rw [merged_append_singleton, find?_place, ih, List.find?_append, findRev?_append]
      by_cases h : Entry.key s.entry = k
      · have hlast : [s].findRev? (holds k) = some s := by simp [holds, h]
        rw [if_pos h, hlast]
        cases hfirst : slots.find? (holds k) with
        | none => simp [holds, h]
        | some first =>
            have hsome : (slots.findRev? (holds k)).isSome := by
              have hmem := List.mem_of_find?_eq_some hfirst
              have hkey := List.find?_some hfirst
              rw [List.findRev?_eq_find?_reverse, List.find?_isSome]
              exact ⟨first, List.mem_reverse.mpr hmem, hkey⟩
            obtain ⟨last, hold⟩ := Option.isSome_iff_exists.mp hsome
            rw [hold]
            rfl
      · simp [holds, h]

/-- The merge holds every key once. -/
theorem nodup_map_key_merged (slots : List (Slot α)) :
    ((merged slots).map fun t => Entry.key t.entry).Nodup := by
  induction slots using List.reverseRecOn with
  | nil => exact List.nodup_nil
  | append_singleton slots s ih =>
      rw [merged_append_singleton, map_key_place]
      split
      · exact ih
      · next hnew =>
        exact List.nodup_append.mpr ⟨ih, List.nodup_singleton _, fun a ha b hb hab => hnew (by
          rw [List.mem_singleton] at hb
          exact hb ▸ hab ▸ ha)⟩

/-- A look-up by key finds every slot of the merge. -/
theorem find?_merged_of_mem {slots : List (Slot α)} {t : Slot α} (h : t ∈ merged slots) :
    (merged slots).find? (holds (Entry.key t.entry)) = some t :=
  (find?_eq_some_iff_of_nodup (nodup_map_key_merged slots)).mpr ⟨h, rfl⟩

/-- A slot of the merge has the number of the first slot of its key and the entry of the
last one. -/
theorem exists_of_mem_merged {slots : List (Slot α)} {t : Slot α} (h : t ∈ merged slots) :
    ∃ first last, slots.find? (holds (Entry.key t.entry)) = some first ∧
      slots.findRev? (holds (Entry.key t.entry)) = some last ∧
      t.number = first.number ∧ t.entry = last.entry := by
  have hfind := find?_merged_of_mem h
  rw [find?_merged, Option.bind_eq_some_iff] at hfind
  obtain ⟨first, hfirst, hfind⟩ := hfind
  obtain ⟨last, hlast, rfl⟩ := Option.map_eq_some_iff.mp hfind
  exact ⟨first, last, hfirst, hlast, rfl, rfl⟩

/-- The merge holds exactly the keys of the slots that were merged. -/
theorem exists_mem_merged_iff {slots : List (Slot α)} {k : κ} :
    (∃ t ∈ merged slots, Entry.key t.entry = k) ↔ ∃ s ∈ slots, Entry.key s.entry = k := by
  constructor
  · rintro ⟨t, ht, rfl⟩
    obtain ⟨first, -, hfirst, -⟩ := exists_of_mem_merged ht
    exact ⟨first, List.mem_of_find?_eq_some hfirst, holds_iff.mp (List.find?_some hfirst)⟩
  · rintro ⟨s, hs, hk⟩
    have hfirst : (slots.find? (holds k)).isSome := by
      rw [List.find?_isSome]
      exact ⟨s, hs, holds_iff.mpr hk⟩
    have hlast : (slots.findRev? (holds k)).isSome := by
      rw [List.findRev?_eq_find?_reverse, List.find?_isSome]
      exact ⟨s, List.mem_reverse.mpr hs, holds_iff.mpr hk⟩
    obtain ⟨first, hfirst⟩ := Option.isSome_iff_exists.mp hfirst
    obtain ⟨last, hlast⟩ := Option.isSome_iff_exists.mp hlast
    have hfind := find?_merged slots k
    rw [hfirst, hlast, Option.bind_some, Option.map_some] at hfind
    exact ⟨_, List.mem_of_find?_eq_some hfind, holds_iff.mp (List.find?_some hfind)⟩

/-- If no number is held twice, none is held twice in the merge. -/
theorem nodup_map_number_merged {slots : List (Slot α)}
    (h : (slots.map Slot.number).Nodup) : ((merged slots).map Slot.number).Nodup := by
  have hkeys := nodup_map_key_merged slots
  rw [List.nodup_iff_pairwise_ne, List.pairwise_map] at hkeys ⊢
  refine hkeys.imp_of_mem ?_
  intro t u ht hu hne hnum
  obtain ⟨first, -, hfirst, -, htn, -⟩ := exists_of_mem_merged ht
  obtain ⟨first', -, hfirst', -, hun, -⟩ := exists_of_mem_merged hu
  have hsame : first = first' :=
    List.inj_on_of_nodup_map h (List.mem_of_find?_eq_some hfirst)
      (List.mem_of_find?_eq_some hfirst') (by omega)
  have hk := holds_iff.mp (List.find?_some hfirst)
  have hk' := holds_iff.mp (List.find?_some hfirst')
  exact hne (by rw [← hk, ← hk', hsame])

/-! ### The slots of the view -/

/-- The view of a feed that keeps one entry for each key. -/
theorem slots_of_byId {f : Feed α η} (h : f.sizing.policy = .byId) :
    f.slots = merged (f.archive ++ f.realtime) := by
  rw [slots, h]

/-- The view of a feed that keeps all entries. -/
theorem slots_of_append {f : Feed α η} (h : f.sizing.policy = .append) :
    f.slots = f.archive ++ f.realtime := by
  rw [slots, h]

/-- A slot of the view holds the entry that counts for its key. -/
theorem latest?_of_mem_slots {f : Feed α η} (h : f.sizing.policy = .byId) {t : Slot α}
    (ht : t ∈ f.slots) : f.latest? (Entry.key t.entry) = some t.entry := by
  rw [slots_of_byId h] at ht
  obtain ⟨-, last, -, hlast, -, hentry⟩ := exists_of_mem_merged ht
  rw [findRev?_append] at hlast
  rw [latest?, hlast, Option.map_some, hentry]

/-- A slot of the view has the number of the first slot of its key. -/
theorem firstNumber?_of_mem_slots {f : Feed α η} (h : f.sizing.policy = .byId) {t : Slot α}
    (ht : t ∈ f.slots) : f.firstNumber? (Entry.key t.entry) = some t.number := by
  rw [slots_of_byId h] at ht
  obtain ⟨first, -, hfirst, -, hnumber, -⟩ := exists_of_mem_merged ht
  rw [firstNumber?, hfirst, Option.map_some, hnumber]

end Key

/-! ### The order of the view -/

section Order

variable [Ord ω]

/-- A slot stands **strictly before** another one in a view: it has the greater order key,
or the same order key and the greater number. -/
def Newer (s t : Slot α) : Prop :=
  compare (Entry.order s.entry) (Entry.order t.entry) = .gt ∨
    compare (Entry.order s.entry) (Entry.order t.entry) = .eq ∧ t.number < s.number

/-- The test that the view is sorted by, as a proposition. -/
theorem newerFirst_iff {s t : Slot α} :
    newerFirst s t = true ↔
      compare (Entry.order s.entry) (Entry.order t.entry) = .gt ∨
        compare (Entry.order s.entry) (Entry.order t.entry) = .eq ∧ t.number ≤ s.number := by
  rw [newerFirst]
  cases compare (Entry.order s.entry) (Entry.order t.entry) <;> simp

/-- Between slots with different numbers the test is strict. -/
theorem newer_of_newerFirst {s t : Slot α} (h : newerFirst s t = true)
    (hne : s.number ≠ t.number) : Newer s t := by
  rcases newerFirst_iff.mp h with hgt | ⟨heq, hle⟩
  · exact .inl hgt
  · exact .inr ⟨heq, by omega⟩

variable [Std.TransOrd ω]

/-- The order of slots is transitive. -/
theorem newerFirst_trans {s t u : Slot α} (hst : newerFirst s t = true)
    (htu : newerFirst t u = true) : newerFirst s u = true := by
  rw [newerFirst_iff] at hst htu ⊢
  rcases hst with hst | ⟨hst, hle⟩
  · rcases htu with htu | ⟨htu, -⟩
    · exact .inl (Std.TransCmp.gt_trans hst htu)
    · exact .inl (Std.TransCmp.gt_of_gt_of_eq hst htu)
  · rcases htu with htu | ⟨htu, hle'⟩
    · exact .inl (Std.TransCmp.gt_of_eq_of_gt hst htu)
    · exact .inr ⟨Std.TransCmp.eq_trans hst htu, by omega⟩

/-- Any two slots are in this order. -/
theorem newerFirst_total (s t : Slot α) : (newerFirst s t || newerFirst t s) = true := by
  rw [Bool.or_eq_true, newerFirst_iff, newerFirst_iff]
  cases h : compare (Entry.order s.entry) (Entry.order t.entry) with
  | lt => exact .inr (.inl (Std.OrientedCmp.gt_of_lt h))
  | gt => exact .inl (.inl rfl)
  | eq =>
      have hsymm := Std.OrientedCmp.eq_symm h
      rcases Nat.le_total t.number s.number with hle | hle
      · exact .inl (.inr ⟨rfl, hle⟩)
      · exact .inr (.inr ⟨hsymm, hle⟩)

/-- Slots are sorted by the test of the view, whatever their numbers are. -/
theorem pairwise_newerFirst_mergeSort (slots : List (Slot α)) :
    (slots.mergeSort newerFirst).Pairwise fun s t => newerFirst s t = true := by
  refine List.pairwise_mergeSort ?_ newerFirst_total slots
  intro s t u hst htu
  exact newerFirst_trans hst htu

/-- **Slots with distinct numbers are sorted strictly.** -/
theorem pairwise_newer_mergeSort {slots : List (Slot α)} (h : (slots.map Slot.number).Nodup) :
    (slots.mergeSort newerFirst).Pairwise Newer := by
  have hsorted := pairwise_newerFirst_mergeSort slots
  have hdistinct : (slots.mergeSort newerFirst).Pairwise fun s t => s.number ≠ t.number := by
    have hperm := (List.mergeSort_perm slots newerFirst).map Slot.number
    exact List.pairwise_map.mp (List.nodup_iff_pairwise_ne.mp (hperm.nodup_iff.mpr h))
  exact (hsorted.and hdistinct).imp fun ⟨hst, hne⟩ => newer_of_newerFirst hst hne

end Order

/-! ### Snapshots -/

section Snapshot

variable [DecidableEq κ] [Ord ω]

/-- An entry is in a snapshot if its slot is in the view. -/
theorem mem_snapshot_iff {f : Feed α η} {e : α} :
    e ∈ f.snapshot ↔ ∃ s ∈ f.slots, s.entry = e := by
  simp only [snapshot, List.mem_map, List.mem_mergeSort]

/-- The keys of a snapshot are those of the view. -/
theorem map_key_snapshot_perm (f : Feed α η) :
    (f.snapshot.map Entry.key).Perm (f.slots.map fun t => Entry.key t.entry) := by
  have hperm := (List.mergeSort_perm f.slots newerFirst).map fun t : Slot α => Entry.key t.entry
  rw [snapshot, List.map_map]
  exact hperm

variable [Std.TransOrd ω]

/-- **What a snapshot is**, in every feed that a host can arrive at. Under `byId` it has
exactly one entry for each key in either store, namely the last realtime entry of the key or
else the last archived one; it is sorted by descending order key, and entries with equal
order keys by the descending number of the first slot of their key. Under `append` it is a
rearrangement of all slots, sorted by descending order key and number. -/
theorem snapshot_of_reachable {f : Feed α η} (h : f.Reachable) :
    (f.sizing.policy = .byId →
      (f.snapshot.map Entry.key).Nodup ∧
      (∀ k, k ∈ f.snapshot.map Entry.key ↔
        ∃ s ∈ f.archive ++ f.realtime, Entry.key s.entry = k) ∧
      (∀ e ∈ f.snapshot, f.latest? (Entry.key e) = some e) ∧
      f.snapshot.Pairwise fun a b =>
        compare (Entry.order a) (Entry.order b) = .gt ∨
          compare (Entry.order a) (Entry.order b) = .eq ∧
            ∃ m n, f.firstNumber? (Entry.key a) = some m ∧
              f.firstNumber? (Entry.key b) = some n ∧ n < m) ∧
    (f.sizing.policy = .append →
      ∃ slots : List (Slot α), slots.Perm (f.archive ++ f.realtime) ∧ slots.Pairwise Newer ∧
        f.snapshot = slots.map Slot.entry) := by
  have hnodup := h.numbered.nodup
  refine ⟨fun hpolicy => ⟨?_, ?_, ?_, ?_⟩, fun hpolicy => ?_⟩
  · rw [(map_key_snapshot_perm f).nodup_iff, slots_of_byId hpolicy]
    exact nodup_map_key_merged _
  · intro k
    rw [(map_key_snapshot_perm f).mem_iff, slots_of_byId hpolicy, List.mem_map]
    exact exists_mem_merged_iff
  · intro e he
    obtain ⟨s, hs, rfl⟩ := mem_snapshot_iff.mp he
    exact latest?_of_mem_slots hpolicy hs
  · have hslots : (f.slots.map Slot.number).Nodup := by
      rw [slots_of_byId hpolicy]
      exact nodup_map_number_merged hnodup
    rw [snapshot, List.pairwise_map]
    refine (pairwise_newer_mergeSort hslots).imp_of_mem ?_
    intro s t hs ht hst
    rw [List.mem_mergeSort] at hs ht
    rcases hst with hgt | ⟨heq, hlt⟩
    · exact .inl hgt
    · exact .inr ⟨heq, s.number, t.number, firstNumber?_of_mem_slots hpolicy hs,
        firstNumber?_of_mem_slots hpolicy ht, hlt⟩
  · have hslots : (f.slots.map Slot.number).Nodup := by
      rw [slots_of_append hpolicy]
      exact hnodup
    refine ⟨f.slots.mergeSort newerFirst, ?_, pairwise_newer_mergeSort hslots, rfl⟩
    exact slots_of_append hpolicy ▸ List.mergeSort_perm f.slots newerFirst

end Snapshot

end Feed

/-! ### A run with ties -/

instance : Std.TransOrd Instant :=
  inferInstanceAs (Std.TransCmp (compareLex (compareOn Instant.seconds) (compareOn Instant.nanos)))

namespace Feed

/-- An activity that begins a number of seconds after 1970. -/
def activityAt (id : String) (seconds : Int) (status : String) : Activity :=
  ⟨id, ⟨seconds, 0⟩, "", status, ""⟩

/-- A new feed for at most three realtime entries. -/
def forThree : Feed Activity Unit where
  sizing := ⟨3, 2, .byId⟩
  archive := []
  realtime := []
  nextNumber := 0
  watermarkReached := false
  handler := none
  dirty := false
  dropped := 0
  overflowTold := false
  compactLimit := defaultCompactLimit

/-- A feed after a run with a key twice in one page, a key in both stores, two realtime
entries of one key, an archived page after them, and entries of the same time. -/
def tied : Feed Activity Unit :=
  (forThree.run [
    .archive [activityAt "a" 5 "planned", activityAt "b" 5 "planned", activityAt "a" 4 "moved"],
    .realtime (activityAt "b" 5 "running"), .realtime (activityAt "c" 5 "running"),
    .realtime (activityAt "c" 5 "done"), .archive [activityAt "b" 9 "stale"]]).1

/-- In that feed the key that was entered later stands in front of its tie, and the realtime
entry of a key counts although an archived one came in after it. -/
theorem snapshot_tied :
    tied.Reachable ∧ tied.sizing.policy = .byId ∧
      tied.snapshot =
        [activityAt "c" 5 "done", activityAt "b" 5 "running", activityAt "a" 4 "moved"] ∧
      (tied.snapshot.map Entry.key).Nodup ∧
      (∀ e ∈ tied.snapshot, tied.latest? (Entry.key e) = some e) := by
  have hnew : ofSizing ⟨3, 2, .byId⟩ = .ok forThree := rfl
  have hreach : tied.Reachable := (Reachable.ofSizing hnew).run _
  obtain ⟨hnodup, -, hlatest, -⟩ := (snapshot_of_reachable hreach).1 rfl
  exact ⟨hreach, rfl, by cbv, hnodup, hlatest⟩

end Feed

end Dashboard
