import Dashboard.Proofs.Feed.Confluence

/-!
# Compaction

Compaction takes the newest entries of the view, empties the feed and enters them again as
one archived page, the oldest first. This module says what is the same afterwards and what
is not.

The view is the same, up to the limit. The reversed view has its entries in ascending order,
and the page numbers them in that order, so an entry that stood before another one of the
same order key has the greater number again. Nothing is merged a second time, because the
view holds every key once.

What a later page can do is not the same. What has been compacted is archived, whatever it
was before, and of two archived entries of a key the later one counts. So a page that comes
in after a compaction replaces an entry that it could not have replaced before, namely one
that was realtime.

## Main results

* `mergeSort_slotsFrom` — entries that are numbered oldest first are sorted by turning them
  around.
* `snapshot_compact` — compaction keeps the newest entries in their order.
* `lookup?_run_archiveAll`, `lookup?_compact_run_archiveAll` — which entry counts for a key
  after some pages, and which if the feed was compacted before them.
* `compactionUnseen_iff` — when that makes no difference.
-/

namespace Dashboard

namespace Feed

variable {α η κ ω : Type}

/-! ### The slots of a page -/

/-- The slots of some entries, numbered from a number on. -/
def slotsFrom (first : Nat) (entries : List α) : List (Slot α) :=
  entries.mapIdx fun i entry => ⟨first + i, entry⟩

/-- There are as many slots as entries. -/
@[simp] theorem length_slotsFrom (first : Nat) (entries : List α) :
    (slotsFrom first entries).length = entries.length :=
  List.length_mapIdx

/-- The slots hold the entries in their order. -/
@[simp] theorem map_entry_slotsFrom (first : Nat) (entries : List α) :
    (slotsFrom first entries).map Slot.entry = entries := by
  refine List.ext_getElem (by simp) ?_
  intro i _ _
  simp only [slotsFrom, List.getElem_map, List.getElem_mapIdx]

/-- Of two slots of a page, the later one has the greater number and the later entry. -/
theorem pairwise_slotsFrom {r : α → α → Prop} {entries : List α} (h : entries.Pairwise r)
    (first : Nat) :
    (slotsFrom first entries).Pairwise fun s t => s.number < t.number ∧ r s.entry t.entry := by
  rw [List.pairwise_iff_getElem] at h ⊢
  intro i j hi hj hij
  rw [length_slotsFrom] at hi hj
  simp only [slotsFrom, List.getElem_mapIdx]
  exact ⟨by omega, h i j hi hj hij⟩

variable [Entry α κ ω]

/-! ### Sorting what was sorted -/

section Sorting

variable [Ord ω] [Std.TransOrd ω]

/-- No two slots stand before each other. -/
theorem Newer.asymm {s t : Slot α} (hst : Newer s t) (hts : Newer t s) : False := by
  rcases hst with hst | ⟨hst, hlt⟩
  · have hts' := Std.OrientedCmp.lt_of_gt hst
    rcases hts with hts | ⟨hts, -⟩
    · rw [hts'] at hts
      cases hts
    · rw [hts'] at hts
      cases hts
  · have hts' := Std.OrientedCmp.eq_symm hst
    rcases hts with hts | ⟨-, hlt'⟩
    · rw [hts'] at hts
      cases hts
    · omega

/-- **Entries that are numbered oldest first are sorted by turning them around.** -/
theorem mergeSort_slotsFrom {entries : List α} (h : NewestFirst entries) (first : Nat) :
    (slotsFrom first entries.reverse).mergeSort newerFirst =
      (slotsFrom first entries.reverse).reverse := by
  have holdest : entries.reverse.Pairwise fun a b =>
      compare (Entry.order b) (Entry.order a) ≠ .lt := List.pairwise_reverse.mpr h
  have hslots := pairwise_slotsFrom holdest first
  have hnumbers : ((slotsFrom first entries.reverse).map Slot.number).Nodup := by
    rw [List.nodup_iff_pairwise_ne, List.pairwise_map]
    exact hslots.imp fun hst => Nat.ne_of_lt hst.1
  have hnewest : (slotsFrom first entries.reverse).reverse.Pairwise Newer := by
    rw [List.pairwise_reverse]
    refine hslots.imp ?_
    rintro s t ⟨hlt, hne⟩
    cases hcompare : compare (Entry.order t.entry) (Entry.order s.entry) with
    | lt => exact absurd hcompare hne
    | gt => exact .inl hcompare
    | eq => exact .inr ⟨hcompare, hlt⟩
  have hperm := (List.mergeSort_perm (slotsFrom first entries.reverse) newerFirst).trans
    (List.reverse_perm _).symm
  refine List.Perm.eq_of_pairwise ?_ (pairwise_newer_mergeSort hnumbers) hnewest hperm
  intro s t _ _ hst hts
  exact (hst.asymm hts).elim

end Sorting

/-! ### Merging what was merged -/

/-- The keys of some slots are those of their entries. -/
theorem map_key_map_entry (slots : List (Slot α)) :
    (slots.map Slot.entry).map Entry.key = slots.map fun s => Entry.key s.entry :=
  List.map_map

section Merge

variable [DecidableEq κ]

/-- A slot of a new key is placed at the end. -/
theorem place_of_not_mem {slots : List (Slot α)} {s : Slot α}
    (h : ∀ t ∈ slots, Entry.key t.entry ≠ Entry.key s.entry) : place slots s = slots ++ [s] := by
  induction slots with
  | nil => rfl
  | cons t rest ih =>
      obtain ⟨ht, hrest⟩ := List.forall_mem_cons.mp h
      rw [place, if_neg ht, ih hrest, List.cons_append]

/-- Slots that hold every key once are not changed by merging. -/
theorem merged_of_nodup {slots : List (Slot α)}
    (h : (slots.map fun s => Entry.key s.entry).Nodup) : merged slots = slots := by
  induction slots using List.reverseRecOn with
  | nil => rfl
  | append_singleton slots s ih =>
      rw [List.map_append, List.nodup_append] at h
      obtain ⟨hslots, -, hapart⟩ := h
      rw [merged_append_singleton, ih hslots]
      refine place_of_not_mem ?_
      intro t ht
      exact hapart _ (List.mem_map_of_mem ht) _ (List.mem_singleton.mpr rfl)

end Merge

/-! ### The view after compaction -/

section View

variable [DecidableEq κ] [Ord ω]

/-- What compaction keeps becomes the archive, oldest first. -/
theorem archive_compact (f : Feed α η) (limit : Nat) :
    (f.compact limit).archive = slotsFrom f.nextNumber (f.snapshot.take limit).reverse := rfl

/-- The view of a compacted feed is its archive. -/
theorem slots_compact (f : Feed α η) (limit : Nat) :
    (f.compact limit).slots = (f.compact limit).archive := by
  have hall : (f.compact limit).archive ++ (f.compact limit).realtime =
      (f.compact limit).archive := List.append_nil _
  cases hpolicy : f.sizing.policy with
  | append =>
      have hpolicy' : (f.compact limit).sizing.policy = .append := hpolicy
      rw [slots_of_append hpolicy', hall]
  | byId =>
      have hpolicy' : (f.compact limit).sizing.policy = .byId := hpolicy
      rw [slots_of_byId hpolicy', hall]
      refine merged_of_nodup ?_
      have hkeys : (f.compact limit).archive.map (fun s => Entry.key s.entry) =
          ((f.snapshot.take limit).reverse).map Entry.key := by
        rw [archive_compact, ← map_key_map_entry, map_entry_slotsFrom]
      rw [hkeys, List.map_reverse, List.nodup_reverse]
      exact (nodup_key_snapshot hpolicy).sublist ((List.take_sublist _ _).map _)

variable [Std.TransOrd ω]

/-- **The view after compaction is the front of the view before**, ties included. -/
theorem snapshot_compact (f : Feed α η) (limit : Nat) :
    (f.compact limit).snapshot = f.snapshot.take limit := by
  have hkept : NewestFirst (f.snapshot.take limit) :=
    (newestFirst_snapshot f).sublist (List.take_sublist _ _)
  rw [snapshot, slots_compact, archive_compact, mergeSort_slotsFrom hkept, List.map_reverse,
    map_entry_slotsFrom, List.reverse_reverse]

/-- **Compaction keeps exactly the newest entries**, in the order in which they stood. It
leaves no realtime entry, nothing counts as dropped, and the watermark is to be reached anew,
with the same handler and the same sizing. -/
theorem compact_keeps_newest (f : Feed α η) (limit : Nat) :
    (f.compact limit).snapshot = f.snapshot.take (min limit f.snapshot.length) ∧
      (f.compact limit).archive.length = min limit f.snapshot.length ∧
      (f.compact limit).realtime.length = 0 ∧ (f.compact limit).dropped = 0 ∧
      (f.compact limit).watermarkReached = false ∧
      (f.compact limit).handler = f.handler ∧ (f.compact limit).sizing = f.sizing := by
  refine ⟨?_, ?_, rfl, rfl, rfl, rfl, rfl⟩
  · rw [snapshot_compact, List.take_eq_take_min]
  · rw [archive_compact, length_slotsFrom, List.length_reverse, List.length_take]

end View

/-- Of two activities of the same time, the one that stood in front is still there after a
compaction, although the page has it behind the other one. -/
theorem snapshot_compact_tied :
    (tied.compact 2).snapshot = [activityAt "c" 5 "done", activityAt "b" 5 "running"] ∧
      (tied.compact 2).archive.length = 2 ∧ (tied.compact 2).watermarkReached = false := by
  obtain ⟨hsnapshot, hlength, -, -, hmark, -⟩ := compact_keeps_newest tied 2
  have htied : tied.snapshot =
      [activityAt "c" 5 "done", activityAt "b" 5 "running", activityAt "a" 4 "moved"] := by cbv
  rw [htied] at hsnapshot hlength
  exact ⟨hsnapshot, hlength, hmark⟩

/-! ### The entry of a key -/

section Lookup

variable [DecidableEq κ]

/-- The last of some entries that is one of a key. -/
def lastOf? (k : κ) (entries : List α) : Option α :=
  entries.findRev? fun e => decide (Entry.key e = k)

/-- The last entry of a key in two lists is that of the second list, if it has one. -/
theorem lastOf?_append (k : κ) (first second : List α) :
    lastOf? k (first ++ second) = (lastOf? k second).or (lastOf? k first) := by
  rw [lastOf?, lastOf?, lastOf?, List.findRev?_eq_find?_reverse, List.findRev?_eq_find?_reverse,
    List.findRev?_eq_find?_reverse, List.reverse_append, List.find?_append]

/-- The last entry of a key is one of the entries, and is of the key. -/
theorem mem_of_lastOf? {k : κ} {entries : List α} {e : α} (h : lastOf? k entries = some e) :
    e ∈ entries ∧ Entry.key e = k := by
  rw [lastOf?, List.findRev?_eq_find?_reverse] at h
  have hkey := List.find?_some h
  exact ⟨List.mem_reverse.mp (List.mem_of_find?_eq_some h), of_decide_eq_true hkey⟩

/-- The last slot of a key has the last entry of the key. -/
theorem map_entry_findRev? (k : κ) (slots : List (Slot α)) :
    (slots.findRev? (holds k)).map Slot.entry = lastOf? k (slots.map Slot.entry) := by
  rw [lastOf?, List.findRev?_eq_find?_reverse, List.findRev?_eq_find?_reverse, ← List.map_reverse,
    List.find?_map]
  rfl

/-- What counts for a key is the last realtime entry, or else the last archived one. -/
theorem latest?_eq (f : Feed α η) (k : κ) :
    f.latest? k =
      (lastOf? k (f.realtime.map Slot.entry)).or (lastOf? k (f.archive.map Slot.entry)) := by
  rw [latest?, ← map_entry_findRev?, ← map_entry_findRev?, Option.map_or]

variable [Ord ω]

/-- The entry that a host sees for a key. -/
def lookup? (f : Feed α η) (k : κ) : Option α :=
  f.snapshot.find? fun e => decide (Entry.key e = k)

/-- What a host sees for a key is what counts for it. -/
theorem lookup?_eq_latest? {f : Feed α η} (h : f.sizing.policy = .byId) (k : κ) :
    f.lookup? k = f.latest? k := by
  have hslots : (f.slots.map Slot.entry).find? (fun e => decide (Entry.key e = k)) =
      (f.slots.find? (holds k)).map Slot.entry := List.find?_map
  rw [lookup?, find?_key_eq_of_perm (snapshot_perm f) (nodup_key_snapshot h), hslots,
    slots_of_byId h, find?_merged, latest?, ← findRev?_append]
  cases hfirst : (f.archive ++ f.realtime).find? (holds k) with
  | none =>
      have hlast : (f.archive ++ f.realtime).findRev? (holds k) = none := by
        rw [List.findRev?_eq_find?_reverse, List.find?_eq_none]
        intro s hs
        exact List.find?_eq_none.mp hfirst s (List.mem_reverse.mp hs)
      rw [hlast]
      rfl
  | some first =>
      rw [Option.bind_some, Option.map_map]
      rfl

/-! ### Pages after a compaction -/

/-- The operations that enter some pages. -/
def archiveAll (pages : List (List α)) : List (Operation α η) :=
  pages.map .archive

/-- Pages alone interleave with no realtime entries. -/
theorem interleaves_archiveAll (pages : List (List α)) :
    Interleaves (η := η) pages [] (archiveAll pages) := by
  induction pages with
  | nil => exact .nil
  | cons page rest ih => exact .archive page ih

/-- **What counts for a key after some pages**: the last realtime entry, or else the last
entry of the pages, or else the last one that was archived before. -/
theorem lookup?_run_archiveAll {f : Feed α η} (h : f.sizing.policy = .byId)
    (pages : List (List α)) (k : κ) :
    (f.run (archiveAll pages)).1.lookup? k =
      (lastOf? k (f.realtime.map Slot.entry)).or
        ((lastOf? k pages.flatten).or (lastOf? k (f.archive.map Slot.entry))) := by
  have hpages := interleaves_archiveAll (η := η) pages
  obtain ⟨hintake, -⟩ := hpages.intake_run (f := f) (g := f) rfl
  have hsizing : (f.run (archiveAll pages)).1.sizing = f.sizing := congrArg Intake.sizing hintake
  have hrealtime : (f.run (archiveAll pages)).1.realtime.map Slot.entry =
      f.realtime.map Slot.entry := congrArg Intake.entries hintake
  have hpolicy : (f.run (archiveAll pages)).1.sizing.policy = .byId := by rw [hsizing, h]
  rw [lookup?_eq_latest? hpolicy, latest?_eq, hrealtime, hpages.archive_run f, lastOf?_append]

/-- **What counts for a key after a compaction that keeps everything, and some pages**: the
last entry of the pages, or else what counted before. -/
theorem lookup?_compact_run_archiveAll {f : Feed α η} (h : f.sizing.policy = .byId)
    {limit : Nat} (hlimit : f.snapshot.length ≤ limit) (pages : List (List α)) (k : κ) :
    ((f.compact limit).run (archiveAll pages)).1.lookup? k =
      (lastOf? k pages.flatten).or (f.lookup? k) := by
  have hpolicy : (f.compact limit).sizing.policy = .byId := h
  have hkept : lastOf? k ((f.compact limit).archive.map Slot.entry) = f.lookup? k := by
    rw [archive_compact, map_entry_slotsFrom, List.take_of_length_le hlimit, lastOf?,
      List.findRev?_eq_find?_reverse, List.reverse_reverse, lookup?]
  have hnone : lastOf? k ((f.compact limit).realtime.map Slot.entry) = none := rfl
  rw [lookup?_run_archiveAll hpolicy, hkept, hnone, Option.none_or]

/-- Whether a compaction makes no difference to what counts for a key after some pages. -/
def CompactionUnseen (f : Feed α η) (limit : Nat) (pages : List (List α)) : Prop :=
  ∀ k, ((f.compact limit).run (archiveAll pages)).1.lookup? k =
    (f.run (archiveAll pages)).1.lookup? k

/-- **What a compaction gives up.** Let a compaction keep everything, and let pages come in
after it. Then the last entry of the pages counts for its key, and what counted before the
compaction counts for the other keys. Without the compaction a realtime entry would have
counted in the first place. So the compaction is not seen exactly if the pages end with the
same entry for every key that had a realtime one, or have none for it. -/
theorem compactionUnseen_iff {f : Feed α η} (h : f.sizing.policy = .byId) {limit : Nat}
    (hlimit : f.snapshot.length ≤ limit) (pages : List (List α)) :
    (∀ k, ((f.compact limit).run (archiveAll pages)).1.lookup? k =
      (lastOf? k pages.flatten).or (f.lookup? k)) ∧
    (∀ k, (f.run (archiveAll pages)).1.lookup? k =
      (lastOf? k (f.realtime.map Slot.entry)).or
        ((lastOf? k pages.flatten).or (f.lookup? k))) ∧
    (f.CompactionUnseen limit pages ↔
      ∀ k live stale, lastOf? k (f.realtime.map Slot.entry) = some live →
        lastOf? k pages.flatten = some stale → stale = live) := by
  have hcompacted := lookup?_compact_run_archiveAll h hlimit pages
  have hbefore : ∀ k, f.lookup? k =
      (lastOf? k (f.realtime.map Slot.entry)).or (lastOf? k (f.archive.map Slot.entry)) := by
    intro k
    rw [lookup?_eq_latest? h, latest?_eq]
  have hplain : ∀ k, (f.run (archiveAll pages)).1.lookup? k =
      (lastOf? k (f.realtime.map Slot.entry)).or
        ((lastOf? k pages.flatten).or (f.lookup? k)) := by
    intro k
    rw [lookup?_run_archiveAll h, hbefore]
    cases lastOf? k (f.realtime.map Slot.entry) with
    | none => rfl
    | some live => rfl
  refine ⟨hcompacted, hplain, ?_⟩
  constructor
  · intro hunseen k live stale hlive hstale
    have hsame := hunseen k
    rw [hcompacted, hplain, hlive, hstale, Option.some_or, Option.some_or] at hsame
    exact Option.some.inj hsame
  · intro hpages k
    rw [hcompacted, hplain, hbefore]
    cases hlive : lastOf? k (f.realtime.map Slot.entry) with
    | none => rfl
    | some live =>
        cases hstale : lastOf? k pages.flatten with
        | none => rfl
        | some stale =>
            obtain rfl := hpages k live stale hlive hstale
            rfl

end Lookup

/-! ### A page with an old entry -/

/-- A feed with a page of two planned activities and the end of one of them. -/
def half : Feed Activity Unit :=
  (forThree.run [.archive [activityAt "a" 5 "planned", activityAt "b" 5 "planned"],
    .realtime (activityAt "b" 7 "done")]).1

/-- A compaction of that feed is not seen after a page with another entry of `a`, which counts for
`a` in any case. The only key with a realtime entry is `b`, and the page has none of it. -/
theorem compactionUnseen_half :
    half.Reachable ∧ half.sizing.policy = .byId ∧ half.snapshot.length ≤ 2 ∧
      half.CompactionUnseen 2 [[activityAt "a" 6 "moved", activityAt "c" 5 "planned"]] ∧
      ((half.compact 2).run (archiveAll [[activityAt "a" 6 "moved",
        activityAt "c" 5 "planned"]])).1.lookup? "b" = some (activityAt "b" 7 "done") := by
  have hnew : ofSizing ⟨3, 2, .byId⟩ = .ok forThree := rfl
  have hreach : half.Reachable := (Reachable.ofSizing hnew).run _
  have hlength : half.snapshot.length ≤ 2 := by cbv
  obtain ⟨hcompacted, -, hunseen⟩ := compactionUnseen_iff (f := half) rfl hlength
    [[activityAt "a" 6 "moved", activityAt "c" 5 "planned"]]
  refine ⟨hreach, rfl, hlength, hunseen.mpr ?_, ?_⟩
  · intro k live stale hlive hstale
    obtain ⟨hmem, rfl⟩ := mem_of_lastOf? hlive
    obtain rfl : live = activityAt "b" 7 "done" := List.mem_singleton.mp hmem
    cases hstale
  · rw [hcompacted]
    cbv

/-- After a page with an old entry of `b` the compaction is seen: the old entry counts for
`b`, where the end of the activity would have counted. -/
theorem compaction_seen :
    half.Reachable ∧ half.sizing.policy = .byId ∧ half.snapshot.length ≤ 2 ∧
      (half.run (archiveAll [[activityAt "b" 5 "planned"]])).1.lookup? "b" =
        some (activityAt "b" 7 "done") ∧
      ((half.compact 2).run (archiveAll [[activityAt "b" 5 "planned"]])).1.lookup? "b" =
        some (activityAt "b" 5 "planned") ∧
      ¬ half.CompactionUnseen 2 [[activityAt "b" 5 "planned"]] := by
  have hnew : ofSizing ⟨3, 2, .byId⟩ = .ok forThree := rfl
  have hreach : half.Reachable := (Reachable.ofSizing hnew).run _
  have hplain : (half.run (archiveAll [[activityAt "b" 5 "planned"]])).1.lookup? "b" =
      some (activityAt "b" 7 "done") := by cbv
  have hcompacted : ((half.compact 2).run (archiveAll [[activityAt "b" 5 "planned"]])).1.lookup?
      "b" = some (activityAt "b" 5 "planned") := by cbv
  refine ⟨hreach, rfl, by cbv, hplain, hcompacted, ?_⟩
  intro hunseen
  have hsame := hunseen "b"
  rw [hplain, hcompacted] at hsame
  have hstatus := congrArg (Option.map Activity.status) hsame
  exact absurd hstatus (by decide)

end Feed

end Dashboard
