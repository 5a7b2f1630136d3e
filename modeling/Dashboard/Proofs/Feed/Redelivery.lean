import Dashboard.Proofs.Feed.Accounting

/-!
# Redelivery

A source that does not know whether a page or an entry has arrived sends it again. Under
`byId` that makes no difference to the view. What is entered again has keys that are held
already, so it is placed in the slots that they have, and it leaves each of them with the entry
that it has (`merged_append_of_lastOf?_eq`). But it is stored, and it takes numbers, so a feed
with a page twice is not the feed with the page once. Two facts lead from one to the other.

What a feed shows depends on its archive only as far as this is merged. A feed whose archive
has been merged (`thin`) goes on like the feed itself, whatever is done with it. And a feed
that leaves out some numbers (`skip`) cannot be told from the feed, since it is the same one
renumbered from the next number on.

## Main results

* `merged_append_of_lastOf?_eq` — slots that change the last entry of no key are not seen in a
  merge.
* `thin_run` — what a feed becomes depends on its archive only as far as this is merged.
* `Numbered.indistinguishable_skip` — a host cannot tell that numbers were left out.
* `snapshot_redelivered` — a page or a realtime entry that comes twice counts once.
-/

namespace Dashboard

namespace Feed

variable {α η κ ω : Type} [Entry α κ ω] [DecidableEq κ]

/-! ### Merging what is there already -/

/-- Slots that hold every key once are determined by their keys and by what is found for
each. -/
theorem eq_of_map_key_eq {slots slots' : List (Slot α)}
    (hkeys : slots.map (fun s => Entry.key s.entry) = slots'.map fun s => Entry.key s.entry)
    (hnodup : (slots.map fun s => Entry.key s.entry).Nodup)
    (hfind : ∀ k, slots.find? (holds k) = slots'.find? (holds k)) : slots = slots' := by
  have hlength : slots.length = slots'.length := by
    have hlength := congrArg List.length hkeys
    rwa [List.length_map, List.length_map] at hlength
  refine List.ext_getElem hlength ?_
  intro i hi hi'
  have hkey : Entry.key slots[i].entry = Entry.key slots'[i].entry := by
    have hkey := List.getElem_of_eq hkeys (by rwa [List.length_map] : i < _)
    rwa [List.getElem_map, List.getElem_map] at hkey
  have hfound : slots.find? (holds (Entry.key slots[i].entry)) = some slots[i] :=
    (find?_eq_some_iff_of_nodup hnodup).mpr ⟨List.getElem_mem hi, rfl⟩
  have hfound' : slots'.find? (holds (Entry.key slots[i].entry)) = some slots'[i] :=
    (find?_eq_some_iff_of_nodup (hkeys ▸ hnodup)).mpr ⟨List.getElem_mem hi', hkey.symm⟩
  rw [hfind, hfound'] at hfound
  exact (Option.some.inj hfound).symm

/-- Slots of keys that are held already do not change the keys of a merge. -/
theorem map_key_merged_append {slots again : List (Slot α)}
    (h : ∀ t ∈ again, ∃ s ∈ slots, Entry.key s.entry = Entry.key t.entry) :
    (merged (slots ++ again)).map (fun s => Entry.key s.entry) =
      (merged slots).map fun s => Entry.key s.entry := by
  induction again using List.reverseRecOn with
  | nil => rw [List.append_nil]
  | append_singleton again t ih =>
      have hagain := ih fun t ht => h t (List.mem_append_left _ ht)
      rw [← List.append_assoc, merged_append_singleton, map_key_place, hagain, if_pos]
      obtain ⟨s, hs, hkey⟩ := h t (List.mem_append_right _ (List.mem_singleton.mpr rfl))
      obtain ⟨u, hu, hkey'⟩ := exists_mem_merged_iff.mpr ⟨s, hs, hkey⟩
      exact List.mem_map.mpr ⟨u, hu, hkey'⟩

/-- There is a last entry of a key exactly if there is an entry of it. -/
theorem isSome_lastOf?_iff {k : κ} {entries : List α} :
    (lastOf? k entries).isSome ↔ ∃ e ∈ entries, Entry.key e = k := by
  rw [lastOf?, List.findRev?_eq_find?_reverse, List.find?_isSome]
  simp only [List.mem_reverse, decide_eq_true_eq]

/-- **Slots that change the last entry of no key are not seen in a merge.** A key that was not held
before is not among them. -/
theorem merged_append_of_lastOf?_eq {slots again : List (Slot α)}
    (h : ∀ k, lastOf? k ((slots ++ again).map Slot.entry) = lastOf? k (slots.map Slot.entry)) :
    merged (slots ++ again) = merged slots := by
  have hheld : ∀ t ∈ again, ∃ s ∈ slots, Entry.key s.entry = Entry.key t.entry := by
    intro t ht
    have hsome := isSome_lastOf?_iff.mpr
      ⟨t.entry, List.mem_map_of_mem (List.mem_append_right slots ht), rfl⟩
    rw [h, isSome_lastOf?_iff] at hsome
    obtain ⟨e, he, hkey⟩ := hsome
    obtain ⟨s, hs, rfl⟩ := List.mem_map.mp he
    exact ⟨s, hs, hkey⟩
  refine eq_of_map_key_eq (map_key_merged_append hheld) (nodup_map_key_merged _) ?_
  intro k
  have hlast := h k
  rw [← map_entry_findRev?, ← map_entry_findRev?] at hlast
  have hfirst : (slots ++ again).find? (holds k) = slots.find? (holds k) := by
    cases hfound : slots.find? (holds k) with
    | some first => rw [List.find?_append, hfound, Option.some_or]
    | none =>
        rw [List.find?_eq_none] at hfound ⊢
        intro t ht hkey
        rcases List.mem_append.mp ht with ht | ht
        · exact hfound t ht hkey
        · obtain ⟨s, hs, hsame⟩ := hheld t ht
          exact hfound s hs (holds_iff.mpr (hsame.trans (holds_iff.mp hkey)))
  rw [find?_merged, find?_merged, hfirst]
  refine congrArg _ (funext fun first => ?_)
  have hmap := congrArg (Option.map fun e => (⟨first.number, e⟩ : Slot α)) hlast
  rw [Option.map_map, Option.map_map] at hmap
  exact hmap

/-- A merge may be merged before more is merged to it. -/
theorem merged_merged_append (slots more : List (Slot α)) :
    merged (merged slots ++ more) = merged (slots ++ more) := by
  have htwice : merged (merged slots) = merged slots := merged_of_nodup (nodup_map_key_merged slots)
  rw [merged, List.foldl_append, ← merged, htwice, merged, merged, List.foldl_append]

/-! ### Merged archives -/

/-- The same feed with its archive merged. -/
def thin (f : Feed α η) : Feed α η :=
  { f with archive := merged f.archive }

/-- A page is merged into a merged archive as into the archive itself. -/
theorem thin_addArchive (f : Feed α η) (page : List α) :
    (f.thin.addArchive page).thin = (f.addArchive page).thin :=
  congrArg (fun archive => { f.addArchive page with archive }) (merged_merged_append f.archive _)

/-- Looking at the watermark does not depend on the archive. -/
theorem checkWatermark_thin (f : Feed α η) :
    f.thin.checkWatermark = (f.checkWatermark.1.thin, f.checkWatermark.2) :=
  checkWatermark_of_same thin rfl rfl rfl rfl rfl

/-- Neither does a realtime entry. -/
theorem addRealtime_thin (f : Feed α η) (entry : α) :
    f.thin.addRealtime entry = ((f.addRealtime entry).1.thin, (f.addRealtime entry).2) := by
  have hfull : f.thin.isFull = f.isFull := rfl
  rw [addRealtime, addRealtime, hfull]
  split
  · rfl
  · exact checkWatermark_thin { f with
      realtime := f.realtime ++ [⟨f.nextNumber, entry⟩]
      nextNumber := f.nextNumber + 1
      dirty := true }

/-- A merged archive is merged already. -/
theorem thin_thin (f : Feed α η) : f.thin.thin = f.thin :=
  congrArg (fun archive => { f with archive }) (merged_of_nodup (nodup_map_key_merged f.archive))

section Run

variable [Ord ω] {f g : Feed α η}

/-- A feed shows as much of its archive as a merge does. -/
theorem snapshot_thin (h : f.sizing.policy = .byId) : f.thin.snapshot = f.snapshot := by
  have hthin : f.thin.sizing.policy = .byId := h
  rw [snapshot, snapshot, slots_of_byId h, slots_of_byId hthin]
  exact congrArg (fun slots => (slots.mergeSort newerFirst).map Slot.entry)
    (merged_merged_append f.archive f.realtime)

/-- Compaction merges the archive anyway. -/
theorem compact_thin (h : f.sizing.policy = .byId) (limit : Nat) :
    f.thin.compact limit = f.compact limit := by
  rw [compact, compact, snapshot_thin h]
  rfl

/-- An operation does the same to a merged archive, but for the merging. -/
theorem thin_step (h : f.sizing.policy = .byId) (operation : Operation α η) :
    (f.thin.step operation).1.thin = (f.step operation).1.thin := by
  cases operation with
  | archive page => exact thin_addArchive f page
  | realtime entry =>
      show (f.thin.addRealtime entry).1.thin = (f.addRealtime entry).1.thin
      rw [addRealtime_thin, thin_thin]
  | reset => rfl
  | compact limit => exact congrArg thin (compact_thin h limit)
  | compactToLimit => exact congrArg thin (compact_thin h f.compactLimit)
  | poll =>
      show f.thin.poll.2.thin = f.poll.2.thin
      rw [poll_snd, poll_snd]
      exact congrArg (fun f => { f with dirty := false }) (thin_thin f)
  | handler handler => exact congrArg (withHandler · handler) (thin_thin f)

/-- **What a feed becomes depends on its archive only as far as this is merged**, by induction
on the operations. -/
theorem thin_run (h : f.sizing.policy = .byId) (operations : List (Operation α η)) :
    (f.thin.run operations).1.thin = (f.run operations).1.thin := by
  induction operations generalizing f with
  | nil => exact thin_thin f
  | cons operation rest ih =>
      have hnext : (f.step operation).1.sizing.policy = .byId := by rw [sizing_step, h]
      have hthin : (f.thin.step operation).1.sizing.policy = .byId := by
        rw [sizing_step]
        exact h
      calc ((f.thin.step operation).1.run rest).1.thin
          = ((f.thin.step operation).1.thin.run rest).1.thin := (ih hthin).symm
        _ = ((f.step operation).1.thin.run rest).1.thin := by rw [thin_step h]
        _ = ((f.step operation).1.run rest).1.thin := ih hnext

/-- **To merge the archive makes no difference** to what a feed shows later. -/
theorem snapshot_run_thin (h : f.sizing.policy = .byId) (operations : List (Operation α η)) :
    (f.thin.run operations).1.snapshot = (f.run operations).1.snapshot := by
  have hpolicy : (f.run operations).1.sizing.policy = .byId := by rw [sizing_run, h]
  have hthin : (f.thin.run operations).1.sizing.policy = .byId := by
    rw [sizing_run]
    exact h
  rw [← snapshot_thin hpolicy, ← snapshot_thin hthin, thin_run h]

end Run

/-! ### Numbers that are left out -/

/-- The same feed with some numbers left out before the next one. -/
def skip (f : Feed α η) (count : Nat) : Feed α η :=
  { f with nextNumber := f.nextNumber + count }

/-- The numbers from one on are greater by a count, and those before it are the same. -/
def shiftFrom (first count n : Nat) : Nat :=
  if n < first then n else n + count

/-- To leave out some numbers is orderly. -/
theorem orderly_shiftFrom (f : Feed α η) (count : Nat) :
    f.Orderly (shiftFrom f.nextNumber count) where
  ascending := by
    intro m _ n _ hlt
    show shiftFrom f.nextNumber count m < shiftFrom f.nextNumber count n
    rw [shiftFrom, shiftFrom]
    split_ifs
    all_goals omega
  consecutive := by
    intro i
    rw [shiftFrom, shiftFrom, if_neg (by omega), if_neg (by omega)]
    omega

/-- The slots that are there keep their numbers. -/
theorem map_renumber_of_lt {slots : List (Slot α)} {first : Nat}
    (h : ∀ s ∈ slots, s.number < first) (count : Nat) :
    slots.map (Slot.renumber (shiftFrom first count)) = slots := by
  refine (List.map_congr_left ?_).trans (List.map_id slots)
  intro s hs
  rw [Slot.renumber, shiftFrom, if_pos (h s hs)]
  rfl

/-- Numbers are left out by renumbering from the next one on. -/
theorem Numbered.renumber_shiftFrom {f : Feed α η} (h : f.Numbered) (count : Nat) :
    f.renumber (shiftFrom f.nextNumber count) = f.skip count := by
  have harchive := map_renumber_of_lt (fun s hs => h.below s (List.mem_append_left _ hs)) count
  have hrealtime := map_renumber_of_lt (fun s hs => h.below s (List.mem_append_right _ hs)) count
  have hnext : shiftFrom f.nextNumber count f.nextNumber = f.nextNumber + count :=
    if_neg (Nat.lt_irrefl _)
  rw [renumber, harchive, hrealtime, hnext, skip]

section Skip

variable [Ord ω]

/-- **A host cannot tell that numbers were left out.** -/
theorem Numbered.indistinguishable_skip {f : Feed α η} (h : f.Numbered) (count : Nat) :
    (f.skip count).Indistinguishable f := by
  rw [← h.renumber_shiftFrom]
  exact (orderly_shiftFrom f count).indistinguishable

/-- Operations are actions. -/
theorem afterAll_operate (f : Feed α η) (operations : List (Operation α η)) :
    f.afterAll (operations.map .operate) = (f.run operations).1 := by
  induction operations generalizing f with
  | nil => rfl
  | cons operation rest ih => exact ih (f.step operation).1

/-- **To leave out some numbers makes no difference** to what a feed shows later. -/
theorem Numbered.snapshot_run_skip {f : Feed α η} (h : f.Numbered) (count : Nat)
    (operations : List (Operation α η)) :
    ((f.skip count).run operations).1.snapshot = (f.run operations).1.snapshot := by
  have hafter := (h.indistinguishable_skip count).afterAll (operations.map .operate)
  rw [afterAll_operate, afterAll_operate] at hafter
  exact congrArg Sight.view hafter.1

end Skip

/-! ### What comes twice -/

/-- A feed with a page twice has the merged archive of the feed with the page once, but for
the numbers that the second page has taken. -/
theorem thin_addArchive_addArchive (f : Feed α η) (page : List α) :
    ((f.addArchive page).addArchive page).thin =
      ((f.addArchive page).skip page.length).thin := by
  have hmerged : merged ((f.addArchive page).archive ++
      slotsFrom (f.addArchive page).nextNumber page) = merged (f.addArchive page).archive := by
    refine merged_append_of_lastOf?_eq ?_
    intro k
    have hpage : (f.addArchive page).archive.map Slot.entry = f.archive.map Slot.entry ++ page := by
      show (f.archive ++ slotsFrom f.nextNumber page).map Slot.entry = _
      rw [List.map_append, map_entry_slotsFrom]
    rw [List.map_append, map_entry_slotsFrom, hpage, lastOf?_append, lastOf?_append]
    cases lastOf? k page with
    | none => rfl
    | some e => rfl
  exact congrArg (fun archive => { (f.addArchive page).skip page.length with archive }) hmerged

/-- A realtime entry behind itself is not seen in a merge. -/
theorem merged_append_twice (slots : List (Slot α)) {s t : Slot α} (h : s.entry = t.entry) :
    merged (slots ++ [s] ++ [t]) = merged (slots ++ [s]) := by
  refine merged_append_of_lastOf?_eq ?_
  intro k
  rw [List.map_append, List.map_append, List.map_singleton, List.map_singleton, h,
    lastOf?_append, lastOf?_append]
  cases lastOf? k [t.entry] with
  | none => rfl
  | some e => rfl

/-- Feeds that merge their realtime entries **alike** into anything, and are the same else as
far as pages are concerned. -/
structure MergesAlike (f g : Feed α η) : Prop where
  byId : f.sizing.policy = .byId
  byId' : g.sizing.policy = .byId
  archive : f.archive = g.archive
  next : f.nextNumber = g.nextNumber
  merged : ∀ slots, merged (slots ++ f.realtime) = merged (slots ++ g.realtime)

namespace MergesAlike

variable {f g : Feed α η}

/-- Feeds still merge alike behind a page. -/
theorem addArchive (h : f.MergesAlike g) (page : List α) :
    (f.addArchive page).MergesAlike (g.addArchive page) := by
  refine ⟨h.byId, h.byId', ?_, ?_, h.merged⟩
  · rw [Feed.addArchive, Feed.addArchive, h.archive, h.next]
  · rw [Feed.addArchive, Feed.addArchive, h.next]

variable [Ord ω]

/-- Feeds that merge alike show the same. -/
theorem snapshot_eq (h : f.MergesAlike g) : f.snapshot = g.snapshot := by
  rw [snapshot, snapshot, slots_of_byId h.byId, slots_of_byId h.byId', h.archive, h.merged]

/-- Feeds that merge alike show the same behind any pages. -/
theorem snapshot_run_archiveAll (h : f.MergesAlike g) (pages : List (List α)) :
    (f.run (archiveAll pages)).1.snapshot = (g.run (archiveAll pages)).1.snapshot := by
  induction pages generalizing f g with
  | nil => exact h.snapshot_eq
  | cons page rest ih => exact ih (h.addArchive page)

end MergesAlike

/-- A feed with a realtime entry twice merges its realtime entries like the feed with the entry
once, but for the number that the second one has taken if it fits. Then the first one has been held
as well, since a feed does not get room by dropping an entry. -/
theorem exists_mergesAlike_addRealtime {f : Feed α η} (h : f.sizing.policy = .byId) (entry : α) :
    ∃ count, ((f.addRealtime entry).1.addRealtime entry).1.MergesAlike
      ((f.addRealtime entry).1.skip count) := by
  have hbyId : (f.addRealtime entry).1.sizing.policy = .byId := by rw [sizing_addRealtime, h]
  have hbyId' : ((f.addRealtime entry).1.addRealtime entry).1.sizing.policy = .byId := by
    rw [sizing_addRealtime, hbyId]
  have harchive := archive_addRealtime (f.addRealtime entry).1 entry
  cases hfull : (f.addRealtime entry).1.isFull with
  | true =>
      refine ⟨0, hbyId', hbyId, harchive, ?_, ?_⟩
      · rw [addRealtime_of_full hfull]
        rfl
      · rw [addRealtime_of_full hfull]
        exact fun _ => rfl
  | false =>
      have hroom : f.isFull = false := by
        rw [← Bool.not_eq_true]
        intro hbefore
        rw [addRealtime_of_full hbefore] at hfull
        exact absurd (hfull.symm.trans hbefore) (by decide)
      obtain ⟨hfirst, -⟩ := addRealtime_of_free hroom entry
      obtain ⟨hsecond, hnext, -⟩ := addRealtime_of_free hfull entry
      refine ⟨1, hbyId', hbyId, harchive, hnext, ?_⟩
      intro slots
      rw [hsecond]
      show _ = merged (slots ++ (f.addRealtime entry).1.realtime)
      rw [hfirst, ← List.append_assoc, ← List.append_assoc]
      exact merged_append_twice (slots ++ f.realtime) rfl

/-! ### Redelivery -/

/-- **What comes twice counts once.** In every feed with one entry for each key that a host can
arrive at, a page that is added twice in a row makes the same snapshot as the page added once,
at once and after any operations that follow, further pages among them. And a realtime entry
that is added twice in a row makes the same snapshot as the entry added once, at once and after
any further pages, whether both fit, only the first one, or none. -/
theorem snapshot_redelivered [Ord ω] {f : Feed α η} (h : f.Reachable)
    (hpolicy : f.sizing.policy = .byId) :
    (∀ page operations,
      (((f.addArchive page).addArchive page).run operations).1.snapshot =
        ((f.addArchive page).run operations).1.snapshot) ∧
    ∀ entry pages,
      (((f.addRealtime entry).1.addRealtime entry).1.run (archiveAll pages)).1.snapshot =
        ((f.addRealtime entry).1.run (archiveAll pages)).1.snapshot := by
  constructor
  · intro page operations
    have honce : (f.addArchive page).Numbered := h.numbered.addArchive page
    have htwice : ((f.addArchive page).addArchive page).sizing.policy = .byId := hpolicy
    have hskip : ((f.addArchive page).skip page.length).sizing.policy = .byId := hpolicy
    rw [← snapshot_run_thin htwice, thin_addArchive_addArchive, snapshot_run_thin hskip,
      honce.snapshot_run_skip]
  · intro entry pages
    have honce : (f.addRealtime entry).1.Numbered := h.numbered.addRealtime entry
    obtain ⟨count, halike⟩ := exists_mergesAlike_addRealtime hpolicy entry
    rw [halike.snapshot_run_archiveAll, honce.snapshot_run_skip]

/-! ### A page and an entry that come twice -/

/-- A page with an activity twice, for which there is one in the archive, and a new one. -/
def movedPage : List Activity :=
  [activityAt "a" 6 "moved", activityAt "c" 6 "planned", activityAt "a" 5 "late"]

/-- A page with another new activity of the same time. -/
def furtherPage : List Activity :=
  [activityAt "d" 6 "planned"]

/-- The page twice takes six places of the archive, and the realtime entry twice takes the last
two places of the feed. Neither is seen after a further page, not even among the activities of
the same time: the one that came in last stands in front. -/
theorem snapshot_redelivered_half :
    half.Reachable ∧ half.sizing.policy = .byId ∧
      ((half.addArchive movedPage).addArchive movedPage).archive.length = 8 ∧
      (((half.addArchive movedPage).addArchive movedPage).run [.archive furtherPage]).1.snapshot =
        [activityAt "b" 7 "done", activityAt "d" 6 "planned", activityAt "c" 6 "planned",
          activityAt "a" 5 "late"] ∧
      ((half.addRealtime (activityAt "e" 6 "running")).1.addRealtime
        (activityAt "e" 6 "running")).1.realtime.length = 3 ∧
      (((half.addRealtime (activityAt "e" 6 "running")).1.addRealtime
        (activityAt "e" 6 "running")).1.run (archiveAll [furtherPage])).1.snapshot =
        [activityAt "b" 7 "done", activityAt "d" 6 "planned", activityAt "e" 6 "running",
          activityAt "a" 5 "planned"] := by
  have hnew : ofSizing ⟨3, 2, .byId⟩ = .ok forThree := rfl
  have hreach : half.Reachable := (Reachable.ofSizing hnew).run _
  obtain ⟨hpage, hentry⟩ := snapshot_redelivered hreach rfl
  refine ⟨hreach, rfl, by cbv, ?_, by cbv, ?_⟩
  · rw [hpage]
    cbv
  · rw [hentry]
    cbv

end Feed

end Dashboard
