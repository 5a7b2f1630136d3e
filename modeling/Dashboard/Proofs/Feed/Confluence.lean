import Dashboard.Proofs.Feed.Snapshot
import Mathlib.Data.List.Forall2
import Mathlib.Data.List.Pairwise

/-!
# Two Sources of One Feed

The archived pages and the realtime entries of a widget come from two sources that do not
wait for each other, so a feed sees the two sequences in one of many interleavings. This
module shows that nothing depends on which one it is, except the order of entries that have
the same order key.

The reason is that the sources share only the counter of the numbers. Whether a realtime
entry fits, and what is told about it, is decided by the `intake` of the feed: the realtime
entries and the marks, without the numbers. An archived page does not touch the intake, and
a realtime entry does not touch the archive. So every interleaving ends with the intake of
the realtime entries alone and with the archive of the pages alone, and the two ends have
views with the same entries under different numbers. The view is sorted by order key first,
and a number decides only between equal order keys.

## Convention

Orders need not be lawful: order keys that compare as equal may still be different. So the
statement that two views have the same sequence of order keys is made up to comparison, and
as an equation for lawful orders.

## Main results

* `Interleaves.intake_run` — an interleaving ends with the intake of the realtime entries
  alone, and tells what they alone would have told.
* `map_entry_merged` — the merge of a list of slots depends on their entries only, but for
  the numbers.
* `forall₂_compare_of_perm` — two lists of the same entries, newest first, have the same
  sequence of order keys.
* `run_confluent` — two interleavings end with feeds that are alike.
-/

namespace Dashboard

namespace Feed

variable {α η κ ω : Type}

/-! ### Interleavings -/

/-- The sequences of operations that interleave archived pages and realtime entries, each of
the two in its own order. -/
inductive Interleaves : List (List α) → List α → List (Operation α η) → Prop
  | nil : Interleaves [] [] []
  | archive {pages : List (List α)} {entries : List α} {operations : List (Operation α η)}
      (page : List α) : Interleaves pages entries operations →
        Interleaves (page :: pages) entries (.archive page :: operations)
  | realtime {pages : List (List α)} {entries : List α} {operations : List (Operation α η)}
      (entry : α) : Interleaves pages entries operations →
        Interleaves pages (entry :: entries) (.realtime entry :: operations)

/-- What decides about a realtime entry: all of a feed but its archive, the numbers of its
slots, the limit of compaction and the mark that something has changed. -/
structure Intake (α η : Type) where
  sizing : Sizing
  entries : List α
  watermarkReached : Bool
  handler : Option η
  dropped : Nat
  overflowTold : Bool

/-- The intake of a feed. -/
def intake (f : Feed α η) : Intake α η where
  sizing := f.sizing
  entries := f.realtime.map Slot.entry
  watermarkReached := f.watermarkReached
  handler := f.handler
  dropped := f.dropped
  overflowTold := f.overflowTold

/-- Feeds with the same intake hold equally many realtime entries. -/
theorem length_realtime_of_intake {f g : Feed α η} (h : f.intake = g.intake) :
    f.realtime.length = g.realtime.length := by
  have hentries : f.realtime.map Slot.entry = g.realtime.map Slot.entry :=
    congrArg Intake.entries h
  have hlength := congrArg List.length hentries
  rw [List.length_map, List.length_map] at hlength
  exact hlength

/-- A page leaves the intake alone. -/
theorem intake_addArchive (f : Feed α η) (page : List α) :
    (f.addArchive page).intake = f.intake :=
  rfl

/-- The check of the watermark looks at the intake only. -/
theorem intake_checkWatermark {f g : Feed α η} (h : f.intake = g.intake) :
    f.checkWatermark.1.intake = g.checkWatermark.1.intake ∧
      f.checkWatermark.2 = g.checkWatermark.2 := by
  have hlength := length_realtime_of_intake h
  simp only [intake, Intake.mk.injEq] at h
  obtain ⟨hsizing, hentries, hreached, hhandler, hdropped, htold⟩ := h
  rw [checkWatermark, checkWatermark, hsizing, hlength, hreached]
  split
  · refine ⟨?_, by rw [hhandler]⟩
    simp only [intake, hentries, hhandler, hdropped, htold]
  · refine ⟨?_, rfl⟩
    simp only [intake, hsizing, hentries, hreached, hhandler, hdropped, htold]

/-- **Feeds with the same intake take a realtime entry alike**, whatever their archives and
their numbers are. -/
theorem intake_addRealtime {f g : Feed α η} (h : f.intake = g.intake) (entry : α) :
    (f.addRealtime entry).1.intake = (g.addRealtime entry).1.intake ∧
      (f.addRealtime entry).2 = (g.addRealtime entry).2 := by
  have hlength := length_realtime_of_intake h
  simp only [intake, Intake.mk.injEq] at h
  obtain ⟨hsizing, hentries, hreached, hhandler, hdropped, htold⟩ := h
  have hfull : f.isFull = g.isFull := by rw [isFull, isFull, hsizing, hlength]
  rw [addRealtime, addRealtime, hfull]
  split
  · refine ⟨?_, by rw [drop, drop, htold, hsizing]⟩
    simp only [drop, intake, hsizing, hentries, hreached, hhandler, hdropped]
  · apply intake_checkWatermark
    simp only [intake, List.map_append, List.map_cons, List.map_nil, hsizing, hentries, hreached,
      hhandler, hdropped, htold]

section Run

variable [Entry α κ ω] [DecidableEq κ] [Ord ω]

/-- **The intake at the end is that of the realtime entries alone**, and so is what has been
told on the way. -/
theorem Interleaves.intake_run {pages : List (List α)} {entries : List α}
    {operations : List (Operation α η)} (h : Interleaves pages entries operations)
    {f g : Feed α η} (hfg : f.intake = g.intake) :
    (f.run operations).1.intake = (g.run (entries.map .realtime)).1.intake ∧
      (f.run operations).2 = (g.run (entries.map .realtime)).2 := by
  induction h generalizing f g with
  | nil => exact ⟨hfg, rfl⟩
  | archive page _ ih =>
      have hpage : (f.addArchive page).intake = g.intake := (intake_addArchive f page).trans hfg
      exact ih hpage
  | realtime entry _ ih =>
      obtain ⟨hnext, htold⟩ := intake_addRealtime hfg entry
      obtain ⟨hlast, hmore⟩ := ih hnext
      refine ⟨hlast, ?_⟩
      rw [List.map_cons, run, run]
      exact congrArg₂ (· ++ ·) htold hmore

/-- The archive at the end has the entries of the pages alone, in their order. -/
theorem Interleaves.archive_run {pages : List (List α)} {entries : List α}
    {operations : List (Operation α η)} (h : Interleaves pages entries operations)
    (f : Feed α η) :
    (f.run operations).1.archive.map Slot.entry =
      f.archive.map Slot.entry ++ pages.flatten := by
  induction h generalizing f with
  | nil => rw [List.flatten_nil, List.append_nil]; rfl
  | archive page _ ih =>
      have hpage : (f.addArchive page).archive.map Slot.entry =
          f.archive.map Slot.entry ++ page := by
        rw [addArchive, List.map_append, List.append_cancel_left_eq]
        refine List.ext_getElem (by simp) ?_
        intro i _ _
        simp only [List.getElem_map, List.getElem_mapIdx]
      rw [run]
      rw [show f.step (.archive page) = (f.addArchive page, []) from rfl]
      rw [ih (f.addArchive page), hpage, List.flatten_cons, List.append_assoc]
  | realtime entry _ ih =>
      rw [run]
      rw [show f.step (.realtime entry) = f.addRealtime entry from rfl]
      rw [ih (f.addRealtime entry).1, archive_addRealtime]

end Run

/-! ### Views with other numbers -/

section View

variable [Entry α κ ω] [DecidableEq κ]

/-- Where an entry is placed, and what is replaced by it, does not depend on numbers. -/
theorem map_entry_place {slots slots' : List (Slot α)} {s s' : Slot α}
    (h : slots.map Slot.entry = slots'.map Slot.entry) (hs : s.entry = s'.entry) :
    (place slots s).map Slot.entry = (place slots' s').map Slot.entry := by
  induction slots generalizing slots' with
  | nil =>
      obtain rfl : slots' = [] := List.map_eq_nil_iff.mp h.symm
      simp only [place, List.map_cons, List.map_nil, hs]
  | cons t rest ih =>
      cases slots' with
      | nil => cases h
      | cons t' rest' =>
          obtain ⟨ht, hrest⟩ := List.cons_eq_cons.mp h
          rw [place, place, ht, hs]
          split
          · rw [List.map_cons, List.map_cons, hrest]
          · rw [List.map_cons, List.map_cons, ht, ih hrest]

/-- **The entries of a merge depend on the merged entries only**, not on their numbers. -/
theorem map_entry_merged {slots slots' : List (Slot α)}
    (h : slots.map Slot.entry = slots'.map Slot.entry) :
    (merged slots).map Slot.entry = (merged slots').map Slot.entry := by
  induction slots using List.reverseRecOn generalizing slots' with
  | nil =>
      obtain rfl : slots' = [] := List.map_eq_nil_iff.mp h.symm
      rfl
  | append_singleton slots s ih =>
      rw [List.map_append] at h
      obtain ⟨rest, last, rfl, hrest, hlast⟩ := List.map_eq_append_iff.mp h.symm
      obtain ⟨s', rfl, hs⟩ := List.map_eq_singleton_iff.mp hlast
      rw [merged_append_singleton, merged_append_singleton]
      exact map_entry_place (ih hrest.symm) hs.symm

/-- The entries of the view depend on the policy and on the entries of the two stores. -/
theorem map_entry_slots {f g : Feed α η} (hpolicy : f.sizing.policy = g.sizing.policy)
    (harchive : f.archive.map Slot.entry = g.archive.map Slot.entry)
    (hrealtime : f.realtime.map Slot.entry = g.realtime.map Slot.entry) :
    f.slots.map Slot.entry = g.slots.map Slot.entry := by
  have hboth : (f.archive ++ f.realtime).map Slot.entry =
      (g.archive ++ g.realtime).map Slot.entry := by
    rw [List.map_append, List.map_append, harchive, hrealtime]
  cases hg : g.sizing.policy with
  | byId =>
      rw [slots_of_byId hg, slots_of_byId (hpolicy.trans hg)]
      exact map_entry_merged hboth
  | append =>
      rw [slots_of_append hg, slots_of_append (hpolicy.trans hg)]
      exact hboth

end View

/-! ### Lists of the same entries, newest first -/

section Order

variable [Entry α κ ω] [Ord ω]

/-- No entry stands behind an older one. -/
def NewestFirst (entries : List α) : Prop :=
  entries.Pairwise fun a b => compare (Entry.order a) (Entry.order b) ≠ .lt

variable [Std.TransOrd ω]

/-- Order keys neither of which is less than the other compare as equal. -/
theorem compare_eq_of_ne_lt {a b : ω} (hab : compare a b ≠ .lt) (hba : compare b a ≠ .lt) :
    compare a b = .eq := by
  cases h : compare a b with
  | eq => rfl
  | lt => exact absurd h hab
  | gt => exact absurd (Std.OrientedCmp.lt_of_gt h) hba

/-- Order keys up to comparison. -/
def orderKeys (ω : Type) [Ord ω] [Std.TransOrd ω] : Setoid ω where
  r a b := compare a b = .eq
  iseqv := ⟨fun _ => Std.ReflCmp.compare_self, Std.OrientedCmp.eq_symm, Std.TransCmp.eq_trans⟩

/-- The order key of an entry up to comparison. -/
def orderClass (entry : α) : Quotient (orderKeys ω) :=
  Quotient.mk _ (Entry.order entry)

/-- Whether one order key up to comparison is at least another one. -/
def AtLeast : Quotient (orderKeys ω) → Quotient (orderKeys ω) → Prop :=
  Quotient.lift₂ (fun a b => compare a b ≠ .lt) (by
    intro a b a' b' (ha : compare a a' = .eq) (hb : compare b b' = .eq)
    rw [Std.TransCmp.congr_left ha, Std.TransCmp.congr_right hb])

/-- Order keys that are at least one another are the same up to comparison. -/
theorem AtLeast.antisymm {x y : Quotient (orderKeys ω)} (hxy : AtLeast x y)
    (hyx : AtLeast y x) : x = y := by
  induction x, y using Quotient.inductionOn₂ with
  | h a b => exact Quotient.sound (compare_eq_of_ne_lt hxy hyx)

/-- **The sequence of order keys is determined by the entries**, up to comparison. -/
theorem forall₂_compare_of_perm {entries entries' : List α} (hperm : entries.Perm entries')
    (h : NewestFirst entries) (h' : NewestFirst entries') :
    List.Forall₂ (fun a b => compare (Entry.order a) (Entry.order b) = .eq) entries entries' := by
  have hsorted : (entries.map orderClass).Pairwise AtLeast := List.pairwise_map.mpr h
  have hsorted' : (entries'.map orderClass).Pairwise AtLeast := List.pairwise_map.mpr h'
  have hclasses : entries.map orderClass = entries'.map orderClass := by
    refine List.Perm.eq_of_pairwise ?_ hsorted hsorted' (hperm.map _)
    intro x y _ _ hxy hyx
    exact hxy.antisymm hyx
  rw [← List.forall₂_eq_eq_eq, List.forall₂_map_left_iff, List.forall₂_map_right_iff] at hclasses
  exact hclasses.imp fun a b hab => Quotient.exact hab

/-- If no two of the entries have the same order key, their order is determined. -/
theorem eq_of_perm_of_distinct {entries entries' : List α} (hperm : entries.Perm entries')
    (h : NewestFirst entries) (h' : NewestFirst entries')
    (hdistinct : entries.Pairwise fun a b =>
      compare (Entry.order a) (Entry.order b) ≠ .eq) : entries = entries' := by
  refine List.Perm.eq_of_pairwise ?_ h h' hperm
  intro a b ha hb hab hba
  have heq := compare_eq_of_ne_lt hab hba
  have hsymm : Std.Symm fun a b : α => compare (Entry.order a) (Entry.order b) ≠ .eq :=
    ⟨fun a b hab hba => hab (Std.OrientedCmp.eq_symm hba)⟩
  by_contra hne
  exact hdistinct.forall ha (hperm.mem_iff.mpr hb) hne heq

/-- A snapshot is sorted by order key. -/
theorem newestFirst_snapshot [DecidableEq κ] (f : Feed α η) : NewestFirst f.snapshot := by
  rw [NewestFirst, snapshot, List.pairwise_map]
  refine (pairwise_newerFirst_mergeSort f.slots).imp ?_
  intro s t hst hlt
  rcases newerFirst_iff.mp hst with hgt | ⟨heq, -⟩
  · rw [hgt] at hlt
    cases hlt
  · rw [heq] at hlt
    cases hlt

end Order

/-! ### Confluence -/

section Alike

variable [Entry α κ ω] [DecidableEq κ]

/-- In a list with one entry for each key, what is found for a key does not depend on the
order. -/
theorem find?_key_eq_of_perm {entries entries' : List α} (hperm : entries.Perm entries')
    (hnodup : (entries.map Entry.key).Nodup) (k : κ) :
    entries.find? (fun e => decide (Entry.key e = k)) =
      entries'.find? (fun e => decide (Entry.key e = k)) := by
  have hnodup' := (hperm.map Entry.key).nodup_iff.mp hnodup
  apply Option.ext
  intro e
  rw [find?_eq_some_iff_of_nodup hnodup, find?_eq_some_iff_of_nodup hnodup', hperm.mem_iff]

variable [Ord ω]

/-- A snapshot has the entries of the view. -/
theorem snapshot_perm (f : Feed α η) : f.snapshot.Perm (f.slots.map Slot.entry) :=
  (List.mergeSort_perm f.slots newerFirst).map Slot.entry

/-- Under `byId` a snapshot has one entry for each key. -/
theorem nodup_key_snapshot {f : Feed α η} (h : f.sizing.policy = .byId) :
    (f.snapshot.map Entry.key).Nodup := by
  rw [(map_key_snapshot_perm f).nodup_iff, slots_of_byId h]
  exact nodup_map_key_merged _

/-- Feeds that differ at most in the order of entries with the same order key. -/
structure Alike (f g : Feed α η) : Prop where
  dropped : f.dropped = g.dropped
  held : f.realtime.length = g.realtime.length
  watermarkReached : f.watermarkReached = g.watermarkReached
  /-- The views have the same entries, equally often. -/
  entries : f.snapshot.Perm g.snapshot
  /-- If there is one entry for each key, then each key has the same one. -/
  lookup : f.sizing.policy = .byId →
    (f.snapshot.map Entry.key).Nodup ∧ (g.snapshot.map Entry.key).Nodup ∧
      ∀ k, f.snapshot.find? (fun e => decide (Entry.key e = k)) =
        g.snapshot.find? (fun e => decide (Entry.key e = k))
  /-- The views have the same sequence of order keys, up to comparison. -/
  comparable : List.Forall₂ (fun a b => compare (Entry.order a) (Entry.order b) = .eq)
    f.snapshot g.snapshot
  /-- The views have the same sequence of order keys, if the order is lawful. -/
  orders : Std.LawfulEqOrd ω → f.snapshot.map Entry.order = g.snapshot.map Entry.order
  /-- The views are the same if no two entries of one have the same order key. -/
  eq_of_distinct : (f.snapshot.Pairwise fun a b =>
    compare (Entry.order a) (Entry.order b) ≠ .eq) → f.snapshot = g.snapshot

variable [Std.TransOrd ω]

/-- **Feeds that are the same but for the numbers are alike.** -/
theorem alike_of_intake {f g : Feed α η} (hintake : f.intake = g.intake)
    (harchive : f.archive.map Slot.entry = g.archive.map Slot.entry) : f.Alike g := by
  have hheld := length_realtime_of_intake hintake
  simp only [intake, Intake.mk.injEq] at hintake
  obtain ⟨hsizing, hrealtime, hreached, -, hdropped, -⟩ := hintake
  have hslots : f.slots.map Slot.entry = g.slots.map Slot.entry := by
    refine map_entry_slots ?_ harchive hrealtime
    rw [hsizing]
  have hperm : f.snapshot.Perm g.snapshot := by
    refine (snapshot_perm f).trans ?_
    rw [hslots]
    exact (snapshot_perm g).symm
  have hcomparable :=
    forall₂_compare_of_perm hperm (newestFirst_snapshot f) (newestFirst_snapshot g)
  refine ⟨hdropped, hheld, hreached, hperm, ?_, hcomparable, ?_, ?_⟩
  · intro hpolicy
    have hnodup := nodup_key_snapshot hpolicy
    exact ⟨hnodup, (hperm.map Entry.key).nodup_iff.mp hnodup, find?_key_eq_of_perm hperm hnodup⟩
  · intro _
    rw [← List.forall₂_eq_eq_eq, List.forall₂_map_left_iff, List.forall₂_map_right_iff]
    exact hcomparable.imp fun a b hab => Std.LawfulEqCmp.eq_of_compare hab
  · intro hdistinct
    exact eq_of_perm_of_distinct hperm (newestFirst_snapshot f) (newestFirst_snapshot g) hdistinct

/-- **The two sources of a feed are confluent.** Two interleavings of the same pages and the
same realtime entries, entered into the same feed, tell the same, calls of the watermark's
handler included, and end with feeds that are alike: with the same counts and marks, and with
views that differ at most in the order of entries with the same order key. -/
theorem run_confluent (f : Feed α η) {pages : List (List α)} {entries : List α}
    {first second : List (Operation α η)} (hfirst : Interleaves pages entries first)
    (hsecond : Interleaves pages entries second) :
    (f.run first).2 = (f.run second).2 ∧ (f.run first).1.Alike (f.run second).1 := by
  obtain ⟨hintake, htold⟩ := hfirst.intake_run (f := f) (g := f) rfl
  obtain ⟨hintake', htold'⟩ := hsecond.intake_run (f := f) (g := f) rfl
  refine ⟨htold.trans htold'.symm, alike_of_intake (hintake.trans hintake'.symm) ?_⟩
  rw [hfirst.archive_run f, hsecond.archive_run f]

end Alike

/-! ### The archive late -/

/-- A new feed for at most three realtime entries, with a handler of the watermark. -/
def handled : Feed Activity Unit :=
  forThree.withHandler ()

/-- A page that comes in before the realtime entries. -/
def archiveFirst : List (Operation Activity Unit) :=
  [.archive [activityAt "a" 5 "planned", activityAt "b" 5 "planned"],
    .realtime (activityAt "b" 7 "running"), .realtime (activityAt "c" 5 "running"),
    .realtime (activityAt "b" 8 "done"), .realtime (activityAt "d" 9 "running")]

/-- The same page in the middle of the same realtime entries. -/
def archiveLate : List (Operation Activity Unit) :=
  [.realtime (activityAt "b" 7 "running"), .realtime (activityAt "c" 5 "running"),
    .archive [activityAt "a" 5 "planned", activityAt "b" 5 "planned"],
    .realtime (activityAt "b" 8 "done"), .realtime (activityAt "d" 9 "running")]

/-- The late page comes after the watermark and before the entry that does not fit. Both runs
call the handler once and drop the same entry, and the later status of `b` counts in both; but
`a` and `c`, which are of the same time, have changed places. -/
theorem archiveLate_alike :
    (handled.run archiveFirst).2 = [.watermark (), .overflow 3] ∧
      (handled.run archiveFirst).2 = (handled.run archiveLate).2 ∧
      (handled.run archiveFirst).1.Alike (handled.run archiveLate).1 ∧
      (handled.run archiveFirst).1.snapshot =
        [activityAt "b" 8 "done", activityAt "c" 5 "running", activityAt "a" 5 "planned"] ∧
      (handled.run archiveLate).1.snapshot =
        [activityAt "b" 8 "done", activityAt "a" 5 "planned", activityAt "c" 5 "running"] := by
  have hfirst : Interleaves [[activityAt "a" 5 "planned", activityAt "b" 5 "planned"]]
      [activityAt "b" 7 "running", activityAt "c" 5 "running", activityAt "b" 8 "done",
        activityAt "d" 9 "running"] archiveFirst :=
    .archive _ (.realtime _ (.realtime _ (.realtime _ (.realtime _ .nil))))
  have hlate : Interleaves [[activityAt "a" 5 "planned", activityAt "b" 5 "planned"]]
      [activityAt "b" 7 "running", activityAt "c" 5 "running", activityAt "b" 8 "done",
        activityAt "d" 9 "running"] archiveLate :=
    .realtime _ (.realtime _ (.archive _ (.realtime _ (.realtime _ .nil))))
  obtain ⟨htold, halike⟩ := run_confluent handled hfirst hlate
  exact ⟨by cbv, htold, halike, by cbv, by cbv⟩

end Feed

end Dashboard
