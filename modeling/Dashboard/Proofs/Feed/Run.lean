import Dashboard.Feed

/-!
# Runs of a Feed

A host drives a feed by a sequence of operations: it adds archived pages and realtime
entries, polls, compacts, resets and replaces the handler of the watermark. This module
defines what one operation does (`step`), what a sequence of them does (`run`), and the
feeds that a host can begin with (`New`) and arrive at (`Reachable`).

The invariant of all of them is `Numbered`: the number of a slot is its insertion sequence.
Every operation that enters entries takes fresh numbers from one counter, for both stores,
so within a store the numbers ascend in the order of arrival, and no number is held twice.

## Main results

* `new_iff` — what a new feed is.
* `Numbered.step` — an operation keeps the numbering, whatever it does to the entries.
* `Reachable.numbered` — every feed that a host arrives at is numbered.
* `Numbered.nodup` — no two slots of a numbered feed have the same number.
* `checkWatermark_of_same` — what the check of the watermark looks at.
-/

namespace Dashboard

namespace Feed

variable {α η κ ω : Type}

/-! ### Operations -/

/-- What a host can do to a feed. -/
inductive Operation (α η : Type) where
  /-- Adds a page of archived entries. -/
  | archive (page : List α)
  /-- Adds a realtime entry. -/
  | realtime (entry : α)
  /-- Empties the feed. -/
  | reset
  /-- Keeps the newest entries, at most a limit. -/
  | compact (limit : Nat)
  /-- Keeps the newest entries, as many as the feed is set to keep. -/
  | compactToLimit
  /-- Takes the view if it has changed. -/
  | poll
  /-- Replaces the handler of the watermark. -/
  | handler (handler : η)

/-! ### New feeds -/

/-- The feeds that a host can begin with: a new feed, set up in any way. -/
inductive New : Feed α η → Prop
  | ofSizing {sizing : Sizing} {f : Feed α η} : ofSizing sizing = .ok f → New f
  | withPolicy {f : Feed α η} (policy : Policy) : New f → New (f.withPolicy policy)
  | withCompactLimit {f : Feed α η} (limit : Nat) : New f → New (f.withCompactLimit limit)
  | withHandler {f : Feed α η} (handler : η) : New f → New (f.withHandler handler)

/-- A feed that nothing has been entered into. -/
def blank (sizing : Sizing) (handler : Option η) (compactLimit : Nat) : Feed α η where
  sizing
  archive := []
  realtime := []
  nextNumber := 0
  watermarkReached := false
  handler
  dirty := false
  dropped := 0
  overflowTold := false
  compactLimit

/-- A feed is made just if its watermark is below its capacity, and it is blank. -/
theorem ofSizing_eq_ok_iff {sizing : Sizing} {f : Feed α η} :
    ofSizing sizing = .ok f ↔
      sizing.watermark < sizing.capacity ∧ f = blank sizing none defaultCompactLimit := by
  rw [ofSizing, ← Sizing.validate_eq_ok_iff]
  cases sizing.validate with
  | error failure => exact ⟨nofun, fun h => nomatch h.1⟩
  | ok valid => exact ⟨fun h => ⟨rfl, (Except.ok.inj h).symm⟩, fun h => congrArg Except.ok h.2.symm⟩

/-- **What a new feed is**: it holds nothing, all its marks are clear, and its sizing makes
sense. The handler and the limit of compaction may be any. -/
theorem new_iff {f : Feed α η} :
    f.New ↔ f.sizing.watermark < f.sizing.capacity ∧ f = blank f.sizing f.handler f.compactLimit := by
  constructor
  · intro h
    induction h with
    | ofSizing h =>
        obtain ⟨hvalid, rfl⟩ := ofSizing_eq_ok_iff.mp h
        exact ⟨hvalid, rfl⟩
    | withPolicy policy _ ih => exact ⟨ih.1, congrArg (withPolicy · policy) ih.2⟩
    | withCompactLimit limit _ ih => exact ⟨ih.1, congrArg (withCompactLimit · limit) ih.2⟩
    | withHandler handler _ ih => exact ⟨ih.1, congrArg (withHandler · handler) ih.2⟩
  · rintro ⟨hvalid, hblank⟩
    have hnew : New (blank f.sizing none f.compactLimit : Feed α η) :=
      .withCompactLimit f.compactLimit (.ofSizing (ofSizing_eq_ok_iff.mpr ⟨hvalid, rfl⟩))
    rw [hblank]
    cases f.handler with
    | none => exact hnew
    | some handler => exact hnew.withHandler handler

section Step

variable [Entry α κ ω] [DecidableEq κ] [Ord ω]

/-- What an operation makes of a feed, and what the feed has to tell about it. -/
def step (f : Feed α η) : Operation α η → Feed α η × List (Signal η)
  | .archive page => (f.addArchive page, [])
  | .realtime entry => f.addRealtime entry
  | .reset => (f.reset, [])
  | .compact limit => (f.compact limit, [])
  | .compactToLimit => (f.compactToLimit, [])
  | .poll => (f.poll.2, [])
  | .handler handler => (f.withHandler handler, [])

/-- What a sequence of operations makes of a feed, and what the feed has to tell. -/
def run (f : Feed α η) : List (Operation α η) → Feed α η × List (Signal η)
  | [] => (f, [])
  | operation :: rest =>
    let (next, told) := f.step operation
    let (last, more) := next.run rest
    (last, told ++ more)

/-- The feeds that a host can arrive at: a new feed, set up in any way, and what any
operation makes of a feed that it can arrive at. -/
inductive Reachable : Feed α η → Prop
  | ofSizing {sizing : Sizing} {f : Feed α η} : ofSizing sizing = .ok f → Reachable f
  | withPolicy {f : Feed α η} (policy : Policy) : Reachable f → Reachable (f.withPolicy policy)
  | withCompactLimit {f : Feed α η} (limit : Nat) :
      Reachable f → Reachable (f.withCompactLimit limit)
  | step {f : Feed α η} (operation : Operation α η) :
      Reachable f → Reachable (f.step operation).1

/-- A run from a reachable feed ends in a reachable feed. -/
theorem Reachable.run {f : Feed α η} (h : f.Reachable) (operations : List (Operation α η)) :
    (f.run operations).1.Reachable := by
  induction operations generalizing f with
  | nil => exact h
  | cons operation rest ih => exact ih (h.step operation)

end Step

/-! ### The numbering -/

/-- The number of every slot is its **insertion sequence**: numbers ascend in the order of
arrival within each store, the stores share none, and the next number exceeds them all. -/
structure Numbered (f : Feed α η) : Prop where
  archive : f.archive.Pairwise fun s t => s.number < t.number
  realtime : f.realtime.Pairwise fun s t => s.number < t.number
  apart : ∀ s ∈ f.archive, ∀ t ∈ f.realtime, s.number ≠ t.number
  below : ∀ s ∈ f.archive ++ f.realtime, s.number < f.nextNumber

/-- No two slots of a numbered feed have the same number. -/
theorem Numbered.nodup {f : Feed α η} (h : f.Numbered) :
    ((f.archive ++ f.realtime).map Slot.number).Nodup := by
  rw [List.nodup_iff_pairwise_ne, List.pairwise_map, List.pairwise_append]
  refine ⟨h.archive.imp ?_, h.realtime.imp ?_, h.apart⟩
  · intro s t hst
    exact Nat.ne_of_lt hst
  · intro s t hst
    exact Nat.ne_of_lt hst

/-- The numbering does not look at anything but the two stores and the counter. -/
theorem Numbered.congr {f g : Feed α η} (h : f.Numbered) (archive : g.archive = f.archive)
    (realtime : g.realtime = f.realtime) (next : g.nextNumber = f.nextNumber) : g.Numbered := by
  refine ⟨?_, ?_, ?_, ?_⟩
  · rw [archive]; exact h.archive
  · rw [realtime]; exact h.realtime
  · rw [archive, realtime]; exact h.apart
  · rw [archive, realtime, next]; exact h.below

/-- A new feed holds nothing. -/
theorem numbered_ofSizing {sizing : Sizing} {f : Feed α η} (h : ofSizing sizing = .ok f) :
    f.Numbered := by
  obtain ⟨-, rfl⟩ := ofSizing_eq_ok_iff.mp h
  exact ⟨.nil, .nil, by simp [blank], by simp [blank]⟩

/-- An emptied feed holds nothing, and its counter goes on. -/
theorem numbered_reset (f : Feed α η) : f.reset.Numbered :=
  ⟨.nil, .nil, by simp [reset], by simp [reset]⟩

/-- The slots of an archived page get the numbers from the counter on: the page comes after the
archive, and within it the index decides. -/
theorem Numbered.addArchive {f : Feed α η} (h : f.Numbered) (page : List α) :
    (f.addArchive page).Numbered := by
  have fresh : ∀ s ∈ page.mapIdx (fun i entry => (⟨f.nextNumber + i, entry⟩ : Slot α)),
      f.nextNumber ≤ s.number ∧ s.number < f.nextNumber + page.length := by
    intro s hs
    obtain ⟨i, hi, rfl⟩ := List.mem_mapIdx.mp hs
    dsimp only
    omega
  have old : ∀ s ∈ f.archive ++ f.realtime, s.number < f.nextNumber := h.below
  refine ⟨?_, h.realtime, ?_, ?_⟩
  · refine List.pairwise_append.mpr ⟨h.archive, ?_, ?_⟩
    · rw [List.pairwise_iff_getElem]
      intro i j hi hj hij
      simp only [List.getElem_mapIdx]
      omega
    · intro s hs t ht
      have hold := old s (List.mem_append_left _ hs)
      have hnew := (fresh t ht).1
      omega
  · intro s hs t ht
    rcases List.mem_append.mp hs with hs | hs
    · exact h.apart s hs t ht
    · have hold := old t (List.mem_append_right _ ht)
      have hnew := (fresh s hs).1
      omega
  · intro s hs
    show s.number < f.nextNumber + page.length
    rcases List.mem_append.mp hs with hs | hs
    · rcases List.mem_append.mp hs with hs | hs
      · have hold := old s (List.mem_append_left _ hs)
        omega
      · exact (fresh s hs).2
    · have hold := old s (List.mem_append_right _ hs)
      omega

/-- Looking at the watermark takes no number. -/
@[simp] theorem nextNumber_checkWatermark (f : Feed α η) :
    f.checkWatermark.1.nextNumber = f.nextNumber := by
  rw [checkWatermark]
  split
  · rfl
  · rfl

/-- **The check looks at little**: at its mark, the watermark, the number of realtime entries
and the handler. Whatever changes a feed without changing these goes along with the check. -/
theorem checkWatermark_of_same {f : Feed α η} (change : Feed α η → Feed α η)
    (reached : (change f).watermarkReached = f.watermarkReached)
    (watermark : (change f).sizing.watermark = f.sizing.watermark)
    (length : (change f).realtime.length = f.realtime.length)
    (handler : (change f).handler = f.handler)
    (mark : { change f with watermarkReached := true } =
      change { f with watermarkReached := true }) :
    (change f).checkWatermark = (change f.checkWatermark.1, f.checkWatermark.2) := by
  have told := congrArg (fun handler => handler.toList.map Signal.watermark) handler
  rw [checkWatermark, checkWatermark, reached, watermark, length]
  split
  · exact Prod.ext mark told
  · rfl

/-- A realtime entry either does not fit, or it gets the number of the counter. -/
theorem Numbered.addRealtime {f : Feed α η} (h : f.Numbered) (entry : α) :
    (f.addRealtime entry).1.Numbered := by
  rw [Feed.addRealtime]
  split
  · exact h.congr rfl rfl rfl
  · refine Numbered.congr (f := { f with
        realtime := f.realtime ++ [⟨f.nextNumber, entry⟩]
        nextNumber := f.nextNumber + 1
        dirty := true }) ?_ (by simp) (by simp) (by simp)
    have old : ∀ s ∈ f.archive ++ f.realtime, s.number < f.nextNumber := h.below
    refine ⟨h.archive, ?_, ?_, ?_⟩
    · refine List.pairwise_append.mpr ⟨h.realtime, List.pairwise_singleton _ _, ?_⟩
      intro s hs t ht
      rw [List.mem_singleton] at ht
      subst ht
      exact old s (List.mem_append_right _ hs)
    · intro s hs t ht
      rcases List.mem_append.mp ht with ht | ht
      · exact h.apart s hs t ht
      · rw [List.mem_singleton] at ht
        subst ht
        exact Nat.ne_of_lt (old s (List.mem_append_left _ hs))
    · intro s hs
      show s.number < f.nextNumber + 1
      rw [← List.append_assoc] at hs
      rcases List.mem_append.mp hs with hs | hs
      · exact Nat.lt_succ_of_lt (old s hs)
      · rw [List.mem_singleton] at hs
        subst hs
        exact Nat.lt_succ_self _

section Step

variable [Entry α κ ω] [DecidableEq κ] [Ord ω]

/-- Compaction empties the feed and enters what it keeps as one page. -/
theorem numbered_compact (f : Feed α η) (limit : Nat) : (f.compact limit).Numbered :=
  (numbered_reset f).addArchive _

/-- Polling clears the mark that something has changed, and nothing else. -/
theorem poll_snd (f : Feed α η) : f.poll.2 = { f with dirty := false } := by
  rw [poll]
  split
  · rfl
  · next hclear =>
    rw [Bool.not_eq_true] at hclear
    rw [← hclear]

/-- A poll leaves the numbers as they are. -/
theorem Numbered.poll {f : Feed α η} (h : f.Numbered) : f.poll.2.Numbered := by
  rw [poll_snd]
  exact h.congr rfl rfl rfl

/-- **Every operation keeps the numbering.** -/
theorem Numbered.step {f : Feed α η} (h : f.Numbered) (operation : Operation α η) :
    (f.step operation).1.Numbered := by
  cases operation with
  | archive page => exact h.addArchive page
  | realtime entry => exact h.addRealtime entry
  | reset => exact numbered_reset f
  | compact limit => exact numbered_compact f limit
  | compactToLimit => exact numbered_compact f f.compactLimit
  | poll => exact h.poll
  | handler handler => exact h.congr rfl rfl rfl

/-- **Every reachable feed is numbered**, by induction on how it is reached. -/
theorem Reachable.numbered {f : Feed α η} (h : f.Reachable) : f.Numbered := by
  induction h with
  | ofSizing h => exact numbered_ofSizing h
  | withPolicy policy _ ih => exact ih.congr rfl rfl rfl
  | withCompactLimit limit _ ih => exact ih.congr rfl rfl rfl
  | step operation _ ih => exact ih.step operation

end Step

end Feed

end Dashboard
