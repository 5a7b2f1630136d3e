import Dashboard.Proofs.Feed.Confluence

/-!
# The Watermark of a Feed

A feed calls the handler of its watermark when it holds as many realtime entries as the
watermark says, to have its host do something before entries are dropped. A **cycle** is what
lies between two resets or compactions. This module shows that the handler is called once in
a cycle at most, and with which operation.

The mark that the watermark has been reached could be out of step with the number of entries
that are held, since they are changed by different parts of the feed. The invariant `Marked`
says that it never is: the mark is set exactly if enough entries are held. Within a cycle
the number of entries never falls and grows by at most one with an operation. So there is at
most one operation that brings it to the watermark, and this is where the handler is called.

## Convention

A watermark of zero is reached with the first realtime entry, since it is only then that the
feed looks at it. So the number of entries that count is `Sizing.mark`, which is at least one.

## Main results

* `addRealtime_cases` — all that a realtime entry can do.
* `Reachable.marked` — the mark and the number of entries of a reachable feed agree.
* `calls_step` — an operation calls the handler exactly if it reaches the watermark.
* `exists_reaches` — before the watermark is passed it is reached.
* `calls_of_begins` — the handler in a cycle.
-/

namespace Dashboard

/-- With how many realtime entries the watermark is reached. -/
def Sizing.mark (s : Sizing) : Nat :=
  max 1 s.watermark

namespace Feed

variable {α η κ ω : Type}

/-! ### Calls and cycles -/

/-- The handlers that signals ask to be called. -/
def calls (told : List (Signal η)) : List η :=
  told.filterMap fun
    | .watermark handler => some handler
    | .overflow _ => none

/-- Whether a cycle ends with an operation. -/
def Operation.endsCycle : Operation α η → Bool
  | .reset | .compact _ | .compactToLimit => true
  | .archive _ | .realtime _ | .poll | .handler _ => false

/-- The operations between two resets or compactions. -/
def IsCycle (operations : List (Operation α η)) : Prop :=
  ∀ operation ∈ operations, operation.endsCycle = false

section Step

variable [Entry α κ ω] [DecidableEq κ] [Ord ω]

/-- An operation **reaches** the watermark if it is a realtime entry that brings the number
of those that are held to it. -/
def Reaches (f : Feed α η) (operation : Operation α η) : Prop :=
  ∃ entry, operation = .realtime entry ∧ f.realtime.length < f.sizing.mark ∧
    (f.step operation).1.realtime.length = f.sizing.mark

/-- An operation **drops** its realtime entry if this counts as dropped. -/
def Drops (f : Feed α η) (operation : Operation α η) : Prop :=
  ∃ entry, operation = .realtime entry ∧ (f.step operation).1.dropped = f.dropped + 1

/-- The feeds at which a cycle **begins**: a new feed, set up in any way, and a feed that has
just been reset or compacted. -/
inductive Begins : Feed α η → Prop
  | ofSizing {sizing : Sizing} {f : Feed α η} : ofSizing sizing = .ok f → Begins f
  | withPolicy {f : Feed α η} (policy : Policy) : Begins f → Begins (f.withPolicy policy)
  | withCompactLimit {f : Feed α η} (limit : Nat) :
      Begins f → Begins (f.withCompactLimit limit)
  | step {f : Feed α η} {operation : Operation α η} : f.Reachable →
      operation.endsCycle = true → Begins (f.step operation).1

end Step

/-! ### What a realtime entry does -/

/-- Looking at the watermark leaves the sizing as it is. -/
@[simp] theorem sizing_checkWatermark (f : Feed α η) :
    f.checkWatermark.1.sizing = f.sizing := by
  rw [checkWatermark]
  split
  · rfl
  · rfl

/-- It drops nothing. -/
@[simp] theorem dropped_checkWatermark (f : Feed α η) :
    f.checkWatermark.1.dropped = f.dropped := by
  rw [checkWatermark]
  split
  · rfl
  · rfl

/-- The check sets the mark if there are enough entries, and asks for a call if the mark was
not set before. -/
theorem checkWatermark_eq (f : Feed α η) :
    f.checkWatermark.1.watermarkReached =
        (f.watermarkReached || decide (f.sizing.watermark ≤ f.realtime.length)) ∧
      calls f.checkWatermark.2 =
        if f.watermarkReached = false ∧ f.sizing.watermark ≤ f.realtime.length then
          f.handler.toList else [] := by
  rw [checkWatermark]
  cases hreached : f.watermarkReached with
  | true => simp [calls, hreached]
  | false =>
      by_cases hle : f.sizing.watermark ≤ f.realtime.length
      · cases f.handler <;> simp [calls, hle]
      · simp [calls, hle, hreached]

/-- **What a realtime entry can do.** If the feed is full it is dropped, nothing is called,
and the entries and the mark stay. Otherwise it is held, and the mark is set and the handler
called as the number of entries says. -/
theorem addRealtime_cases (f : Feed α η) (entry : α) :
    (f.sizing.capacity ≤ f.realtime.length ∧
      (f.addRealtime entry).1.realtime.length = f.realtime.length ∧
      (f.addRealtime entry).1.watermarkReached = f.watermarkReached ∧
      calls (f.addRealtime entry).2 = []) ∨
    (f.realtime.length < f.sizing.capacity ∧
      (f.addRealtime entry).1.realtime.length = f.realtime.length + 1 ∧
      (f.addRealtime entry).1.dropped = f.dropped ∧
      (f.addRealtime entry).1.watermarkReached =
        (f.watermarkReached || decide (f.sizing.watermark ≤ f.realtime.length + 1)) ∧
      calls (f.addRealtime entry).2 =
        if f.watermarkReached = false ∧ f.sizing.watermark ≤ f.realtime.length + 1 then
          f.handler.toList else []) := by
  rw [addRealtime]
  by_cases hfull : f.isFull = true
  · have hle : f.sizing.capacity ≤ f.realtime.length := of_decide_eq_true hfull
    rw [if_pos hfull]
    refine .inl ⟨hle, rfl, rfl, ?_⟩
    rw [drop]
    split
    · rfl
    · rfl
  · have hlt : f.realtime.length < f.sizing.capacity := by
      rw [isFull, decide_eq_true_eq] at hfull
      omega
    rw [if_neg hfull]
    obtain ⟨hreached, hcalls⟩ := checkWatermark_eq { f with
      realtime := f.realtime ++ [⟨f.nextNumber, entry⟩]
      nextNumber := f.nextNumber + 1
      dirty := true }
    simp only [List.length_append, List.length_singleton] at hreached hcalls
    exact .inr ⟨hlt, by simp, by simp, hreached, hcalls⟩

/-- A realtime entry leaves the sizing as it is. -/
theorem sizing_addRealtime (f : Feed α η) (entry : α) :
    (f.addRealtime entry).1.sizing = f.sizing := by
  rw [addRealtime]
  split
  · rfl
  · rw [sizing_checkWatermark]

/-! ### The mark -/

/-- The sizing of a feed makes sense, and the mark that the watermark has been reached is set
exactly if enough realtime entries are held. -/
structure Marked (f : Feed α η) : Prop where
  sizing : f.sizing.watermark < f.sizing.capacity
  mark : f.watermarkReached = decide (f.sizing.mark ≤ f.realtime.length)

/-- Where no realtime entries are held, the mark is to be clear. -/
theorem marked_of_empty {f : Feed α η} (hsizing : f.sizing.watermark < f.sizing.capacity)
    (hreached : f.watermarkReached = false) (hempty : f.realtime = []) : f.Marked := by
  refine ⟨hsizing, ?_⟩
  rw [hreached, hempty, eq_comm, decide_eq_false_iff_not, Sizing.mark, List.length_nil]
  omega

/-- A new feed has a sizing that makes sense, and holds nothing. -/
theorem ofSizing_eq_ok {sizing : Sizing} {f : Feed α η} (h : ofSizing sizing = .ok f) :
    f.Marked ∧ f.realtime = [] := by
  obtain ⟨hvalid, rfl⟩ := ofSizing_eq_ok_iff.mp h
  exact ⟨marked_of_empty hvalid rfl rfl, rfl⟩

/-- A realtime entry leaves the mark in step with the number of entries. -/
theorem Marked.addRealtime {f : Feed α η} (h : f.Marked) (entry : α) :
    (f.addRealtime entry).1.Marked := by
  have hsizing := sizing_addRealtime f entry
  refine ⟨by rw [hsizing]; exact h.sizing, ?_⟩
  rcases addRealtime_cases f entry with ⟨-, hlength, hreached, -⟩ | ⟨-, hlength, -, hreached, -⟩
  · rw [hreached, hsizing, hlength, h.mark]
  · rw [hreached, hsizing, hlength, h.mark, ← Bool.decide_or, decide_eq_decide, Sizing.mark]
    omega

/-- **A realtime entry calls the handler exactly if it reaches the watermark.** A full feed holds
more than the watermark says, so it has called before. -/
theorem Marked.calls_addRealtime {f : Feed α η} (h : f.Marked) (entry : α) :
    calls (f.addRealtime entry).2 =
      if f.realtime.length < f.sizing.mark ∧
          (f.addRealtime entry).1.realtime.length = f.sizing.mark then
        f.handler.toList else [] := by
  have hvalid := h.sizing
  have hmark : f.watermarkReached = false ↔ f.realtime.length < f.sizing.mark := by
    rw [h.mark, decide_eq_false_iff_not, Nat.not_le]
  rcases addRealtime_cases f entry with ⟨hfull, hlength, -, hcalls⟩ | ⟨-, hlength, -, -, hcalls⟩
  · have hpast : f.sizing.mark ≤ f.realtime.length := by
      rw [Sizing.mark]
      omega
    rw [hcalls, if_neg]
    omega
  · rw [hcalls, hlength]
    refine if_congr ?_ rfl rfl
    rw [hmark, Sizing.mark]
    omega

section Run

variable [Entry α κ ω] [DecidableEq κ] [Ord ω]

/-- So does a poll. -/
theorem sizing_poll (f : Feed α η) : f.poll.2.sizing = f.sizing := by
  rw [poll_snd]

/-- A poll leaves the realtime entries as they are. -/
theorem realtime_poll (f : Feed α η) : f.poll.2.realtime = f.realtime := by
  rw [poll_snd]

/-- It does not change whether the watermark has been reached. -/
theorem watermarkReached_poll (f : Feed α η) :
    f.poll.2.watermarkReached = f.watermarkReached := by
  rw [poll_snd]

/-- No operation changes the sizing. -/
theorem sizing_step (f : Feed α η) (operation : Operation α η) :
    (f.step operation).1.sizing = f.sizing := by
  cases operation with
  | realtime entry => exact sizing_addRealtime f entry
  | poll => exact sizing_poll f
  | _ => rfl

/-- No operation changes the sizing. -/
theorem sizing_run (f : Feed α η) (operations : List (Operation α η)) :
    (f.run operations).1.sizing = f.sizing := by
  induction operations generalizing f with
  | nil => rfl
  | cons operation rest ih => exact (ih (f.step operation).1).trans (sizing_step f operation)

/-- What ends a cycle leaves no realtime entries and a clear mark. -/
theorem empty_of_endsCycle (f : Feed α η) {operation : Operation α η}
    (h : operation.endsCycle = true) :
    (f.step operation).1.realtime = [] ∧ (f.step operation).1.watermarkReached = false := by
  cases operation with
  | reset | compact | compactToLimit => exact ⟨rfl, rfl⟩
  | archive | realtime | poll | handler => cases h

/-- **Every operation keeps the mark in step.** -/
theorem Marked.step {f : Feed α η} (h : f.Marked) (operation : Operation α η) :
    (f.step operation).1.Marked := by
  cases hends : operation.endsCycle with
  | true =>
      obtain ⟨hempty, hreached⟩ := empty_of_endsCycle f hends
      refine marked_of_empty ?_ hreached hempty
      rw [sizing_step]
      exact h.sizing
  | false =>
      cases operation with
      | realtime entry => exact h.addRealtime entry
      | archive page => exact ⟨h.sizing, h.mark⟩
      | handler handler => exact ⟨h.sizing, h.mark⟩
      | poll =>
          refine ⟨(sizing_poll f).symm ▸ h.sizing, ?_⟩
          show f.poll.2.watermarkReached = _
          rw [watermarkReached_poll, h.mark]
          show _ = decide (f.poll.2.sizing.mark ≤ f.poll.2.realtime.length)
          rw [sizing_poll, realtime_poll]
      | reset | compact | compactToLimit => cases hends

/-- **The mark of a reachable feed is in step**, by induction on how it is reached. -/
theorem Reachable.marked {f : Feed α η} (h : f.Reachable) : f.Marked := by
  induction h with
  | ofSizing hnew => exact (ofSizing_eq_ok hnew).1
  | withPolicy policy _ ih => exact ⟨ih.sizing, ih.mark⟩
  | withCompactLimit limit _ ih => exact ⟨ih.sizing, ih.mark⟩
  | step operation _ ih => exact ih.step operation

/-- **An operation calls the handler exactly if it reaches the watermark**, and then the one
that is installed. -/
theorem Marked.calls_step {f : Feed α η} (h : f.Marked) (operation : Operation α η) :
    (f.Reaches operation → calls (f.step operation).2 = f.handler.toList) ∧
      (¬ f.Reaches operation → calls (f.step operation).2 = []) := by
  cases operation with
  | realtime entry =>
      have hcalls := h.calls_addRealtime entry
      constructor
      · rintro ⟨_, -, hlt, hreach⟩
        exact hcalls.trans (if_pos ⟨hlt, hreach⟩)
      · intro hnot
        refine hcalls.trans (if_neg ?_)
        rintro ⟨hlt, hreach⟩
        exact hnot ⟨entry, rfl, hlt, hreach⟩
  | _ => exact ⟨nofun, fun _ => rfl⟩

/-! ### Within a cycle -/

/-- Within a cycle the number of realtime entries stays, or a realtime entry adds one. -/
theorem length_realtime_step {f : Feed α η} {operation : Operation α η}
    (h : operation.endsCycle = false) :
    (f.step operation).1.realtime.length = f.realtime.length ∨
      (∃ entry, operation = .realtime entry) ∧
        (f.step operation).1.realtime.length = f.realtime.length + 1 := by
  cases operation with
  | realtime entry =>
      rcases addRealtime_cases f entry with ⟨-, hlength, -⟩ | ⟨-, hlength, -⟩
      · exact .inl hlength
      · exact .inr ⟨⟨entry, rfl⟩, hlength⟩
  | archive page => exact .inl rfl
  | handler handler => exact .inl rfl
  | poll => exact .inl (congrArg List.length (realtime_poll f))
  | reset | compact | compactToLimit => cases h

/-- Once the watermark has been reached, it is not reached again in the same cycle, and the
handler is not called. -/
theorem calls_run_of_mark_le {f : Feed α η} (h : f.Marked)
    (hmark : f.sizing.mark ≤ f.realtime.length) {cycle : List (Operation α η)}
    (hcycle : IsCycle cycle) :
    calls (f.run cycle).2 = [] := by
  induction cycle generalizing f with
  | nil => rfl
  | cons operation rest ih =>
      obtain ⟨hfirst, hrest⟩ := List.forall_mem_cons.mp hcycle
      have hsilent : calls (f.step operation).2 = [] := by
        refine (h.calls_step operation).2 ?_
        rintro ⟨-, -, hlt, -⟩
        omega
      have hnext : (f.step operation).1.sizing.mark ≤ (f.step operation).1.realtime.length := by
        have hlength := length_realtime_step (f := f) hfirst
        rw [sizing_step]
        omega
      have hlater := ih (h.step operation) hnext hrest
      rw [run, calls, List.filterMap_append, ← calls, ← calls, hsilent, hlater, List.nil_append]

/-- **The handler is called at most once in a cycle**, as a watermark that is reached now is not
reached again. -/
theorem length_calls_run_le {f : Feed α η} (h : f.Marked) {cycle : List (Operation α η)}
    (hcycle : IsCycle cycle) :
    (calls (f.run cycle).2).length ≤ 1 := by
  induction cycle generalizing f with
  | nil => exact Nat.zero_le _
  | cons operation rest ih =>
      obtain ⟨hfirst, hrest⟩ := List.forall_mem_cons.mp hcycle
      rw [run, calls, List.filterMap_append, ← calls, ← calls, List.length_append]
      by_cases hreaches : f.Reaches operation
      · have hcall := (h.calls_step operation).1 hreaches
        obtain ⟨-, -, -, hlength⟩ := hreaches
        have hnext : (f.step operation).1.sizing.mark ≤
            (f.step operation).1.realtime.length := by
          rw [sizing_step, hlength]
        have hlater := calls_run_of_mark_le (h.step operation) hnext hrest
        rw [hcall, hlater, Option.length_toList]
        cases f.handler <;> simp
      · rw [(h.calls_step operation).2 hreaches]
        have hlater := ih (h.step operation) hrest
        simpa using hlater

/-- **Before the watermark is passed it is reached**: within a cycle, between a feed that
holds too few entries for it and one that holds enough, there is an operation that reaches
it. -/
theorem exists_reaches {f : Feed α η} (hbelow : f.realtime.length < f.sizing.mark)
    {cycle : List (Operation α η)}
    (hcycle : IsCycle cycle)
    (habove : f.sizing.mark ≤ (f.run cycle).1.realtime.length) :
    ∃ before operation after, cycle = before ++ operation :: after ∧
      (f.run before).1.Reaches operation := by
  induction cycle generalizing f with
  | nil =>
      have habove' : f.sizing.mark ≤ f.realtime.length := habove
      omega
  | cons operation rest ih =>
      obtain ⟨hfirst, hrest⟩ := List.forall_mem_cons.mp hcycle
      by_cases hnext : (f.step operation).1.realtime.length < f.sizing.mark
      · have hsizing := sizing_step f operation
        obtain ⟨before, reaching, after, rfl, hreaches⟩ :=
          ih (by rw [hsizing]; exact hnext) hrest (by rw [hsizing]; exact habove)
        exact ⟨operation :: before, reaching, after, rfl, hreaches⟩
      · rcases length_realtime_step (f := f) hfirst with hlength | ⟨⟨entry, rfl⟩, hlength⟩
        · omega
        · have hexact : (f.step (.realtime entry)).1.realtime.length = f.sizing.mark := by omega
          exact ⟨[], .realtime entry, rest, rfl, entry, rfl, hbelow, hexact⟩

/-- A feed that drops an entry holds at least as many as the watermark says. -/
theorem Marked.mark_le_of_drops {f : Feed α η} (h : f.Marked) {operation : Operation α η}
    (hdrops : f.Drops operation) : f.sizing.mark ≤ f.realtime.length := by
  obtain ⟨entry, rfl, hdropped⟩ := hdrops
  have hvalid := h.sizing
  rcases addRealtime_cases f entry with ⟨hfull, -⟩ | ⟨-, -, hsame, -⟩
  · rw [Sizing.mark]
    omega
  · have hdropped' : (f.addRealtime entry).1.dropped = f.dropped + 1 := hdropped
    omega

/-- A cycle begins at a reachable feed without realtime entries. -/
theorem Begins.reachable {f : Feed α η} (h : f.Begins) : f.Reachable ∧ f.realtime = [] := by
  induction h with
  | ofSizing hnew => exact ⟨.ofSizing hnew, (ofSizing_eq_ok hnew).2⟩
  | withPolicy policy _ ih => exact ⟨.withPolicy policy ih.1, ih.2⟩
  | withCompactLimit limit _ ih => exact ⟨.withCompactLimit limit ih.1, ih.2⟩
  | step hreach hends => exact ⟨.step _ hreach, (empty_of_endsCycle _ hends).1⟩

/-- **The watermark in a cycle.** The handler is called at most once. It is called exactly
with the realtime entry that brings the number of those that are held to the watermark, if
there is one installed at that moment. No realtime entry is dropped before the watermark has
been reached. -/
theorem calls_of_begins {f : Feed α η} (h : f.Begins) {cycle : List (Operation α η)}
    (hcycle : IsCycle cycle) :
    (calls (f.run cycle).2).length ≤ 1 ∧
    ∀ before operation after, cycle = before ++ operation :: after →
      ((f.run before).1.Reaches operation →
        calls ((f.run before).1.step operation).2 = (f.run before).1.handler.toList) ∧
      (¬ (f.run before).1.Reaches operation →
        calls ((f.run before).1.step operation).2 = []) ∧
      ((f.run before).1.Drops operation →
        ∃ early reaching late, before = early ++ reaching :: late ∧
          (f.run early).1.Reaches reaching) := by
  obtain ⟨hreach, hempty⟩ := h.reachable
  refine ⟨length_calls_run_le hreach.marked hcycle, ?_⟩
  rintro before operation after rfl
  have hmarked := (hreach.run before).marked
  refine ⟨(hmarked.calls_step operation).1, (hmarked.calls_step operation).2, ?_⟩
  intro hdrops
  have hbefore : IsCycle before := by
    intro operation hmem
    exact hcycle operation (List.mem_append_left _ hmem)
  have hbelow : f.realtime.length < f.sizing.mark := by
    rw [hempty, Sizing.mark, List.length_nil]
    omega
  have hle := hmarked.mark_le_of_drops hdrops
  rw [sizing_run] at hle
  exact exists_reaches hbelow hbefore hle

end Run

/-! ### A late handler -/

/-- A new feed for a single realtime entry, with a watermark of zero. -/
def forOne : Feed Activity Unit where
  sizing := ⟨1, 0, .byId⟩
  archive := []
  realtime := []
  nextNumber := 0
  watermarkReached := false
  handler := none
  dirty := false
  dropped := 0
  overflowTold := false
  compactLimit := defaultCompactLimit

/-- That feed after its only entry, which no handler was told of, and a compaction. -/
def compactedOne : Feed Activity Unit :=
  ((forOne.run [.realtime (activityAt "a" 5 "done")]).1.step (.compact 1)).1

/-- A page, a handler, an entry that reaches the watermark, and one that is dropped. -/
def lateHandler : List (Operation Activity Unit) :=
  [.archive [activityAt "b" 4 "done"], .handler (), .realtime (activityAt "c" 6 "running"),
    .realtime (activityAt "d" 7 "running")]

/-- In the cycle after the compaction the handler is called once, with the first realtime
entry, although the watermark is zero and the page came in before; and the second entry is
dropped after that. -/
theorem calls_lateHandler :
    compactedOne.Begins ∧ IsCycle lateHandler ∧
      calls (compactedOne.run lateHandler).2 = [()] ∧
      calls ((compactedOne.run (lateHandler.take 2)).1.step
        (.realtime (activityAt "c" 6 "running"))).2 = [()] ∧
      ∃ early reaching late, lateHandler.take 3 = early ++ reaching :: late ∧
        (compactedOne.run early).1.Reaches reaching := by
  have hnew : ofSizing ⟨1, 0, .byId⟩ = .ok forOne := rfl
  have hbegins : compactedOne.Begins := .step ((Reachable.ofSizing hnew).run _) rfl
  have hcycle : IsCycle lateHandler := by
    intro operation hmem
    simp only [lateHandler, List.mem_cons, List.not_mem_nil, or_false] at hmem
    rcases hmem with rfl | rfl | rfl | rfl <;> rfl
  obtain ⟨-, hall⟩ := calls_of_begins hbegins hcycle
  have hreaches : (compactedOne.run (lateHandler.take 2)).1.Reaches
      (.realtime (activityAt "c" 6 "running")) := ⟨_, rfl, by decide, rfl⟩
  have hdrops : (compactedOne.run (lateHandler.take 3)).1.Drops
      (.realtime (activityAt "d" 7 "running")) := ⟨_, rfl, rfl⟩
  exact ⟨hbegins, hcycle, rfl, (hall _ _ [_] rfl).1 hreaches, (hall _ _ [] rfl).2.2 hdrops⟩

end Feed

end Dashboard
