import Dashboard.Proofs.Feed.Snapshot
import Dashboard.Scrollback

/-!
# Polling

A host shows a view of a feed or a scrollback and polls it now and then. A poll hands over
the view if something has changed since the last poll; otherwise it hands over nothing, and
the host goes on showing what it has. Whether something has changed is a mark that the
operations set. If one of them changed the view and left the mark clear, then the host would
show an old view until something else happened.

What a host shows is **current** if it is the view of the store or the mark is set. This is
an invariant as soon as every single operation is honest about what it does: it hands over
the view as it then is, or it hands over nothing, and then it sets the mark or leaves the
mark and the view alone. An operation may set the mark without changing the view, as an
empty page does.

## Convention

A change of the policy of a feed is not among its operations. It is part of setting up a new
feed, which has nothing to show under either policy.

## Main results

* `Polling.Current.shown` — what a host shows stays current, whatever it does.
* `Feed.honest_step`, `Scrollback.honest_step` — the operations of both stores are honest.
* `shown_eq_snapshot` — after every poll a host shows the snapshot.
-/

namespace Dashboard

/-! ### Stores that are polled -/

/-- What an operation on a store hands over to the host, and what it does to the view and to
the mark that something has changed, where it does so **honestly**. -/
structure Polling (σ ι ν : Type) where
  step : σ → ι → σ
  /-- The view, if the operation is a poll and something has changed. -/
  handed? : σ → ι → Option ν
  view : σ → ν
  /-- Whether something has changed since the last poll. -/
  changed : σ → Bool
  honest : ∀ s operation,
    handed? s operation = some (view (step s operation)) ∨
      handed? s operation = none ∧
        (changed (step s operation) = true ∨
          changed (step s operation) = changed s ∧ view (step s operation) = view s)

namespace Polling

variable {σ ι ν : Type} {p : Polling σ ι ν} {s : σ} {showing : ν}

/-- What a sequence of operations makes of a store. -/
def after (p : Polling σ ι ν) (s : σ) (operations : List ι) : σ :=
  operations.foldl p.step s

/-- What a host shows after a sequence of operations: what was last handed over to it, or
what it showed at the beginning if nothing was. -/
def shown (p : Polling σ ι ν) (s : σ) (showing : ν) : List ι → ν
  | [] => showing
  | operation :: rest => p.shown (p.step s operation) ((p.handed? s operation).getD showing) rest

/-- What a host shows is **current**: it is the view of the store, unless the mark is set. -/
def Current (p : Polling σ ι ν) (s : σ) (showing : ν) : Prop :=
  p.changed s = false → showing = p.view s

/-- **An honest operation keeps what is shown current.** -/
theorem Current.step (h : p.Current s showing) (operation : ι) :
    p.Current (p.step s operation) ((p.handed? s operation).getD showing) := by
  intro hclear
  rcases p.honest s operation with hhanded | ⟨hnothing, hmark⟩
  · rw [hhanded, Option.getD_some]
  · rw [hnothing, Option.getD_none]
    rcases hmark with hset | ⟨hsame, hview⟩
    · rw [hset] at hclear
      cases hclear
    · rw [hview]
      exact h (hsame.symm.trans hclear)

/-- **What a host shows stays current**, by induction on what it does. -/
theorem Current.shown (h : p.Current s showing) (operations : List ι) :
    p.Current (p.after s operations) (p.shown s showing operations) := by
  induction operations generalizing s showing with
  | nil => exact h
  | cons operation rest ih => exact ih (h.step operation)

/-- After an operation that clears the mark, a host shows the view of the store. -/
theorem Current.shown_concat (h : p.Current s showing) {operation : ι}
    (hclears : ∀ s, p.changed (p.step s operation) = false) (operations : List ι) :
    p.shown s showing (operations ++ [operation]) =
      p.view (p.after s (operations ++ [operation])) := by
  refine h.shown (operations ++ [operation]) ?_
  rw [after, List.foldl_append]
  exact hclears _

end Polling

/-! ### Feeds -/

namespace Feed

variable {α η κ ω : Type} [Entry α κ ω] [DecidableEq κ] [Ord ω]

/-- What an operation hands over to the host: the view, if it is a poll and something has
changed. -/
def handed? (f : Feed α η) : Operation α η → Option (List α)
  | .poll => f.poll.1
  | _ => none

/-- A snapshot depends on the policy and on the two stores. -/
theorem snapshot_congr {f g : Feed α η} (hpolicy : f.sizing.policy = g.sizing.policy)
    (harchive : f.archive = g.archive) (hrealtime : f.realtime = g.realtime) :
    f.snapshot = g.snapshot := by
  rw [snapshot, snapshot, slots, slots, hpolicy, harchive, hrealtime]

/-- A poll leaves the snapshot of a feed as it is. -/
theorem snapshot_poll (f : Feed α η) : f.poll.2.snapshot = f.snapshot := by
  rw [poll_snd]
  exact snapshot_congr rfl rfl rfl

/-- A feed that was polled is not marked as changed. -/
@[simp] theorem dirty_poll (f : Feed α η) : f.poll.2.dirty = false := by
  rw [poll_snd]

omit [Entry α κ ω] [DecidableEq κ] [Ord ω] in
/-- Looking at the watermark does not mark a feed as changed. -/
@[simp] theorem dirty_checkWatermark (f : Feed α η) : f.checkWatermark.1.dirty = f.dirty := by
  rw [checkWatermark]
  split
  · rfl
  · rfl

/-- A realtime entry sets the mark, or it is dropped and changes neither the mark nor the
view. -/
theorem honest_addRealtime (f : Feed α η) (entry : α) :
    (f.addRealtime entry).1.dirty = true ∨
      (f.addRealtime entry).1.dirty = f.dirty ∧
        (f.addRealtime entry).1.snapshot = f.snapshot := by
  rw [addRealtime]
  split
  · exact .inr ⟨rfl, snapshot_congr rfl rfl rfl⟩
  · exact .inl (dirty_checkWatermark _)

/-- **Every operation on a feed is honest.** -/
theorem honest_step (f : Feed α η) (operation : Operation α η) :
    f.handed? operation = some (f.step operation).1.snapshot ∨
      f.handed? operation = none ∧
        ((f.step operation).1.dirty = true ∨
          (f.step operation).1.dirty = f.dirty ∧
            (f.step operation).1.snapshot = f.snapshot) := by
  cases operation with
  | archive | reset | compact | compactToLimit => exact .inr ⟨rfl, .inl rfl⟩
  | realtime entry => exact .inr ⟨rfl, honest_addRealtime f entry⟩
  | handler handler => exact .inr ⟨rfl, .inr ⟨rfl, snapshot_congr rfl rfl rfl⟩⟩
  | poll =>
      show f.poll.1 = some f.poll.2.snapshot ∨ f.poll.1 = none ∧
        (f.poll.2.dirty = true ∨ f.poll.2.dirty = f.dirty ∧ f.poll.2.snapshot = f.snapshot)
      rw [snapshot_poll, dirty_poll, poll]
      cases hdirty : f.dirty with
      | true => exact .inl rfl
      | false => exact .inr ⟨rfl, .inr ⟨rfl, rfl⟩⟩

/-- A feed as a store that is polled. -/
def polling : Polling (Feed α η) (Operation α η) (List α) where
  step f operation := (f.step operation).1
  handed? := handed?
  view := snapshot
  changed := dirty
  honest := honest_step

/-- The state of a polled feed is that of the feed. -/
theorem after_polling (f : Feed α η) (operations : List (Operation α η)) :
    polling.after f operations = (f.run operations).1 := by
  induction operations generalizing f with
  | nil => rfl
  | cons operation rest ih => exact ih (f.step operation).1

/-- A feed that holds nothing has nothing to show, under either policy. -/
theorem snapshot_of_empty {f : Feed α η} (harchive : f.archive = []) (hrealtime : f.realtime = []) :
    f.snapshot = [] := by
  have hslots : f.slots = [] := by
    rw [slots, harchive, hrealtime]
    cases f.sizing.policy <;> rfl
  rw [snapshot, hslots, List.mergeSort_nil, List.map_nil]

/-- A new feed shows nothing. -/
theorem New.snapshot_eq_nil {f : Feed α η} (h : f.New) : f.snapshot = [] := by
  rw [(new_iff.mp h).2]
  exact snapshot_of_empty rfl rfl

/-- After every poll a host of a feed shows its snapshot, which the poll leaves alone. -/
theorem New.shown_poll {f : Feed α η} (h : f.New) (operations : List (Operation α η)) :
    polling.shown f [] (operations ++ [.poll]) = (f.run (operations ++ [.poll])).1.snapshot ∧
      (f.run (operations ++ [.poll])).1.snapshot = (f.run operations).1.snapshot := by
  have hcurrent : polling.Current f [] := fun _ => h.snapshot_eq_nil.symm
  have hclears : ∀ f : Feed α η, polling.changed (polling.step f .poll) = false := dirty_poll
  have hshown := hcurrent.shown_concat hclears operations
  rw [after_polling] at hshown
  refine ⟨hshown, ?_⟩
  rw [← after_polling, ← after_polling, Polling.after, List.foldl_append]
  exact snapshot_poll _

end Feed

/-! ### Scrollbacks -/

namespace Scrollback

variable {α : Type}

/-- What a host can do to a scrollback. -/
inductive Operation (α : Type) where
  /-- Adds an entry. -/
  | push (entry : α)
  /-- Removes all entries. -/
  | reset
  /-- Takes the view if it has changed. -/
  | poll

/-- What an operation makes of a scrollback. -/
def step (s : Scrollback α) : Operation α → Scrollback α
  | .push entry => s.push entry
  | .reset => s.reset
  | .poll => s.poll.2

/-- What a sequence of operations makes of a scrollback. -/
def after (s : Scrollback α) (operations : List (Operation α)) : Scrollback α :=
  operations.foldl step s

/-- What an operation hands over to the host: the view, if it is a poll and something has
changed. -/
def handed? (s : Scrollback α) : Operation α → Option (List α)
  | .poll => s.poll.1
  | _ => none

/-- A poll leaves the snapshot of a scrollback as it is. -/
theorem snapshot_poll (s : Scrollback α) : s.poll.2.snapshot = s.snapshot := by
  rw [poll]
  split
  · rfl
  · rfl

/-- A scrollback that was polled is not marked as changed. -/
@[simp] theorem dirty_poll (s : Scrollback α) : s.poll.2.dirty = false := by
  rw [poll]
  split
  · rfl
  · next h => exact Bool.eq_false_iff.mpr h

/-- **Every operation on a scrollback is honest.** -/
theorem honest_step (s : Scrollback α) (operation : Operation α) :
    s.handed? operation = some (s.step operation).snapshot ∨
      s.handed? operation = none ∧
        ((s.step operation).dirty = true ∨
          (s.step operation).dirty = s.dirty ∧ (s.step operation).snapshot = s.snapshot) := by
  cases operation with
  | push | reset => exact .inr ⟨rfl, .inl rfl⟩
  | poll =>
      show s.poll.1 = some s.poll.2.snapshot ∨ s.poll.1 = none ∧
        (s.poll.2.dirty = true ∨ s.poll.2.dirty = s.dirty ∧ s.poll.2.snapshot = s.snapshot)
      rw [snapshot_poll, dirty_poll, poll]
      cases hdirty : s.dirty with
      | true => exact .inl rfl
      | false => exact .inr ⟨rfl, .inr ⟨rfl, rfl⟩⟩

/-- A scrollback as a store that is polled. -/
def polling : Polling (Scrollback α) (Operation α) (List α) where
  step := step
  handed? := handed?
  view := snapshot
  changed := dirty
  honest := honest_step

/-- A new scrollback is empty and not marked. -/
theorem ofCapacity_eq_ok {capacity : Nat} {s : Scrollback α}
    (h : ofCapacity capacity = .ok s) : s = ⟨capacity, [], false⟩ := by
  rw [ofCapacity] at h
  split at h
  · cases h
  · exact (Except.ok.inj h).symm

/-- After every poll a host of a scrollback shows its snapshot, which the poll leaves
alone. -/
theorem shown_poll {capacity : Nat} {s : Scrollback α} (h : ofCapacity capacity = .ok s)
    (operations : List (Operation α)) :
    polling.shown s [] (operations ++ [.poll]) = (s.after (operations ++ [.poll])).snapshot ∧
      (s.after (operations ++ [.poll])).snapshot = (s.after operations).snapshot := by
  have hcurrent : polling.Current s [] := by
    intro _
    rw [ofCapacity_eq_ok h]
    rfl
  have hclears : ∀ s : Scrollback α, polling.changed (polling.step s .poll) = false := dirty_poll
  refine ⟨hcurrent.shown_concat hclears operations, ?_⟩
  rw [after, List.foldl_append]
  exact snapshot_poll _

end Scrollback

/-! ### No old view -/

/-- **After every poll a host shows the snapshot.** The host of a new feed or scrollback
begins with nothing to show and takes what a poll hands over. Whatever it does, after a poll
it shows the snapshot, whether the poll handed over anything or not; and the poll has not
changed the snapshot. -/
theorem shown_eq_snapshot {α η κ ω β : Type} [Entry α κ ω] [DecidableEq κ] [Ord ω] :
    (∀ {f : Feed α η}, f.New → ∀ operations : List (Feed.Operation α η),
      Feed.polling.shown f [] (operations ++ [.poll]) =
          (f.run (operations ++ [.poll])).1.snapshot ∧
        (f.run (operations ++ [.poll])).1.snapshot = (f.run operations).1.snapshot) ∧
    ∀ {capacity : Nat} {s : Scrollback β}, Scrollback.ofCapacity capacity = .ok s →
      ∀ operations : List (Scrollback.Operation β),
        Scrollback.polling.shown s [] (operations ++ [.poll]) =
            (s.after (operations ++ [.poll])).snapshot ∧
          (s.after (operations ++ [.poll])).snapshot = (s.after operations).snapshot :=
  ⟨fun h operations => h.shown_poll operations,
    fun h operations => Scrollback.shown_poll h operations⟩

/-- A page, realtime entries, a poll, and one more entry that does not fit. -/
def droppedLast : List (Feed.Operation Activity Unit) :=
  [.archive [Feed.activityAt "a" 5 "planned", Feed.activityAt "b" 5 "planned"],
    .realtime (Feed.activityAt "b" 7 "running"), .realtime (Feed.activityAt "c" 8 "running"),
    .realtime (Feed.activityAt "b" 9 "done"), .poll, .realtime (Feed.activityAt "d" 10 "running")]

/-- After the entry that is dropped, the poll hands over nothing, and the host goes on
showing what is still the snapshot. A full scrollback has lost its oldest entry, and its host
has lost it too. -/
theorem shown_droppedLast :
    Feed.forThree.New ∧
      Feed.polling.shown Feed.forThree [] (droppedLast ++ [.poll]) =
        [Feed.activityAt "b" 9 "done", Feed.activityAt "c" 8 "running",
          Feed.activityAt "a" 5 "planned"] ∧
      (Feed.forThree.run droppedLast).1.handed? .poll = none ∧
      Scrollback.ofCapacity 2 = .ok (⟨2, [], false⟩ : Scrollback String) ∧
      Scrollback.polling.shown (⟨2, [], false⟩ : Scrollback String) []
        ([.push "a", .push "b", .poll, .push "c"] ++ [.poll]) = ["c", "b"] := by
  have hsizing : Feed.ofSizing ⟨3, 2, .byId⟩ = .ok Feed.forThree := rfl
  have hnew : Feed.forThree.New := .ofSizing hsizing
  have hcapacity : Scrollback.ofCapacity 2 = .ok (⟨2, [], false⟩ : Scrollback String) := rfl
  obtain ⟨hfeed, hscrollback⟩ := shown_eq_snapshot (α := Activity) (η := Unit) (β := String)
  refine ⟨hnew, ?_, by cbv, hcapacity, ?_⟩
  · rw [(hfeed hnew droppedLast).1]
    cbv
  · rw [(hscrollback hcapacity _).1]
    rfl

end Dashboard
