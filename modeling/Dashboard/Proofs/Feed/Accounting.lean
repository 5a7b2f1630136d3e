import Dashboard.Proofs.Feed.Renewal
import Mathlib.Data.List.DropRight

/-!
# The Accounts of a Feed

A feed holds the first realtime entries of a cycle, as many as its capacity, and drops all
that come after them. What it says about this is kept in three places: the entries that are
held, the count of those that were dropped, and the mark that the overflow was told. This
module shows that the accounts are right in every feed that a host can arrive at. The entries
held and the entries dropped are all that have arrived in the cycle (`Accounted`), and the
warning has been told once if any was dropped.

Only the count is changed by an entry that is dropped. No action looks at the count or at the
mark but to change them, so a feed with another count and another mark (`recount`) is seen to
do the same, whatever is done later, but for the count and the warning.

## Convention

A change of the policy or of the limit of compaction is among the actions that may come
between any two others; it belongs to the cycle in which it happens.

## Main results

* `Accounted.act` — what an action within a cycle does to the accounts.
* `New.accounted` — the accounts of every feed that a host can arrive at.
* `uncounted_observations_recount` — another count is not seen in anything but the count.
* `realtime_accounts` — what is held, what is dropped, what is told and what is seen of it.
-/

namespace Dashboard

namespace Feed

variable {α η κ ω : Type}

/-! ### Cycles of actions -/

/-- Whether a cycle ends with an action. -/
def Action.endsCycle : Action α η → Bool
  | .operate operation => operation.endsCycle
  | .setPolicy _ | .setCompactLimit _ => false

/-- The realtime entry that an action brings. -/
def Action.arrival? : Action α η → Option α
  | .operate (.realtime entry) => some entry
  | _ => none

/-- The realtime entries that arrive with some actions. -/
def arrivals (actions : List (Action α η)) : List α :=
  actions.filterMap Action.arrival?

/-- The actions since the last reset or compaction. -/
def currentCycle (actions : List (Action α η)) : List (Action α η) :=
  actions.rtakeWhile fun action => !action.endsCycle

/-- The actions up to the last reset or compaction, and this one. -/
def pastCycles (actions : List (Action α η)) : List (Action α η) :=
  actions.rdropWhile fun action => !action.endsCycle

/-- The notices of some signals. -/
def notices (told : List (Signal η)) : List Notice :=
  told.filterMap Signal.notice?

/-- The same feed with another count of what was dropped, and another mark that this was
told. -/
def recount (f : Feed α η) (dropped : Nat) (overflowTold : Bool) : Feed α η :=
  { f with dropped, overflowTold }

/-- An observation apart from the count: of what was told only the calls of the handler, and
nothing is counted. -/
def Observation.uncounted (o : Observation α η) : Observation α η :=
  { o with
    told := (calls o.told).map .watermark
    seen := { o.seen with dropped := 0 } }

/-! ### What a realtime entry does to the accounts -/

/-- The check of the watermark tells no notice. -/
theorem notice?_of_mem_checkWatermark {f : Feed α η} {signal : Signal η}
    (h : signal ∈ f.checkWatermark.2) : signal.notice? = none := by
  rw [checkWatermark] at h
  split at h
  · obtain ⟨handler, -, rfl⟩ := List.mem_map.mp h
    rfl
  · cases h

/-- Looking at the watermark tells nothing of an overflow. -/
@[simp] theorem overflowTold_checkWatermark (f : Feed α η) :
    f.checkWatermark.1.overflowTold = f.overflowTold := by
  rw [checkWatermark]
  split
  · rfl
  · rfl

/-- A feed is full if it holds as many realtime entries as its capacity. -/
theorem isFull_iff {f : Feed α η} : f.isFull = true ↔ f.sizing.capacity ≤ f.realtime.length :=
  decide_eq_true_iff

/-- A realtime entry that does not fit is counted, and nothing else changes. -/
theorem addRealtime_of_full {f : Feed α η} (h : f.isFull = true) (entry : α) :
    f.addRealtime entry =
      (f.recount (f.dropped + 1) true,
        if f.overflowTold then [] else [.overflow f.sizing.capacity]) := by
  rw [addRealtime, if_pos h]
  rfl

/-- A realtime entry that fits is held behind the others, and nothing is counted. -/
theorem addRealtime_of_free {f : Feed α η} (h : f.isFull = false) (entry : α) :
    (f.addRealtime entry).1.realtime = f.realtime ++ [⟨f.nextNumber, entry⟩] ∧
      (f.addRealtime entry).1.nextNumber = f.nextNumber + 1 ∧
      (f.addRealtime entry).1.dropped = f.dropped ∧
      (f.addRealtime entry).1.overflowTold = f.overflowTold ∧
      notices (f.addRealtime entry).2 = [] := by
  rw [addRealtime, h, if_neg (by decide)]
  refine ⟨by simp, by simp, by simp, by simp, ?_⟩
  rw [notices, List.filterMap_eq_nil_iff]
  intro signal hmem
  exact notice?_of_mem_checkWatermark hmem

/-! ### The accounts -/

/-- The **accounts** of a feed in a cycle, with the realtime entries that have arrived and
what has been told. -/
structure Accounted (f : Feed α η) (arrived : List α) (told : List (Signal η)) : Prop where
  /-- The first entries are held. -/
  held : f.realtime.map Slot.entry = arrived.take f.sizing.capacity
  /-- All others are counted. -/
  dropped : f.dropped = arrived.length - f.sizing.capacity
  mark : f.overflowTold = decide (0 < f.dropped)
  /-- If there are others, this was told once. -/
  notices : notices told =
    if 0 < f.dropped then
      [.warning ("Realtime buffer full (" ++ toString f.sizing.capacity ++
        " entries), dropping updates until compacted")]
    else []

namespace Accounted

variable {f g : Feed α η} {arrived : List α} {told more : List (Signal η)}

/-- Where nothing has arrived and nothing is counted, nothing is to be told. -/
theorem of_empty (realtime : f.realtime = []) (dropped : f.dropped = 0)
    (mark : f.overflowTold = false) : f.Accounted [] [] := by
  refine ⟨?_, ?_, ?_, ?_⟩
  · rw [realtime, List.map_nil, List.take_nil]
  · rw [dropped, List.length_nil, Nat.zero_sub]
  · rw [mark, dropped]
    rfl
  · rw [dropped]
    rfl

/-- The accounts do not look at the archive, and not at what is told of the watermark. -/
theorem congr (h : f.Accounted arrived told) (capacity : g.sizing.capacity = f.sizing.capacity)
    (realtime : g.realtime = f.realtime) (dropped : g.dropped = f.dropped)
    (mark : g.overflowTold = f.overflowTold) : g.Accounted arrived told := by
  refine ⟨?_, ?_, ?_, ?_⟩
  · rw [realtime, capacity, h.held]
  · rw [dropped, capacity, h.dropped]
  · rw [mark, dropped, h.mark]
  · rw [dropped, capacity, h.notices]

/-- A feed holds as many realtime entries as have arrived, up to its capacity. -/
theorem length_realtime (h : f.Accounted arrived told) :
    f.realtime.length = min f.sizing.capacity arrived.length := by
  have hlength := congrArg List.length h.held
  rwa [List.length_map, List.length_take] at hlength

/-- **A realtime entry keeps the accounts**: it is one of the first, or it is counted. The warning
has been told before exactly if something has been counted before. -/
theorem addRealtime (h : f.Accounted arrived told) (entry : α) :
    (f.addRealtime entry).1.Accounted (arrived ++ [entry]) (told ++ (f.addRealtime entry).2) := by
  have hlength := h.length_realtime
  have hdropped := h.dropped
  cases hfull : f.isFull with
  | true =>
      rw [addRealtime_of_full hfull]
      rw [isFull_iff] at hfull
      have hcapacity : f.sizing.capacity ≤ arrived.length := by omega
      refine ⟨?_, ?_, ?_, ?_⟩
      · show f.realtime.map Slot.entry = (arrived ++ [entry]).take f.sizing.capacity
        rw [h.held, List.take_append_of_le_length hcapacity]
      · show f.dropped + 1 = (arrived ++ [entry]).length - f.sizing.capacity
        rw [List.length_append, List.length_singleton]
        omega
      · exact (decide_eq_true (Nat.succ_pos f.dropped)).symm
      · show Feed.notices (told ++ _) = if 0 < f.dropped + 1 then _ else []
        rw [if_pos (Nat.succ_pos _), Feed.notices, List.filterMap_append, ← Feed.notices, h.notices,
          h.mark]
        by_cases hbefore : 0 < f.dropped
        · rw [if_pos hbefore, if_pos (decide_eq_true hbefore)]
          rfl
        · rw [if_neg hbefore, if_neg (by simpa using hbefore)]
          rfl
  | false =>
      obtain ⟨hrealtime, -, hcount, hmark, hnotices⟩ := addRealtime_of_free hfull entry
      have hfree : f.realtime.length < f.sizing.capacity := by
        rw [← Bool.not_eq_true, isFull_iff] at hfull
        omega
      refine ⟨?_, ?_, ?_, ?_⟩
      · rw [hrealtime, sizing_addRealtime, List.map_append, h.held,
          List.take_of_length_le (by omega), List.take_of_length_le (by simp; omega)]
        rfl
      · rw [hcount, sizing_addRealtime, List.length_append, List.length_singleton]
        omega
      · rw [hmark, hcount, h.mark]
      · rw [hcount, sizing_addRealtime, Feed.notices, List.filterMap_append, ← Feed.notices,
          ← Feed.notices, hnotices, List.append_nil, h.notices]

end Accounted

section Actions

variable [Entry α κ ω] [DecidableEq κ] [Ord ω]

/-- What a feed tells of some actions. -/
def toldOf (f : Feed α η) (actions : List (Action α η)) : List (Signal η) :=
  (f.observations actions).flatMap Observation.told

/-- Actions one after the other. -/
theorem afterAll_append (f : Feed α η) (actions later : List (Action α η)) :
    f.afterAll (actions ++ later) = (f.afterAll actions).afterAll later :=
  List.foldl_append

/-- The last action comes on top of the others. -/
theorem afterAll_concat (f : Feed α η) (actions : List (Action α η)) (action : Action α η) :
    f.afterAll (actions ++ [action]) = ((f.afterAll actions).act action).1 :=
  afterAll_append f actions [action]

/-- What the last action tells comes behind what the others have told. -/
theorem toldOf_concat (f : Feed α η) (actions : List (Action α η)) (action : Action α η) :
    f.toldOf (actions ++ [action]) = f.toldOf actions ++ ((f.afterAll actions).act action).2 := by
  induction actions generalizing f with
  | nil => exact List.append_nil _
  | cons first rest ih =>
      have hrest := ih (f.act first).1
      rw [List.cons_append, toldOf, toldOf, observations, observations, List.flatMap_cons,
        List.flatMap_cons, ← toldOf, ← toldOf, hrest, List.append_assoc]
      rfl

/-- **An action within a cycle keeps the accounts.** -/
theorem Accounted.act {f : Feed α η} {arrived : List α} {told : List (Signal η)}
    (h : f.Accounted arrived told) {action : Action α η} (hwithin : action.endsCycle = false) :
    (f.act action).1.Accounted (arrived ++ action.arrival?.toList) (told ++ (f.act action).2) := by
  have hquiet : ∀ g : Feed α η, g.sizing.capacity = f.sizing.capacity → g.realtime = f.realtime →
      g.dropped = f.dropped → g.overflowTold = f.overflowTold →
      g.Accounted (arrived ++ []) (told ++ []) := by
    intro g hcapacity hrealtime hdropped hmark
    rw [List.append_nil, List.append_nil]
    exact h.congr hcapacity hrealtime hdropped hmark
  cases action with
  | setPolicy | setCompactLimit => exact hquiet _ rfl rfl rfl rfl
  | operate operation =>
      cases operation with
      | realtime entry => exact h.addRealtime entry
      | archive | handler => exact hquiet _ rfl rfl rfl rfl
      | poll =>
          refine hquiet f.poll.2 ?_ ?_ ?_ ?_
          · rw [poll_snd]
          · rw [poll_snd]
          · rw [poll_snd]
          · rw [poll_snd]
      | reset | compact | compactToLimit => cases hwithin

/-- What ends a cycle opens new accounts. -/
theorem accounted_of_endsCycle (f : Feed α η) {action : Action α η}
    (hends : action.endsCycle = true) : (f.act action).1.Accounted [] [] := by
  cases action with
  | setPolicy | setCompactLimit => cases hends
  | operate operation =>
      cases operation with
      | reset | compact | compactToLimit => exact .of_empty rfl rfl rfl
      | archive | realtime | poll | handler => cases hends

/-- A cycle comes after those that are past. -/
theorem afterAll_currentCycle (f : Feed α η) (actions : List (Action α η)) :
    (f.afterAll (pastCycles actions)).afterAll (currentCycle actions) = f.afterAll actions := by
  rw [← afterAll_append, pastCycles, currentCycle, List.rdropWhile_append_rtakeWhile]

/-- **The accounts of every feed that a host can arrive at**, by induction on the actions: those
within a cycle keep the accounts, and those that end one open new ones. -/
theorem New.accounted {f : Feed α η} (h : f.New) (actions : List (Action α η)) :
    (f.afterAll actions).Accounted (arrivals (currentCycle actions))
      ((f.afterAll (pastCycles actions)).toldOf (currentCycle actions)) := by
  induction actions using List.reverseRecOn with
  | nil =>
      have hblank := (new_iff.mp h).2
      refine .of_empty ?_ ?_ ?_
      · show f.realtime = []
        rw [hblank]
        rfl
      · show f.dropped = 0
        rw [hblank]
        rfl
      · show f.overflowTold = false
        rw [hblank]
        rfl
  | append_singleton actions action ih =>
      rw [afterAll_concat]
      cases hends : action.endsCycle with
      | true =>
          rw [currentCycle, List.rtakeWhile_concat_neg _ _ _ (by simp [hends])]
          exact accounted_of_endsCycle _ hends
      | false =>
          rw [currentCycle, pastCycles, List.rtakeWhile_concat_pos _ _ _ (by simp [hends]),
            List.rdropWhile_concat_pos _ _ _ (by simp [hends]), ← currentCycle, ← pastCycles,
            toldOf_concat, afterAll_currentCycle, arrivals, List.filterMap_append]
          exact ih.act hends

/-! ### Another count -/

/-- Another count can be seen, and nothing else can. -/
theorem sight_recount (f : Feed α η) (dropped : Nat) (mark : Bool) :
    (f.recount dropped mark).sight = { f.sight with dropped := dropped } := by
  rw [sight, sight, snapshot_congr (f := f.recount dropped mark) (g := f) rfl rfl rfl]
  rfl

omit [Entry α κ ω] [DecidableEq κ] [Ord ω] in
/-- Looking at the watermark does not depend on the count. -/
theorem checkWatermark_recount (f : Feed α η) (dropped : Nat) (mark : Bool) :
    (f.recount dropped mark).checkWatermark =
      (f.checkWatermark.1.recount dropped mark, f.checkWatermark.2) :=
  checkWatermark_of_same (recount · dropped mark) rfl rfl rfl rfl rfl

omit [Entry α κ ω] [DecidableEq κ] [Ord ω] in
/-- A realtime entry that fits neither looks at the count nor changes it. -/
theorem addRealtime_recount_of_free {f : Feed α η} (h : f.isFull = false) (dropped : Nat)
    (mark : Bool) (entry : α) :
    (f.recount dropped mark).addRealtime entry =
      ((f.addRealtime entry).1.recount dropped mark, (f.addRealtime entry).2) := by
  have hfree : (f.recount dropped mark).isFull = false := h
  rw [addRealtime, addRealtime, h, hfree]
  exact checkWatermark_recount { f with
    realtime := f.realtime ++ [⟨f.nextNumber, entry⟩]
    nextNumber := f.nextNumber + 1
    dirty := true } dropped mark

omit [Entry α κ ω] [DecidableEq κ] [Ord ω] in
/-- A realtime entry that is dropped calls no handler. -/
theorem calls_addRealtime_of_full {f : Feed α η} (h : f.isFull = true) (entry : α) :
    calls (f.addRealtime entry).2 = [] := by
  rw [addRealtime_of_full h]
  cases f.overflowTold with
  | true => rfl
  | false => rfl

/-- The snapshot does not depend on the count. -/
theorem snapshot_recount (f : Feed α η) (dropped : Nat) (mark : Bool) :
    (f.recount dropped mark).snapshot = f.snapshot :=
  snapshot_congr rfl rfl rfl

/-- What ends a cycle forgets the count. -/
theorem compact_recount (f : Feed α η) (dropped : Nat) (mark : Bool) (limit : Nat) :
    (f.recount dropped mark).compact limit = f.compact limit := by
  rw [compact, compact, snapshot_recount]
  rfl

/-- A poll hands over the same whatever the count is. -/
theorem poll_recount (f : Feed α η) (dropped : Nat) (mark : Bool) :
    (f.recount dropped mark).poll = (f.poll.1, f.poll.2.recount dropped mark) := by
  rw [poll, poll, snapshot_recount]
  show (if f.dirty then _ else _) = _
  split
  · rfl
  · rfl

/-- **An action looks at the count only to change it.** With another count, it makes the same
feed but for the count, calls the handler alike, and hands over the same. -/
theorem act_recount (f : Feed α η) (dropped : Nat) (mark : Bool) (action : Action α η) :
    (∃ dropped' mark', ((f.recount dropped mark).act action).1 =
        (f.act action).1.recount dropped' mark') ∧
      calls ((f.recount dropped mark).act action).2 = calls (f.act action).2 ∧
      (f.recount dropped mark).handedBy? action = f.handedBy? action := by
  cases action with
  | setPolicy | setCompactLimit => exact ⟨⟨dropped, mark, rfl⟩, rfl, rfl⟩
  | operate operation =>
      cases operation with
      | archive | handler => exact ⟨⟨dropped, mark, rfl⟩, rfl, rfl⟩
      | reset => exact ⟨⟨0, false, rfl⟩, rfl, rfl⟩
      | compact limit => exact ⟨⟨0, false, compact_recount f dropped mark limit⟩, rfl, rfl⟩
      | compactToLimit =>
          exact ⟨⟨0, false, compact_recount f dropped mark f.compactLimit⟩, rfl, rfl⟩
      | poll =>
          have hpoll := poll_recount f dropped mark
          have hhanded : (f.recount dropped mark).poll.1 = f.poll.1 := by rw [hpoll]
          exact ⟨⟨dropped, mark, congrArg Prod.snd hpoll⟩, rfl, hhanded⟩
      | realtime entry =>
          cases hfull : f.isFull with
          | true =>
              have hfull' : (f.recount dropped mark).isFull = true := hfull
              have hcalls := calls_addRealtime_of_full hfull entry
              have hcalls' := calls_addRealtime_of_full hfull' entry
              refine ⟨⟨dropped + 1, true, ?_⟩, hcalls'.trans hcalls.symm, rfl⟩
              show ((f.recount dropped mark).addRealtime entry).1 = _
              rw [addRealtime_of_full hfull']
              show _ = (f.addRealtime entry).1.recount _ _
              rw [addRealtime_of_full hfull]
              rfl
          | false =>
              have hfree := addRealtime_recount_of_free hfull dropped mark entry
              exact ⟨⟨dropped, mark, congrArg Prod.fst hfree⟩,
                congrArg (calls ·.2) hfree, rfl⟩

/-- **Another count is not seen** in anything but the count and the warning, whatever is
done, by induction on the actions. -/
theorem uncounted_observations_recount (f : Feed α η) (dropped : Nat) (mark : Bool)
    (actions : List (Action α η)) :
    ((f.recount dropped mark).observations actions).map Observation.uncounted =
      (f.observations actions).map Observation.uncounted := by
  induction actions generalizing f dropped mark with
  | nil => rfl
  | cons action rest ih =>
      obtain ⟨⟨dropped', mark', hnext⟩, hcalls, hhanded⟩ := act_recount f dropped mark action
      have hfirst : ((f.recount dropped mark).observe action).uncounted =
          (f.observe action).uncounted := by
        rw [observe, observe, hnext, hhanded, sight_recount, Observation.uncounted,
          Observation.uncounted, hcalls]
      rw [observations, observations, List.map_cons, List.map_cons, hfirst, hnext, ih]

/-- A realtime entry is dropped exactly if the feed is full. -/
theorem drops_iff {f : Feed α η} {entry : α} : f.Drops (.realtime entry) ↔ f.isFull = true := by
  constructor
  · rintro ⟨_, -, hdropped⟩
    by_contra hfree
    rw [Bool.not_eq_true] at hfree
    obtain ⟨-, -, hcount, -⟩ := addRealtime_of_free hfree entry
    have hdropped' : (f.addRealtime entry).1.dropped = f.dropped + 1 := hdropped
    omega
  · intro hfull
    refine ⟨entry, rfl, ?_⟩
    show (f.addRealtime entry).1.dropped = f.dropped + 1
    rw [addRealtime_of_full hfull]
    rfl

/-! ### What is held and what is dropped -/

/-- No action changes the capacity. -/
theorem capacity_afterAll (f : Feed α η) (actions : List (Action α η)) :
    (f.afterAll actions).sizing.capacity = f.sizing.capacity := by
  induction actions generalizing f with
  | nil => rfl
  | cons action rest ih =>
      refine (ih (f.act action).1).trans ?_
      cases action with
      | setPolicy | setCompactLimit => rfl
      | operate operation => exact congrArg Sizing.capacity (sizing_step f operation)

/-- A host arrives at exactly the feeds that some actions make of a new one. -/
theorem reachable_iff {g : Feed α η} :
    g.Reachable ↔ ∃ f : Feed α η, f.New ∧ ∃ actions, f.afterAll actions = g := by
  constructor
  · intro h
    induction h with
    | ofSizing hnew => exact ⟨_, .ofSizing hnew, [], rfl⟩
    | withPolicy policy _ ih =>
        obtain ⟨f, hnew, actions, rfl⟩ := ih
        exact ⟨f, hnew, actions ++ [.setPolicy policy], afterAll_concat f actions _⟩
    | withCompactLimit limit _ ih =>
        obtain ⟨f, hnew, actions, rfl⟩ := ih
        exact ⟨f, hnew, actions ++ [.setCompactLimit limit], afterAll_concat f actions _⟩
    | step operation _ ih =>
        obtain ⟨f, hnew, actions, rfl⟩ := ih
        exact ⟨f, hnew, actions ++ [.operate operation], afterAll_concat f actions _⟩
  · rintro ⟨f, hnew, actions, rfl⟩
    induction actions using List.reverseRecOn with
    | nil =>
        show f.Reachable
        induction hnew with
        | ofSizing hnew => exact .ofSizing hnew
        | withPolicy policy _ ih => exact .withPolicy policy ih
        | withCompactLimit limit _ ih => exact .withCompactLimit limit ih
        | withHandler handler _ ih => exact .step (.handler handler) ih
    | append_singleton actions action ih =>
        rw [afterAll_concat]
        cases action with
        | setPolicy policy => exact .withPolicy policy ih
        | setCompactLimit limit => exact .withCompactLimit limit ih
        | operate operation => exact .step operation ih

/-- **The accounts of the realtime entries.** Let a host have done anything to a new feed, and
consider the realtime entries that have arrived since the last reset or compaction. The feed
holds the first of them, at most as many as its capacity, and counts the others as dropped. If
it has dropped any, then it is full, its watermark has been reached, and in this cycle the
overflow has been told exactly once; if not, then it has not been told. A further entry is
dropped exactly if the feed is full. That changes nothing that a host can see but the count,
and calls no handler; and whatever is done later is seen to do the same, but for the count and
the warning. -/
theorem realtime_accounts {f g : Feed α η} (h : f.New) {actions : List (Action α η)}
    (hg : f.afterAll actions = g) :
    g.realtime.length ≤ f.sizing.capacity ∧
    g.realtime.length + g.dropped = (arrivals (currentCycle actions)).length ∧
    g.realtime.map Slot.entry = (arrivals (currentCycle actions)).take g.realtime.length ∧
    (0 < g.dropped → g.realtime.length = f.sizing.capacity ∧ g.watermarkReached = true) ∧
    (∀ entry, (g.Drops (.realtime entry) ↔ g.realtime.length = f.sizing.capacity) ∧
      (g.Drops (.realtime entry) →
        (g.step (.realtime entry)).1.sight = { g.sight with dropped := g.dropped + 1 } ∧
        calls (g.step (.realtime entry)).2 = [] ∧
        ∀ later, ((g.step (.realtime entry)).1.observations later).map Observation.uncounted =
          (g.observations later).map Observation.uncounted)) ∧
    notices ((f.afterAll (pastCycles actions)).toldOf (currentCycle actions)) =
      if 0 < g.dropped then
        [.warning ("Realtime buffer full (" ++ toString f.sizing.capacity ++
          " entries), dropping updates until compacted")]
      else [] := by
  have haccounts : g.Accounted (arrivals (currentCycle actions)) _ := hg ▸ h.accounted actions
  have hmarked : g.Marked := (reachable_iff.mpr ⟨f, h, actions, hg⟩).marked
  have hcapacity : g.sizing.capacity = f.sizing.capacity := hg ▸ capacity_afterAll f actions
  have hlength := haccounts.length_realtime
  have hdropped := haccounts.dropped
  have hnotices := haccounts.notices
  rw [hcapacity] at hlength hdropped hnotices
  refine ⟨by omega, by omega, ?_, ?_, ?_, hnotices⟩
  · rw [haccounts.held, hcapacity, List.take_eq_take_min, ← hlength]
  · intro hsome
    have hfull : g.realtime.length = f.sizing.capacity := by omega
    refine ⟨hfull, ?_⟩
    have hsizing := hmarked.sizing
    rw [hmarked.mark, decide_eq_true_iff, Sizing.mark]
    omega
  · intro entry
    refine ⟨?_, ?_⟩
    · rw [drops_iff, isFull_iff, hcapacity]
      omega
    · intro hdrops
      have hfull := drops_iff.mp hdrops
      have hnext : (g.step (.realtime entry)).1 = g.recount (g.dropped + 1) true :=
        congrArg Prod.fst (addRealtime_of_full hfull entry)
      rw [hnext]
      exact ⟨sight_recount g _ _, calls_addRealtime_of_full hfull entry,
        uncounted_observations_recount g _ _⟩

end Actions

/-! ### Two cycles that overflow -/

/-- Four entries for a feed of three, a compaction in the middle of the overflow, and five
entries more, with a page and a change of the policy among them. -/
def overflowing : List (Action Activity Unit) :=
  [.operate (.realtime (activityAt "a" 1 "done")), .operate (.realtime (activityAt "b" 2 "done")),
    .operate (.realtime (activityAt "c" 3 "done")), .operate (.realtime (activityAt "d" 4 "done")),
    .operate (.compact 2), .operate (.realtime (activityAt "e" 5 "running")),
    .operate (.realtime (activityAt "f" 6 "running")),
    .operate (.archive [activityAt "a" 0 "planned"]), .setPolicy .append,
    .operate (.realtime (activityAt "e" 7 "done")),
    .operate (.realtime (activityAt "g" 8 "running")), .operate .poll,
    .operate (.realtime (activityAt "f" 9 "done"))]

/-- In the second cycle the first three entries are held and two are dropped, and it is told
once that the feed is full, as it was in the first cycle. One more entry is dropped without
being seen. -/
theorem realtime_accounts_overflowing :
    handled.New ∧
      (handled.afterAll overflowing).realtime.map Slot.entry =
        [activityAt "e" 5 "running", activityAt "f" 6 "running", activityAt "e" 7 "done"] ∧
      (handled.afterAll overflowing).dropped = 2 ∧
      (handled.afterAll overflowing).watermarkReached = true ∧
      notices ((handled.afterAll (pastCycles overflowing)).toldOf (currentCycle overflowing)) =
        [.warning "Realtime buffer full (3 entries), dropping updates until compacted"] ∧
      (handled.afterAll overflowing).Drops (.realtime (activityAt "h" 10 "running")) ∧
      (((handled.afterAll overflowing).step (.realtime (activityAt "h" 10 "running"))).1.sight =
        { (handled.afterAll overflowing).sight with dropped := 3 }) := by
  have hsizing : ofSizing ⟨3, 2, .byId⟩ = .ok forThree := rfl
  have hnew : handled.New := .withHandler () (.ofSizing hsizing)
  have harrived : arrivals (currentCycle overflowing) =
      [activityAt "e" 5 "running", activityAt "f" 6 "running", activityAt "e" 7 "done",
        activityAt "g" 8 "running", activityAt "f" 9 "done"] := by cbv
  have hlength : (handled.afterAll overflowing).realtime.length = 3 := by cbv
  have hdropped : (handled.afterAll overflowing).dropped = 2 := by cbv
  obtain ⟨-, -, hheld, hfull, hdrops, hnotices⟩ :=
    realtime_accounts hnew (Eq.refl (handled.afterAll overflowing))
  rw [harrived, hlength] at hheld
  rw [hdropped, if_pos (by decide)] at hnotices
  obtain ⟨hiff, hunseen⟩ := hdrops (activityAt "h" 10 "running")
  have hdrop := hiff.mpr hlength
  obtain ⟨hsight, -, -⟩ := hunseen hdrop
  rw [hdropped] at hsight
  exact ⟨hnew, hheld, hdropped, (hfull (by omega)).2, hnotices, hdrop, hsight⟩

end Feed

end Dashboard
