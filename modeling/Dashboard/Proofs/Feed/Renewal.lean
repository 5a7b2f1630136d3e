import Dashboard.Proofs.Feed.Renumbering
import Dashboard.Proofs.Feed.Watermark

/-!
# Resetting a Feed

A reset restores some of the fields of a feed and leaves others as they are: the sizing, the
handler, the limit of compaction, and the counter of the numbers. This module says that what
is left over makes no difference. A reset feed is as good as a new one that is set up in the
same way (`Renews`).

There is one exception. A reset marks the feed as changed and a new one is not marked, so the
first poll after a reset hands over the empty view where a new feed hands over nothing. A feed
that is marked in addition to what it is (`touch`) does the same as before under every action,
until an action **settles** the mark: it sets it, or it clears it. From then on there is no
difference at all. An action that does not settle the mark only sets up the feed.

## Main results

* `Indistinguishable.afterAll` — what cannot be told apart goes on like that.
* `reset_eq_of_renews` — a reset feed is a new one, renumbered and marked.
* `act_touch` — a mark changes nothing but the mark.
* `unmarked_observations_touch` — a mark is not seen in anything but the mark and the polls.
* `reset_renews` — a reset re-creates the feed.
-/

namespace Dashboard

namespace Feed

variable {α η κ ω : Type}

/-- The same feed, marked as changed. -/
def touch (f : Feed α η) : Feed α η :=
  { f with dirty := true }

/-- Whether an action **settles** the mark that something has changed, which it then sets or
clears whatever it was before. The others set up the feed and leave the mark as it is. -/
def Action.settles : Action α η → Bool
  | .operate (.handler _) | .setPolicy _ | .setCompactLimit _ => false
  | .operate _ => true

/-- An observation apart from the mark: without what was handed over, and with the mark
cleared. -/
def Observation.unmarked (o : Observation α η) : Observation α η :=
  { o with handed := none, seen := { o.seen with dirty := false } }

/-- A new feed **renews** another one if it is set up in the same way. -/
structure Renews (g f : Feed α η) : Prop where
  new : g.New
  sizing : g.sizing = f.sizing
  handler : g.handler = f.handler
  compactLimit : g.compactLimit = f.compactLimit

/-- There is a new feed that renews a feed, if its sizing makes sense. -/
theorem exists_renews {f : Feed α η} (h : f.Marked) : ∃ new : Feed α η, new.Renews f :=
  ⟨blank f.sizing f.handler f.compactLimit, new_iff.mpr ⟨h.sizing, rfl⟩, rfl, rfl, rfl⟩

/-- **A reset feed is a new one**, renumbered and marked. -/
theorem reset_eq_of_renews {new f : Feed α η} (h : new.Renews f) :
    f.reset = new.touch.renumber (· + f.nextNumber) := by
  have hnew : new = blank f.sizing f.handler f.compactLimit := by
    rw [(new_iff.mp h.new).2, h.sizing, h.handler, h.compactLimit]
  have hnext : f.nextNumber = 0 + f.nextNumber := (Nat.zero_add _).symm
  rw [hnew]
  exact congrArg (fun nextNumber => { f.reset with nextNumber }) hnext

section Actions

variable [Entry α κ ω] [DecidableEq κ] [Ord ω]

/-! ### What cannot be told apart -/

/-- Feeds that cannot be told apart cannot be told apart after an action. -/
theorem Indistinguishable.act {f g : Feed α η} (h : f.Indistinguishable g)
    (action : Action α η) : (f.act action).1.Indistinguishable (g.act action).1 := by
  have hcons : ∀ rest, f.observe action = g.observe action ∧
      (f.act action).1.observations rest = (g.act action).1.observations rest := by
    intro rest
    exact List.cons_eq_cons.mp (h.2 (action :: rest))
  exact ⟨congrArg Observation.seen (hcons []).1, fun rest => (hcons rest).2⟩

/-- **Feeds that cannot be told apart go on like that**, by induction on the actions. -/
theorem Indistinguishable.afterAll {f g : Feed α η} (h : f.Indistinguishable g)
    (actions : List (Action α η)) :
    (f.afterAll actions).Indistinguishable (g.afterAll actions) := by
  induction actions generalizing f g with
  | nil => exact h
  | cons action rest ih => exact ih (h.act action)

/-! ### What a mark changes -/

/-- The mark can be seen, and nothing else has changed. -/
theorem sight_touch (f : Feed α η) : f.touch.sight = { f.sight with dirty := true } := by
  rw [sight, sight, snapshot_congr (f := f.touch) (g := f) rfl rfl rfl]
  rfl

/-- A poll clears the mark, whatever it was before. -/
theorem poll_touch (f : Feed α η) : f.touch.poll.2 = f.poll.2 := by
  rw [poll_snd, poll_snd]
  rfl

/-- A realtime entry that fits sets the mark, whatever it was before. -/
theorem addRealtime_touch_of_free {f : Feed α η} (h : f.isFull = false) (entry : α) :
    f.touch.addRealtime entry = f.addRealtime entry := by
  have htouch : f.touch.isFull = false := h
  rw [addRealtime, addRealtime, h, htouch]
  rfl

/-- A realtime entry that does not fit leaves the mark as it was. -/
theorem addRealtime_touch_of_full {f : Feed α η} (h : f.isFull = true) (entry : α) :
    f.touch.addRealtime entry = ((f.addRealtime entry).1.touch, (f.addRealtime entry).2) := by
  have htouch : f.touch.isFull = true := h
  rw [addRealtime, addRealtime, h, htouch]
  rfl

/-- Compaction marks a feed as changed anyway. -/
theorem compact_touch (f : Feed α η) (limit : Nat) : f.touch.compact limit = f.compact limit := by
  rw [compact, compact, snapshot_congr (f := f.touch) (g := f) rfl rfl rfl]
  rfl

/-- **A mark changes nothing but the mark.** An action that settles it makes the same of a
marked feed, and any other one the same but for the mark; so does a realtime entry that does
not fit. What is told is the same in all cases. -/
theorem act_touch (f : Feed α η) (action : Action α η) :
    (action.settles = true ∧ f.touch.act action = f.act action) ∨
      ((action.settles = true → f.isFull = true) ∧
        f.touch.act action = ((f.act action).1.touch, (f.act action).2)) := by
  cases action with
  | setPolicy | setCompactLimit => exact .inr ⟨nofun, rfl⟩
  | operate operation =>
      cases operation with
      | archive | reset => exact .inl ⟨rfl, rfl⟩
      | realtime entry =>
          cases hfull : f.isFull with
          | false => exact .inl ⟨rfl, addRealtime_touch_of_free hfull entry⟩
          | true => exact .inr ⟨fun _ => rfl, addRealtime_touch_of_full hfull entry⟩
      | compact limit => exact .inl ⟨rfl, congrArg (·, []) (compact_touch f limit)⟩
      | compactToLimit => exact .inl ⟨rfl, congrArg (·, []) (compact_touch f f.compactLimit)⟩
      | poll => exact .inl ⟨rfl, congrArg (·, []) (poll_touch f)⟩
      | handler => exact .inr ⟨nofun, rfl⟩

/-- An action that settles the mark forgets what it was, if the feed has room. -/
theorem act_touch_of_settles {f : Feed α η} (h : f.isFull = false) {action : Action α η}
    (hsettles : action.settles = true) : f.touch.act action = f.act action := by
  rcases act_touch f action with ⟨-, hsame⟩ | ⟨hfull, -⟩
  · exact hsame
  · rw [hfull hsettles] at h
    cases h

/-- Any other action leaves it as it was. -/
theorem act_touch_of_not_settles (f : Feed α η) {action : Action α η}
    (hquiet : action.settles = false) :
    f.touch.act action = ((f.act action).1.touch, (f.act action).2) := by
  rcases act_touch f action with ⟨hsettles, -⟩ | ⟨-, hmarked⟩
  · rw [hquiet] at hsettles
    cases hsettles
  · exact hmarked

/-- Apart from the mark, the same is observed. -/
theorem unmarked_observe_touch (f : Feed α η) (action : Action α η) :
    (f.touch.observe action).unmarked = (f.observe action).unmarked := by
  rcases act_touch f action with ⟨-, hsame⟩ | ⟨-, hmarked⟩
  · rw [observe, observe, hsame]
    rfl
  · rw [observe, observe, hmarked, sight_touch]
    rfl

/-- **A mark is not seen** in anything but the mark and the polls, whatever is done. -/
theorem unmarked_observations_touch (f : Feed α η) (actions : List (Action α η)) :
    (f.touch.observations actions).map Observation.unmarked =
      (f.observations actions).map Observation.unmarked := by
  induction actions generalizing f with
  | nil => rfl
  | cons action rest ih =>
      rw [observations, observations, List.map_cons, List.map_cons, unmarked_observe_touch]
      rcases act_touch f action with ⟨-, hsame⟩ | ⟨-, hmarked⟩
      · rw [hsame]
      · rw [hmarked, ih]

/-! ### New feeds -/

/-- A new feed has room, as its watermark lies below its capacity. -/
theorem New.isFull {f : Feed α η} (h : f.New) : f.isFull = false := by
  obtain ⟨hvalid, hblank⟩ := new_iff.mp h
  have hempty : f.realtime = [] := by rw [hblank]; rfl
  rw [Feed.isFull, hempty, decide_eq_false_iff_not, List.length_nil]
  omega

/-- A new feed is not marked as changed. -/
theorem New.dirty {f : Feed α η} (h : f.New) : f.dirty = false := by
  rw [(new_iff.mp h).2]
  rfl

/-- Setting up a new feed leaves it new. -/
theorem New.act_of_not_settles {f : Feed α η} (h : f.New) {action : Action α η}
    (hquiet : action.settles = false) : (f.act action).1.New := by
  cases action with
  | setPolicy policy => exact .withPolicy policy h
  | setCompactLimit limit => exact .withCompactLimit limit h
  | operate operation =>
      cases operation with
      | archive | realtime | reset | compact | compactToLimit | poll => cases hquiet
      | handler handler => exact .withHandler handler h

/-- As long as a new feed is only set up, a mark stays as it is. -/
theorem New.afterAll_of_not_settles {f : Feed α η} (h : f.New) {actions : List (Action α η)}
    (hquiet : ∀ action ∈ actions, action.settles = false) :
    (f.afterAll actions).New ∧ f.touch.afterAll actions = (f.afterAll actions).touch := by
  induction actions generalizing f with
  | nil => exact ⟨h, rfl⟩
  | cons action rest ih =>
      obtain ⟨haction, hrest⟩ := List.forall_mem_cons.mp hquiet
      obtain ⟨hnew, htouch⟩ := ih (h.act_of_not_settles haction) hrest
      refine ⟨hnew, ?_⟩
      show (f.touch.act action).1.afterAll rest = _
      rw [act_touch_of_not_settles f haction]
      exact htouch

/-- As soon as the mark is settled, it does not matter what it was before. -/
theorem New.afterAll_touch {f : Feed α η} (h : f.New) {actions : List (Action α η)}
    (hsettles : ∃ action ∈ actions, action.settles = true) :
    f.touch.afterAll actions = f.afterAll actions := by
  induction actions generalizing f with
  | nil => exact absurd hsettles (by simp)
  | cons action rest ih =>
      show (f.touch.act action).1.afterAll rest = (f.act action).1.afterAll rest
      cases haction : action.settles with
      | true => rw [act_touch_of_settles h.isFull haction]
      | false =>
          have hrest : ∃ action ∈ rest, action.settles = true := by
            obtain ⟨other, hmem, hother⟩ := hsettles
            rcases List.mem_cons.mp hmem with rfl | hmem
            · rw [haction] at hother
              cases hother
            · exact ⟨other, hmem, hother⟩
          rw [act_touch_of_not_settles f haction]
          exact ih (h.act_of_not_settles haction) hrest

/-! ### A reset re-creates the feed -/

/-- **A reset re-creates the feed.** There are new feeds that are set up in the same way as
a feed that a host has arrived at. Let one of them be marked as changed; then the feed cannot
be told from it after a reset. So a reset feed and a new one have the same snapshots, counts
and lengths, tell the same and call the handler alike, whatever is done with both. They differ
in the first poll, if nothing was done before but setting them up: there the reset feed hands
over the empty view, and the new one nothing. After anything else they cannot be told apart. -/
theorem reset_renews {f : Feed α η} (h : f.Reachable) :
    (∃ new : Feed α η, new.Renews f) ∧ ∀ new : Feed α η, new.Renews f →
      f.reset.Indistinguishable new.touch ∧
      (∀ actions, (f.reset.observations actions).map Observation.unmarked =
        (new.observations actions).map Observation.unmarked) ∧
      (∀ actions, (∀ action ∈ actions, action.settles = false) →
        (f.reset.afterAll actions).poll.1 = some [] ∧ (new.afterAll actions).poll.1 = none) ∧
      ∀ actions, (∃ action ∈ actions, action.settles = true) →
        (f.reset.afterAll actions).Indistinguishable (new.afterAll actions) := by
  refine ⟨exists_renews h.marked, ?_⟩
  intro new hrenews
  have hnew := hrenews.new
  have hreset : f.reset.Indistinguishable new.touch := by
    rw [reset_eq_of_renews hrenews]
    exact (orderly_add _ _).indistinguishable
  refine ⟨hreset, ?_, ?_, ?_⟩
  · intro actions
    rw [hreset.2, unmarked_observations_touch]
  · intro actions hquiet
    obtain ⟨hstill, htouch⟩ := hnew.afterAll_of_not_settles hquiet
    have hhanded : (f.reset.afterAll actions).poll.1 = (new.touch.afterAll actions).poll.1 :=
      congrArg Observation.handed
        (List.cons_eq_cons.mp ((hreset.afterAll actions).2 [.operate .poll])).1
    constructor
    · rw [hhanded, htouch, poll]
      exact congrArg some hstill.snapshot_eq_nil
    · rw [poll, hstill.dirty]
      rfl
  · intro actions hsettles
    rw [← hnew.afterAll_touch hsettles]
    exact hreset.afterAll actions

end Actions

/-! ### A full feed -/

/-- The feed with the late page is full, has called its handler and has dropped an entry. After
a reset it is as good as the new feed that it began as: under another policy they differ in the
first poll, and after a page they do not differ at all. -/
theorem reset_renews_handled :
    (handled.run archiveLate).1.Reachable ∧ handled.Renews (handled.run archiveLate).1 ∧
      (handled.run archiveLate).1.dropped = 1 ∧
      (handled.run archiveLate).1.reset.Indistinguishable handled.touch ∧
      ((handled.run archiveLate).1.reset.afterAll [.setPolicy .append]).poll.1 = some [] ∧
      (handled.afterAll [.setPolicy .append]).poll.1 = none ∧
      ((handled.run archiveLate).1.reset.afterAll
          [.operate (.archive [activityAt "a" 5 "planned"])]).Indistinguishable
        (handled.afterAll [.operate (.archive [activityAt "a" 5 "planned"])]) := by
  have hnew : ofSizing ⟨3, 2, .byId⟩ = .ok forThree := rfl
  have hreach : (handled.run archiveLate).1.Reachable :=
    ((Reachable.ofSizing hnew).step (.handler ())).run _
  have hrenews : handled.Renews (handled.run archiveLate).1 :=
    ⟨.withHandler () (.ofSizing hnew), rfl, rfl, rfl⟩
  obtain ⟨-, hall⟩ := reset_renews hreach
  obtain ⟨hreset, -, hquiet, hsettles⟩ := hall handled hrenews
  have hpolicy : ∀ action ∈ ([.setPolicy .append] : List (Action Activity Unit)),
      action.settles = false := by
    intro action hmem
    rw [List.mem_singleton.mp hmem]
    rfl
  obtain ⟨hpolled, hunpolled⟩ := hquiet _ hpolicy
  exact ⟨hreach, hrenews, rfl, hreset, hpolled, hunpolled,
    hsettles _ ⟨_, List.mem_singleton.mpr rfl, rfl⟩⟩

end Feed

end Dashboard
