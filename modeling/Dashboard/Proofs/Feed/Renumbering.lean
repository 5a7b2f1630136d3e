import Dashboard.Proofs.Feed.Compaction
import Dashboard.Proofs.Polling
import Mathlib.Order.Monotone.Basic

/-!
# Feeds under Other Numbers

The numbers of the slots decide the order of entries with equal order keys, and a host never
sees one. Two feeds that hold the same entries under different numbers cannot be told apart
if the numbers have the same order. That is needed wherever a feed comes about in two ways:
the counter goes on through every reset and compaction, so the two never have the same
numbers.

To **renumber** a feed is to apply a function to all its numbers, the next one included. The
function need not keep the order of all natural numbers, only of those that are in use: the
numbers that are held and those that are still to be given. And it has to give consecutive
numbers to what is still to be entered (`Orderly`). Then renumbering commutes with
everything that a host can do. No operation brings up a number that was not in use before,
so one function serves for the whole future of a feed.

## Main results

* `snapshot_renumber` — a snapshot does not change with the numbers.
* `Orderly.act_renumber` — renumbering commutes with every action of a host.
* `Orderly.indistinguishable` — a renumbered feed cannot be told from the feed.
* `compact_compact_eq` — two compactions are the one to the smaller limit, renumbered.
* `indistinguishable_compact_compact` — a host cannot tell that there were two.
-/

namespace Dashboard

/-- A slot under another number. -/
def Slot.renumber {α : Type} (φ : Nat → Nat) (s : Slot α) : Slot α :=
  ⟨φ s.number, s.entry⟩

namespace Feed

variable {α η κ ω : Type}

/-! ### What a host can see -/

/-- What a host sees of a feed at a moment. -/
structure Sight (α : Type) where
  view : List α
  archived : Nat
  held : Nat
  dropped : Nat
  watermarkReached : Bool
  dirty : Bool
  sizing : Sizing
  compactLimit : Nat

/-- What a host can do to a feed: operate it, or set it up anew. -/
inductive Action (α η : Type) where
  | operate (operation : Operation α η)
  | setPolicy (policy : Policy)
  | setCompactLimit (limit : Nat)

/-- What a host notices of an action: what the feed tells, what it hands over, and what there
is to see afterwards. -/
structure Observation (α η : Type) where
  told : List (Signal η)
  handed : Option (List α)
  seen : Sight α

section Seen

variable [Entry α κ ω] [DecidableEq κ] [Ord ω]

/-- What a host sees of a feed. -/
def sight (f : Feed α η) : Sight α where
  view := f.snapshot
  archived := f.archive.length
  held := f.realtime.length
  dropped := f.dropped
  watermarkReached := f.watermarkReached
  dirty := f.dirty
  sizing := f.sizing
  compactLimit := f.compactLimit

/-- What an action makes of a feed, and what the feed has to tell about it. -/
def act (f : Feed α η) : Action α η → Feed α η × List (Signal η)
  | .operate operation => f.step operation
  | .setPolicy policy => (f.withPolicy policy, [])
  | .setCompactLimit limit => (f.withCompactLimit limit, [])

/-- What an action hands over to the host. -/
def handedBy? (f : Feed α η) : Action α η → Option (List α)
  | .operate operation => f.handed? operation
  | _ => none

/-- What a sequence of actions makes of a feed. -/
def afterAll (f : Feed α η) (actions : List (Action α η)) : Feed α η :=
  actions.foldl (fun f action => (f.act action).1) f

/-- What a host notices of an action. -/
def observe (f : Feed α η) (action : Action α η) : Observation α η where
  told := (f.act action).2
  handed := f.handedBy? action
  seen := (f.act action).1.sight

/-- What a host notices of a sequence of actions. -/
def observations (f : Feed α η) : List (Action α η) → List (Observation α η)
  | [] => []
  | action :: rest => f.observe action :: (f.act action).1.observations rest

/-- **A host cannot tell two feeds apart**, neither by what it sees now nor by anything that
it notices of any sequence of actions. -/
def Indistinguishable (f g : Feed α η) : Prop :=
  f.sight = g.sight ∧ ∀ actions, f.observations actions = g.observations actions

end Seen

/-! ### Renumbering -/

/-- A feed under other numbers. -/
def renumber (φ : Nat → Nat) (f : Feed α η) : Feed α η :=
  { f with
    archive := f.archive.map (Slot.renumber φ)
    realtime := f.realtime.map (Slot.renumber φ)
    nextNumber := φ f.nextNumber }

/-- The numbers that are in use: those that are held and those that are still to be given. -/
def inUse (f : Feed α η) : Set Nat :=
  {n | n ∈ (f.archive ++ f.realtime).map Slot.number ∨ f.nextNumber ≤ n}

/-- A renumbering is **orderly** for a feed if it keeps the order of the numbers in use and
gives consecutive numbers to what is still to be entered. -/
structure Orderly (f : Feed α η) (φ : Nat → Nat) : Prop where
  ascending : StrictMonoOn φ f.inUse
  consecutive : ∀ i, φ (f.nextNumber + i) = φ f.nextNumber + i

/-- To add the same number to all is orderly. -/
theorem orderly_add (f : Feed α η) (k : Nat) : f.Orderly (· + k) where
  ascending := fun _ _ _ _ hlt => Nat.add_lt_add_right hlt k
  consecutive := fun i => Nat.add_right_comm f.nextNumber i k

/-! ### The view under other numbers -/

section View

variable [Entry α κ ω] [DecidableEq κ] (φ : Nat → Nat)

/-- A slot with another number has the same place. -/
theorem place_renumber (slots : List (Slot α)) (s : Slot α) :
    place (slots.map (Slot.renumber φ)) (s.renumber φ) =
      (place slots s).map (Slot.renumber φ) := by
  induction slots with
  | nil => rfl
  | cons t rest ih =>
      rw [List.map_cons, place, place, ih, apply_ite (List.map (Slot.renumber φ))]
      rfl

/-- Merging does not look at numbers. -/
theorem merged_renumber (slots : List (Slot α)) :
    merged (slots.map (Slot.renumber φ)) = (merged slots).map (Slot.renumber φ) := by
  induction slots using List.reverseRecOn with
  | nil => rfl
  | append_singleton slots s ih =>
      rw [List.map_append, List.map_singleton, merged_append_singleton, ih, place_renumber,
        merged_append_singleton]

/-- A renumbered feed holds its slots under other numbers. -/
theorem slots_renumber (f : Feed α η) :
    (f.renumber φ).slots = f.slots.map (Slot.renumber φ) := by
  have hall : (f.renumber φ).archive ++ (f.renumber φ).realtime =
      (f.archive ++ f.realtime).map (Slot.renumber φ) := List.map_append.symm
  cases hpolicy : f.sizing.policy with
  | append => rw [slots_of_append hpolicy, slots_of_append (f := f.renumber φ) hpolicy, hall]
  | byId =>
      rw [slots_of_byId hpolicy, slots_of_byId (f := f.renumber φ) hpolicy, hall, merged_renumber]

/-- The view has no numbers that are not in use. -/
theorem number_mem_inUse {f : Feed α η} {t : Slot α} (h : t ∈ f.slots) : t.number ∈ f.inUse := by
  left
  cases hpolicy : f.sizing.policy with
  | append =>
      rw [slots_of_append hpolicy] at h
      exact List.mem_map_of_mem h
  | byId =>
      rw [slots_of_byId hpolicy] at h
      obtain ⟨first, -, hfirst, -, hnumber, -⟩ := exists_of_mem_merged h
      rw [hnumber]
      exact List.mem_map_of_mem (List.mem_of_find?_eq_some hfirst)

variable [Ord ω] {φ} {f : Feed α η}

omit [DecidableEq κ] in
/-- Where the order of numbers is kept, so is the order of slots. -/
theorem newerFirst_renumber {numbers : Set Nat} (h : StrictMonoOn φ numbers) {s t : Slot α}
    (hs : s.number ∈ numbers) (ht : t.number ∈ numbers) :
    newerFirst (s.renumber φ) (t.renumber φ) = newerFirst s t := by
  have hle : φ t.number ≤ φ s.number ↔ t.number ≤ s.number := h.le_iff_le ht hs
  rw [Bool.eq_iff_iff, newerFirst_iff, newerFirst_iff]
  show _ ∨ _ ∧ φ t.number ≤ φ s.number ↔ _
  rw [hle]
  rfl

/-- **A snapshot does not change with the numbers**, if their order does not. -/
theorem Orderly.snapshot_renumber (h : f.Orderly φ) : (f.renumber φ).snapshot = f.snapshot := by
  have hsort : (f.slots.mergeSort newerFirst).map (Slot.renumber φ) =
      (f.slots.map (Slot.renumber φ)).mergeSort newerFirst := by
    refine List.map_mergeSort ?_
    intro s hs t ht
    exact (newerFirst_renumber h.ascending (number_mem_inUse hs) (number_mem_inUse ht)).symm
  rw [snapshot, snapshot, slots_renumber, ← hsort, List.map_map]
  rfl

end View

/-! ### Entering under other numbers -/

section Entering

variable {φ : Nat → Nat} {f : Feed α η}

/-- The slots of a page follow the first one. -/
theorem map_renumber_slotsFrom {first : Nat} (h : ∀ i, φ (first + i) = φ first + i)
    (entries : List α) :
    (slotsFrom first entries).map (Slot.renumber φ) = slotsFrom (φ first) entries := by
  refine List.ext_getElem (by simp) ?_
  intro i _ _
  simp only [slotsFrom, Slot.renumber, List.getElem_map, List.getElem_mapIdx, h]

/-- A page gets the numbers that the renumbering has for it. -/
theorem addArchive_renumber (h : ∀ i, φ (f.nextNumber + i) = φ f.nextNumber + i)
    (page : List α) : (f.renumber φ).addArchive page = (f.addArchive page).renumber φ := by
  have harchive : f.archive.map (Slot.renumber φ) ++ slotsFrom (φ f.nextNumber) page =
      (f.archive ++ slotsFrom f.nextNumber page).map (Slot.renumber φ) := by
    rw [List.map_append, map_renumber_slotsFrom h]
  have hnext : φ f.nextNumber + page.length = φ (f.nextNumber + page.length) := (h _).symm
  exact congrArg₂ (fun archive nextNumber =>
    { f.renumber φ with archive, nextNumber, dirty := true }) harchive hnext

/-- Looking at the watermark does not depend on the numbers. -/
theorem checkWatermark_renumber (φ : Nat → Nat) (f : Feed α η) :
    (f.renumber φ).checkWatermark = (f.checkWatermark.1.renumber φ, f.checkWatermark.2) :=
  checkWatermark_of_same (renumber φ) rfl rfl (List.length_map _) rfl rfl

/-- A realtime entry gets the number that the renumbering has for it. -/
theorem addRealtime_renumber (h : ∀ i, φ (f.nextNumber + i) = φ f.nextNumber + i) (entry : α) :
    (f.renumber φ).addRealtime entry =
      ((f.addRealtime entry).1.renumber φ, (f.addRealtime entry).2) := by
  have hfull : (f.renumber φ).isFull = f.isFull := by
    rw [isFull, isFull]
    exact congrArg (fun n => decide (f.sizing.capacity ≤ n)) (List.length_map _)
  rw [addRealtime, addRealtime, hfull]
  split
  · rfl
  · rw [← checkWatermark_renumber]
    have hrealtime : f.realtime.map (Slot.renumber φ) ++ [(⟨φ f.nextNumber, entry⟩ : Slot α)] =
        (f.realtime ++ [(⟨f.nextNumber, entry⟩ : Slot α)]).map (Slot.renumber φ) := by
      rw [List.map_append]
      rfl
    have hnext : φ f.nextNumber + 1 = φ (f.nextNumber + 1) := (h 1).symm
    exact congrArg₂ (fun realtime nextNumber =>
      checkWatermark { f.renumber φ with realtime, nextNumber, dirty := true }) hrealtime hnext

end Entering

/-! ### The numbers in use -/

/-- What a feed does to the **numbers in use**: it takes them from those that were in use
before. -/
structure Advances (f g : Feed α η) : Prop where
  next : f.nextNumber ≤ g.nextNumber
  inUse : g.inUse ⊆ f.inUse

/-- The numbers in use are those of before, over two steps. -/
theorem Advances.trans {f g h : Feed α η} (hfg : f.Advances g) (hgh : g.Advances h) :
    f.Advances h :=
  ⟨hfg.next.trans hgh.next, fun _ hn => hfg.inUse (hgh.inUse hn)⟩

/-- What is orderly stays so for a feed that takes its numbers from those in use. -/
theorem Orderly.of_advances {f g : Feed α η} {φ : Nat → Nat} (h : f.Orderly φ)
    (hfg : f.Advances g) : g.Orderly φ := by
  refine ⟨fun _ hm _ hn => h.ascending (hfg.inUse hm) (hfg.inUse hn), ?_⟩
  intro i
  obtain ⟨k, hk⟩ := Nat.exists_eq_add_of_le hfg.next
  rw [hk, Nat.add_assoc, h.consecutive, h.consecutive, Nat.add_assoc]

/-- To keep some of the slots and to give some of the next numbers is to advance. -/
theorem advances_of_slots {f g : Feed α η} (hnext : f.nextNumber ≤ g.nextNumber)
    (hslots : ∀ s ∈ g.archive ++ g.realtime,
      s ∈ f.archive ++ f.realtime ∨ f.nextNumber ≤ s.number) : f.Advances g := by
  refine ⟨hnext, ?_⟩
  rintro n (hheld | hfree)
  · obtain ⟨s, hs, rfl⟩ := List.mem_map.mp hheld
    rcases hslots s hs with hold | hnew
    · exact .inl (List.mem_map_of_mem hold)
    · exact .inr hnew
  · exact .inr (hnext.trans hfree)

/-- To leave the slots and the next number alone is to advance. -/
theorem advances_of_unchanged {f g : Feed α η} (harchive : g.archive = f.archive)
    (hrealtime : g.realtime = f.realtime) (hnext : g.nextNumber = f.nextNumber) :
    f.Advances g := by
  refine advances_of_slots (Nat.le_of_eq hnext.symm) ?_
  intro s hs
  rw [harchive, hrealtime] at hs
  exact .inl hs

/-- A reset gives all numbers free. -/
theorem advances_reset (f : Feed α η) : f.Advances f.reset :=
  advances_of_slots (Nat.le_refl _) (fun _ hs => nomatch hs)

/-- A page takes new numbers. -/
theorem advances_addArchive (f : Feed α η) (page : List α) : f.Advances (f.addArchive page) := by
  refine advances_of_slots (Nat.le_add_right _ _) ?_
  intro s hs
  rcases List.mem_append.mp hs with hs | hs
  · rcases List.mem_append.mp hs with hs | hs
    · exact .inl (List.mem_append_left _ hs)
    · obtain ⟨i, hi, rfl⟩ := List.mem_mapIdx.mp hs
      exact .inr (Nat.le_add_right _ _)
  · exact .inl (List.mem_append_right _ hs)

/-- A realtime entry takes a new number, or none if there is no room. -/
theorem advances_addRealtime (f : Feed α η) (entry : α) :
    f.Advances (f.addRealtime entry).1 := by
  rw [addRealtime]
  split
  · exact advances_of_unchanged rfl rfl rfl
  · refine advances_of_slots ?_ ?_
    · rw [nextNumber_checkWatermark]
      exact Nat.le_succ _
    · intro s hs
      rw [archive_checkWatermark, realtime_checkWatermark, ← List.append_assoc] at hs
      rcases List.mem_append.mp hs with hs | hs
      · exact .inl hs
      · obtain rfl := List.mem_singleton.mp hs
        exact .inr (Nat.le_refl _)

/-! ### Actions under other numbers -/

section Actions

variable [Entry α κ ω] [DecidableEq κ] [Ord ω] {f : Feed α η} {φ : Nat → Nat}

/-- Compaction takes new numbers for what it keeps. -/
theorem advances_compact (f : Feed α η) (limit : Nat) : f.Advances (f.compact limit) :=
  (advances_reset f).trans (advances_addArchive f.reset _)

/-- **No action brings up a number that was not in use.** -/
theorem advances_act (f : Feed α η) (action : Action α η) : f.Advances (f.act action).1 := by
  cases action with
  | setPolicy | setCompactLimit => exact advances_of_unchanged rfl rfl rfl
  | operate operation =>
      cases operation with
      | archive page => exact advances_addArchive f page
      | realtime entry => exact advances_addRealtime f entry
      | reset => exact advances_reset f
      | compact limit => exact advances_compact f limit
      | compactToLimit => exact advances_compact f f.compactLimit
      | handler => exact advances_of_unchanged rfl rfl rfl
      | poll =>
          show f.Advances f.poll.2
          rw [poll_snd]
          exact advances_of_unchanged rfl rfl rfl

/-- Compaction keeps the same entries under an orderly renumbering. -/
theorem Orderly.compact_renumber (h : f.Orderly φ) (limit : Nat) :
    (f.renumber φ).compact limit = (f.compact limit).renumber φ := by
  rw [compact, compact, h.snapshot_renumber]
  exact addArchive_renumber (f := f.reset) h.consecutive _

/-- A poll hands over the same. -/
theorem Orderly.poll_renumber (h : f.Orderly φ) :
    (f.renumber φ).poll = (f.poll.1, f.poll.2.renumber φ) := by
  rw [poll, poll, h.snapshot_renumber]
  show (if f.dirty then _ else _) = _
  split
  · rfl
  · rfl

/-- **Renumbering commutes with every action**, which tells the same. -/
theorem Orderly.act_renumber (h : f.Orderly φ) (action : Action α η) :
    (f.renumber φ).act action = ((f.act action).1.renumber φ, (f.act action).2) := by
  cases action with
  | setPolicy | setCompactLimit => rfl
  | operate operation =>
      cases operation with
      | archive page => exact congrArg (·, []) (addArchive_renumber h.consecutive page)
      | realtime entry => exact addRealtime_renumber h.consecutive entry
      | reset | handler => rfl
      | compact limit => exact congrArg (·, []) (h.compact_renumber limit)
      | compactToLimit => exact congrArg (·, []) (h.compact_renumber f.compactLimit)
      | poll => exact congrArg (fun polled => (polled.2, [])) h.poll_renumber

/-- Any action hands over the same. -/
theorem Orderly.handedBy?_renumber (h : f.Orderly φ) (action : Action α η) :
    (f.renumber φ).handedBy? action = f.handedBy? action := by
  cases action with
  | setPolicy | setCompactLimit => rfl
  | operate operation =>
      cases operation with
      | poll =>
          show (f.renumber φ).poll.1 = f.poll.1
          rw [h.poll_renumber]
      | archive | realtime | reset | compact | compactToLimit | handler => rfl

/-- The renumbered feed looks the same. -/
theorem Orderly.sight_renumber (h : f.Orderly φ) : (f.renumber φ).sight = f.sight := by
  have harchived : (f.renumber φ).archive.length = f.archive.length := List.length_map _
  have hheld : (f.renumber φ).realtime.length = f.realtime.length := List.length_map _
  rw [sight, sight, h.snapshot_renumber, harchived, hheld]
  rfl

/-- A host notices the same of a sequence of actions, by induction on the sequence: what was
orderly before an action is orderly after it. -/
theorem Orderly.observations_renumber (h : f.Orderly φ) (actions : List (Action α η)) :
    (f.renumber φ).observations actions = f.observations actions := by
  induction actions generalizing f with
  | nil => rfl
  | cons action rest ih =>
      have hnext := h.of_advances (advances_act f action)
      have hobserve : (f.renumber φ).observe action = f.observe action := by
        rw [observe, observe, h.act_renumber, h.handedBy?_renumber, hnext.sight_renumber]
      rw [observations, observations, hobserve, h.act_renumber, ih hnext]

/-- **A renumbered feed cannot be told from the feed.** -/
theorem Orderly.indistinguishable (h : f.Orderly φ) :
    (f.renumber φ).Indistinguishable f :=
  ⟨h.sight_renumber, h.observations_renumber⟩

end Actions

/-! ### Two compactions -/

section Compactions

variable [Entry α κ ω] [DecidableEq κ] [Ord ω] [Std.TransOrd ω]

/-- **Two compactions are the one to the smaller limit**, with numbers that are greater by
as many as the first one has given. -/
theorem compact_compact_eq (f : Feed α η) (a b : Nat) :
    (f.compact a).compact b =
      (f.compact (min a b)).renumber (· + (f.snapshot.take a).length) := by
  have hkept : (f.compact a).snapshot.take b = f.snapshot.take (min a b) := by
    rw [snapshot_compact, List.take_take, Nat.min_comm]
  have hreset : (f.compact a).reset = f.reset.renumber (· + (f.snapshot.take a).length) := by
    have hnext : (f.compact a).nextNumber = f.nextNumber + (f.snapshot.take a).length :=
      congrArg (f.nextNumber + ·) List.length_reverse
    exact congrArg (fun nextNumber => { f.reset with nextNumber }) hnext
  rw [compact, hkept, hreset, addArchive_renumber (orderly_add f.reset _).consecutive]
  rfl

/-- **A host cannot tell how often a feed was compacted.** Two compactions are as good as the
one to the smaller of the two limits, whatever happens later; so a compaction to the same
limit again makes no difference. In general, no feed can be told from the same one under
other numbers, if their order is the same and they go on in the same way. -/
theorem indistinguishable_compact_compact (f : Feed α η) (a b : Nat) :
    ((f.compact a).compact b).Indistinguishable (f.compact (min a b)) ∧
      ((f.compact a).compact a).Indistinguishable (f.compact a) ∧
      ∀ φ, f.Orderly φ → (f.renumber φ).Indistinguishable f := by
  refine ⟨?_, ?_, fun φ h => h.indistinguishable⟩
  · rw [compact_compact_eq]
    exact (orderly_add _ _).indistinguishable
  · rw [compact_compact_eq, Nat.min_self]
    exact (orderly_add _ _).indistinguishable

end Compactions

/-! ### A feed with ties -/

/-- A renumbering with gaps between the numbers that the feed with ties holds, and none after
them. -/
def spread (n : Nat) : Nat :=
  if n < 7 then 2 * n else n + 7

/-- The gaps leave the order of the numbers as it was. -/
theorem orderly_spread : tied.Orderly spread where
  ascending := by
    intro m _ n _ hlt
    show spread m < spread n
    unfold spread
    split_ifs
    all_goals omega
  consecutive := by
    intro i
    have hnext : tied.nextNumber = 7 := by cbv
    rw [hnext, spread, spread, if_neg (by omega), if_neg (by omega)]
    omega

/-- The feed with ties after two compactions and after one: the next numbers are different,
and a host cannot tell one from the other. Nor can it tell that the numbers have been
spread. -/
theorem indistinguishable_compact_tied :
    ((tied.compact 3).compact 2).nextNumber = 12 ∧ (tied.compact 2).nextNumber = 9 ∧
      ((tied.compact 3).compact 2).Indistinguishable (tied.compact 2) ∧
      tied.Orderly spread ∧ (tied.renumber spread).Indistinguishable tied := by
  obtain ⟨htwo, -, hnumbers⟩ := indistinguishable_compact_compact tied 3 2
  exact ⟨by cbv, by cbv, htwo, orderly_spread, hnumbers spread orderly_spread⟩

end Feed

end Dashboard
