import Dashboard.Proofs.SampleStore
import Mathlib.Data.List.Pairwise
import Mathlib.Order.Compare

/-!
# What a Time Window Keeps

A time window forgets the samples that are too old as soon as it gets a new one, and it finds
the newest sample among those that it has kept. So it is not plain that it keeps the right ones:
a sample that came in late may have been dropped or kept on account of others that are not
there any more. This module says what a window keeps without speaking of that. It is what was
pushed since it was cleared, sorted by time, without the samples that are older than the newest
of all by more than the period.

A list that is sorted by time, with the samples of one time in a given order, is determined by
what it has of each time (`eq_of_ordered`). So the invariant (`Keeps`) says three things of what
is kept: it is in the order of the times; it has of each time either all that was pushed or
nothing, as the newest pushed sample says; and unless the period is negative, none was pushed
that is newer than all that are kept. The last one carries the argument. What is too old for
the newest kept sample is too old for the newest pushed one, and the other way round.

## Convention

An instant is placed on a line of nanoseconds (`sinceEpoch`), where a period is subtracted. The
instants within a leap second have no place of their own on it, so all samples are to be taken
outside of leap seconds (`Regular`).

## Main results

* `Regular.compare_eq`, `Regular.minus` — instants are ordered and moved as on the line.
* `eq_of_ordered` — what determines a sorted list.
* `insert_at_position` — a new sample goes where any search for its position ends.
* `Keeps.push` — what a push does to what is kept.
* `samples_after` — what a window keeps after any operations.
-/

namespace Dashboard

/-! ### The line of time -/

namespace Instant

/-- An instant is **regular** if it does not lie within a leap second. -/
structure Regular (t : Instant) : Prop where
  nonneg : 0 ≤ t.nanos
  small : t.nanos < nanosPerSecond

/-- The number of nanoseconds since the beginning of 1970. -/
def sinceEpoch (t : Instant) : Int :=
  t.seconds * nanosPerSecond + t.nanos

/-- Regular instants are ordered as on the line. -/
theorem Regular.compare_eq {t u : Instant} (ht : t.Regular) (hu : u.Regular) :
    compare t u = compare t.sinceEpoch u.sinceEpoch := by
  obtain ⟨ht0, ht1⟩ := ht
  obtain ⟨hu0, hu1⟩ := hu
  have hlex : compare t u = (compare t.seconds u.seconds).then (compare t.nanos u.nanos) := rfl
  rw [nanosPerSecond] at ht1 hu1
  rw [hlex, sinceEpoch, sinceEpoch, nanosPerSecond]
  rcases lt_trichotomy t.seconds u.seconds with hlt | heq | hgt
  · rw [compare_lt_iff_lt.mpr hlt, eq_comm]
    exact compare_lt_iff_lt.mpr (by omega)
  · rw [compare_eq_iff_eq.mpr heq]
    show compare t.nanos u.nanos = _
    rcases lt_trichotomy t.nanos u.nanos with hlt | heq' | hgt
    · rw [compare_lt_iff_lt.mpr hlt, eq_comm]
      exact compare_lt_iff_lt.mpr (by omega)
    · rw [compare_eq_iff_eq.mpr heq', eq_comm]
      exact compare_eq_iff_eq.mpr (by omega)
    · rw [compare_gt_iff_gt.mpr hgt, eq_comm]
      exact compare_gt_iff_gt.mpr (by omega)
  · rw [compare_gt_iff_gt.mpr hgt, eq_comm]
    exact compare_gt_iff_gt.mpr (by omega)

/-- Regular instants are in the order of their nanoseconds. -/
theorem Regular.isLE_compare {t u : Instant} (ht : t.Regular) (hu : u.Regular) :
    (compare t u).isLE = decide (t.sinceEpoch ≤ u.sinceEpoch) := by
  rw [ht.compare_eq hu, Bool.eq_iff_iff, decide_eq_true_iff, Std.isLE_compare]

/-- Regular instants are in the strict order of their nanoseconds, too. -/
theorem Regular.isLT_compare {t u : Instant} (ht : t.Regular) (hu : u.Regular) :
    (compare t u).isLT = decide (t.sinceEpoch < u.sinceEpoch) := by
  rw [ht.compare_eq hu, Bool.eq_iff_iff, decide_eq_true_iff, Ordering.isLT_iff_eq_lt,
    compare_lt_iff_lt]

/-- A duration is subtracted from a regular instant on the line, and leads to no leap
second. -/
theorem Regular.minus {t : Instant} (h : t.Regular) (duration : Int) :
    (t.minus duration).Regular ∧ (t.minus duration).sinceEpoch = t.sinceEpoch - duration := by
  have hplain : t.isLeap = false := decide_eq_false (Int.not_le.mpr h.small)
  rw [Instant.minus, plus, hplain, if_neg (by decide), ofNanos]
  refine ⟨⟨Int.emod_nonneg _ (by decide), Int.emod_lt_of_pos _ (by decide)⟩, ?_⟩
  have hdivided := Int.mul_ediv_add_emod (t.nanos + -duration) nanosPerSecond
  rw [sinceEpoch, sinceEpoch]
  dsimp only
  rw [nanosPerSecond] at hdivided ⊢
  omega

end Instant

/-- The place of a sample on the line of time. -/
def Sample.moment (s : Sample) : Int :=
  s.time.sinceEpoch

/-- Whole seconds are regular. -/
theorem Sample.regular_ofSeconds (seconds : Int) (value : Float) :
    (Sample.ofSeconds seconds value).time.Regular := by
  have hpos : (0 : Int) < nanosPerSecond := by decide
  exact ⟨le_refl _, hpos⟩

namespace TimeWindow

/-! ### Samples in order -/

/-- Samples in the order of their times. -/
def Ordered (samples : List Sample) : Prop :=
  samples.Pairwise fun s t => s.moment ≤ t.moment

/-- The last sample in order is the latest. -/
theorem Ordered.le_getLast {samples : List Sample} (h : Ordered samples) {last : Sample}
    (hlast : samples.getLast? = some last) {s : Sample} (hs : s ∈ samples) :
    s.moment ≤ last.moment := by
  obtain ⟨first, rfl⟩ := List.getLast?_eq_some_iff.mp hlast
  rcases List.mem_append.mp hs with hs | hs
  · exact (List.pairwise_append.mp h).2.2 s hs last (List.mem_singleton.mpr rfl)
  · rw [List.mem_singleton.mp hs]

/-- The samples of a moment, in the order in which they stand. -/
def atMoment (moment : Int) (samples : List Sample) : List Sample :=
  samples.filter fun s => s.moment = moment

/-- The samples of a moment. -/
theorem mem_atMoment {moment : Int} {samples : List Sample} {s : Sample} :
    s ∈ atMoment moment samples ↔ s ∈ samples ∧ s.moment = moment := by
  rw [atMoment, List.mem_filter, decide_eq_true_iff]

/-- A selection by the moment takes all samples of a moment or none. -/
theorem atMoment_filter (q : Int → Prop) [DecidablePred q] (t : Int) (samples : List Sample) :
    atMoment t (samples.filter fun s => q s.moment) = if q t then atMoment t samples else [] := by
  rw [atMoment, List.filter_filter]
  split
  · next hq =>
    refine List.filter_congr ?_
    intro s _
    by_cases hs : s.moment = t
    · simp [hs, hq]
    · simp [hs]
  · next hq =>
    rw [List.filter_eq_nil_iff]
    intro s _ hs
    rw [Bool.and_eq_true, decide_eq_true_iff, decide_eq_true_iff] at hs
    exact hq (hs.1 ▸ hs.2)

/-- The samples sorted by time; those of the same time stay in their order. -/
def sorted (samples : List Sample) : List Sample :=
  samples.mergeSort fun s t => s.moment ≤ t.moment

/-- Sorted samples are in the order of their moments. -/
theorem ordered_sorted (samples : List Sample) : Ordered (sorted samples) := by
  have hpairwise : (sorted samples).Pairwise fun s t => decide (s.moment ≤ t.moment) = true :=
    List.pairwise_mergeSort (by simp only [decide_eq_true_eq]; omega)
      (by simp only [Bool.or_eq_true, decide_eq_true_eq]; omega) samples
  exact hpairwise.imp of_decide_eq_true

/-- Sorting is **stable**: the samples of a moment stay in their order. -/
theorem atMoment_sorted (moment : Int) (samples : List Sample) :
    atMoment moment (sorted samples) = atMoment moment samples := by
  have hequal : (atMoment moment samples).Pairwise fun s t =>
      decide (s.moment ≤ t.moment) = true := by
    refine List.pairwise_of_forall_mem_list ?_
    intro s hs t ht
    rw [(mem_atMoment.mp hs).2, (mem_atMoment.mp ht).2]
    exact decide_eq_true (le_refl _)
  have hsublist : (atMoment moment samples).Sublist (sorted samples) :=
    List.sublist_mergeSort (by simp only [decide_eq_true_eq]; omega)
      (by simp only [Bool.or_eq_true, decide_eq_true_eq]; omega) hequal List.filter_sublist
  have hfiltered := hsublist.filter fun s => decide (s.moment = moment)
  have hagain : (atMoment moment samples).filter (fun s => decide (s.moment = moment)) =
      atMoment moment samples := List.filter_eq_self.mpr fun s hs => (List.mem_filter.mp hs).2
  rw [hagain] at hfiltered
  refine (hfiltered.eq_of_length ?_).symm
  exact ((List.mergeSort_perm samples _).filter _).length_eq.symm

/-- Samples that are the same at every moment are the same samples. -/
theorem mem_iff_of_atMoment_eq {samples samples' : List Sample}
    (heq : ∀ t, atMoment t samples = atMoment t samples') (s : Sample) :
    s ∈ samples ↔ s ∈ samples' := by
  have hs : s ∈ atMoment s.moment samples ↔ s ∈ atMoment s.moment samples' := by rw [heq]
  rw [mem_atMoment, mem_atMoment, and_iff_left rfl, and_iff_left rfl] at hs
  exact hs

/-- **What determines a sorted list**: what it has of each moment. Lists that agree in this begin
with the same sample, the first one of the least moment. -/
theorem eq_of_ordered {samples samples' : List Sample} (h : Ordered samples)
    (h' : Ordered samples') (heq : ∀ t, atMoment t samples = atMoment t samples') :
    samples = samples' := by
  have hmem := mem_iff_of_atMoment_eq heq
  induction samples generalizing samples' with
  | nil =>
      refine (List.eq_nil_iff_forall_not_mem.mpr ?_).symm
      intro s hs
      exact List.not_mem_nil ((hmem s).mpr hs)
  | cons a rest ih =>
      cases samples' with
      | nil => exact absurd ((hmem a).mp List.mem_cons_self) List.not_mem_nil
      | cons b rest' =>
          obtain ⟨ha, hrest⟩ := List.pairwise_cons.mp h
          obtain ⟨hb, hrest'⟩ := List.pairwise_cons.mp h'
          have hmoment : a.moment = b.moment := by
            have hab : a.moment ≤ b.moment := by
              rcases List.mem_cons.mp ((hmem b).mpr List.mem_cons_self) with rfl | hmem
              · exact le_refl _
              · exact ha b hmem
            have hba : b.moment ≤ a.moment := by
              rcases List.mem_cons.mp ((hmem a).mp List.mem_cons_self) with rfl | hmem
              · exact le_refl _
              · exact hb a hmem
            exact le_antisymm hab hba
          have hfirst := heq a.moment
          rw [atMoment, atMoment, List.filter_cons_of_pos (by simp),
            List.filter_cons_of_pos (by simp [hmoment])] at hfirst
          obtain ⟨rfl, -⟩ := List.cons_eq_cons.mp hfirst
          have hothers : ∀ t, atMoment t rest = atMoment t rest' := by
            intro t
            have ht := heq t
            rw [atMoment, atMoment, List.filter_cons, List.filter_cons] at ht
            split at ht
            · exact (List.cons_eq_cons.mp ht).2
            · exact ht
          rw [ih hrest hrest' hothers (mem_iff_of_atMoment_eq hothers)]

/-! ### Searching in order -/

section Search

variable {p : Sample → Bool} {samples : List Sample}

/-- A test that no sample passes behind one that fails it selects the first ones. -/
theorem takeWhile_eq_filter (h : samples.Pairwise fun s t => p t = true → p s = true) :
    samples.takeWhile p = samples.filter p := by
  induction samples with
  | nil => rfl
  | cons s rest ih =>
      obtain ⟨hs, hrest⟩ := List.pairwise_cons.mp h
      by_cases hp : p s = true
      · rw [List.takeWhile_cons_of_pos hp, List.filter_cons_of_pos hp, ih hrest]
      · rw [List.takeWhile_cons_of_neg hp, List.filter_cons_of_neg hp, eq_comm,
          List.filter_eq_nil_iff]
        intro t ht hpt
        exact hp (hs t ht hpt)

/-- And it leaves the others. -/
theorem dropWhile_eq_filter (h : samples.Pairwise fun s t => p t = true → p s = true) :
    samples.dropWhile p = samples.filter fun s => !p s := by
  induction samples with
  | nil => rfl
  | cons s rest ih =>
      obtain ⟨hs, hrest⟩ := List.pairwise_cons.mp h
      by_cases hp : p s = true
      · rw [List.dropWhile_cons_of_pos hp, List.filter_cons_of_neg (by simp [hp]), ih hrest]
      · have hall : ∀ t ∈ rest, (!p t) = true := by
          intro t ht
          rw [Bool.not_eq_true']
          exact Bool.eq_false_iff.mpr fun hpt => hp (hs t ht hpt)
        rw [List.dropWhile_cons_of_neg hp, List.filter_cons_of_pos (by simp [hp]),
          List.filter_eq_self.mpr hall]

end Search

section Steps

variable {samples : List Sample} {sample : Sample} {period : Int}

/-- **A new sample stands behind those that are not later**, and in front of the others. -/
theorem insert_eq (h : Ordered samples) (hregular : ∀ s ∈ samples, s.time.Regular)
    (hsample : sample.time.Regular) :
    insert sample samples = samples.filter (fun s => s.moment ≤ sample.moment) ++
      sample :: samples.filter fun s => sample.moment < s.moment := by
  have htest : ∀ s ∈ samples,
      (compare s.time sample.time).isLE = decide (s.moment ≤ sample.moment) :=
    fun s hs => (hregular s hs).isLE_compare hsample
  have hfirst : samples.Pairwise fun s t =>
      (compare t.time sample.time).isLE = true → (compare s.time sample.time).isLE = true := by
    refine h.imp_of_mem ?_
    intro s t hs ht hst
    rw [htest s hs, htest t ht, decide_eq_true_iff, decide_eq_true_iff]
    omega
  rw [insert, takeWhile_eq_filter hfirst, dropWhile_eq_filter hfirst, List.filter_congr htest]
  congr 2
  refine List.filter_congr ?_
  intro s hs
  rw [htest s hs, ← decide_not, decide_eq_decide]
  omega

/-- **What is too old for the last sample goes**, and nothing else. -/
theorem expired_eq (h : Ordered samples) (hregular : ∀ s ∈ samples, s.time.Regular)
    {newest : Sample} (hnewest : samples.getLast? = some newest) :
    expired period samples = samples.filter fun s => newest.moment - period ≤ s.moment := by
  obtain ⟨hcutoff, hmoment⟩ :=
    (hregular newest (List.mem_of_getLast? hnewest)).minus period
  have htest : ∀ s ∈ samples, (compare s.time (newest.time.minus period)).isLT =
      decide (s.moment < newest.moment - period) := by
    intro s hs
    rw [(hregular s hs).isLT_compare hcutoff, hmoment]
    rfl
  have hfirst : samples.Pairwise fun s t =>
      (compare t.time (newest.time.minus period)).isLT = true →
        (compare s.time (newest.time.minus period)).isLT = true := by
    refine h.imp_of_mem ?_
    intro s t hs ht hst
    rw [htest s hs, htest t ht, decide_eq_true_iff, decide_eq_true_iff]
    omega
  rw [expired, hnewest]
  show samples.dropWhile _ = _
  rw [dropWhile_eq_filter hfirst]
  refine List.filter_congr ?_
  intro s hs
  rw [htest s hs, ← decide_not, decide_eq_decide]
  omega

/-- A **position** for a sample among others: in front of it none is later, and behind it all
are. -/
structure IsPosition (sample : Sample) (samples : List Sample) (n : Nat) : Prop where
  le_length : n ≤ samples.length
  before : ∀ s ∈ samples.take n, s.moment ≤ sample.moment
  behind : ∀ s ∈ samples.drop n, sample.moment < s.moment

/-- Behind everything that is not newer, and in front of everything that is, a sample has a
position. -/
theorem isPosition_append {front rest : List Sample}
    (hfront : ∀ s ∈ front, s.moment ≤ sample.moment)
    (hrest : ∀ s ∈ rest, sample.moment < s.moment) :
    IsPosition sample (front ++ rest) front.length := by
  refine ⟨List.length_append ▸ Nat.le_add_right _ _, ?_, ?_⟩
  · rw [List.take_left]
    exact hfront
  · rw [List.drop_left]
    exact hrest

/-- Among samples in order there is a position for every sample. -/
theorem exists_position (h : Ordered samples) (sample : Sample) :
    ∃ n, IsPosition sample samples n := by
  have hfirst : samples.Pairwise fun s t =>
      decide (t.moment ≤ sample.moment) = true → decide (s.moment ≤ sample.moment) = true := by
    refine h.imp ?_
    intro s t hst
    rw [decide_eq_true_iff, decide_eq_true_iff]
    omega
  have hsplit := List.takeWhile_append_dropWhile (p := fun s : Sample => s.moment ≤ sample.moment)
    (l := samples)
  rw [takeWhile_eq_filter hfirst, dropWhile_eq_filter hfirst] at hsplit
  rw [← hsplit]
  refine ⟨_, isPosition_append ?_ ?_⟩
  · intro s hs
    exact of_decide_eq_true (List.mem_filter.mp hs).2
  · intro s hs
    have hnot := (List.mem_filter.mp hs).2
    rw [Bool.not_eq_true', decide_eq_false_iff_not] at hnot
    omega

/-- **Any search for a position finds where a new sample goes.** -/
theorem insert_at_position (h : Ordered samples) (hregular : ∀ s ∈ samples, s.time.Regular)
    (hsample : sample.time.Regular) {n : Nat} (hn : IsPosition sample samples n) :
    insert sample samples = samples.take n ++ sample :: samples.drop n := by
  have hbefore : samples.filter (fun s => s.moment ≤ sample.moment) = samples.take n := by
    conv_lhs => rw [← List.take_append_drop n samples]
    rw [List.filter_append, List.filter_eq_self.mpr fun s hs => decide_eq_true (hn.before s hs),
      List.filter_eq_nil_iff.mpr, List.append_nil]
    intro s hs hle
    have hlater := hn.behind s hs
    have hearlier := of_decide_eq_true hle
    omega
  have hbehind : samples.filter (fun s => sample.moment < s.moment) = samples.drop n := by
    conv_lhs => rw [← List.take_append_drop n samples]
    rw [List.filter_append, List.filter_eq_self.mpr fun s hs => decide_eq_true (hn.behind s hs),
      List.filter_eq_nil_iff.mpr, List.nil_append]
    intro s hs hlt
    have hearlier := hn.before s hs
    have hlater := of_decide_eq_true hlt
    omega
  rw [insert_eq h hregular hsample, hbefore, hbehind]

/-- A new sample is put in order. -/
theorem ordered_insert (h : Ordered samples) (hregular : ∀ s ∈ samples, s.time.Regular)
    (hsample : sample.time.Regular) : Ordered (insert sample samples) := by
  rw [insert_eq h hregular hsample]
  refine List.pairwise_append.mpr ⟨h.filter _, List.pairwise_cons.mpr ⟨?_, h.filter _⟩, ?_⟩
  · intro t ht
    have hlater := of_decide_eq_true (List.mem_filter.mp ht).2
    omega
  · intro s hs t ht
    have hearlier := of_decide_eq_true (List.mem_filter.mp hs).2
    rcases List.mem_cons.mp ht with rfl | ht
    · exact hearlier
    · have hlater := of_decide_eq_true (List.mem_filter.mp ht).2
      omega

/-- A new sample is the last one of its moment. -/
theorem atMoment_insert (h : Ordered samples) (hregular : ∀ s ∈ samples, s.time.Regular)
    (hsample : sample.time.Regular) (t : Int) :
    atMoment t (insert sample samples) =
      atMoment t samples ++ if sample.moment = t then [sample] else [] := by
  have hsplit : atMoment t (insert sample samples) =
      (if t ≤ sample.moment then atMoment t samples else []) ++
        (if sample.moment = t then [sample] else []) ++
        if sample.moment < t then atMoment t samples else [] := by
    rw [← atMoment_filter (· ≤ sample.moment), ← atMoment_filter (sample.moment < ·),
      insert_eq h hregular hsample, atMoment, List.filter_append, List.filter_cons,
      List.append_assoc]
    simp only [decide_eq_true_eq]
    split
    · rfl
    · rfl
  rw [hsplit]
  by_cases hlater : sample.moment < t
  · rw [if_neg (by omega), if_neg (by omega), if_pos hlater, List.append_nil, List.append_nil,
      List.nil_append]
  · rw [if_pos (by omega), if_neg hlater, List.append_nil]

end Steps

/-! ### What is kept -/

/-- Whether no pushed sample is newer than a moment by more than the period. -/
def InPeriod (period : Int) (pushed : List Sample) (moment : Int) : Prop :=
  ∀ s ∈ pushed, s.moment - period ≤ moment

/-- Samples are what a window **keeps** of those that were pushed. -/
structure Keeps (period : Int) (pushed samples : List Sample) : Prop where
  ordered : Ordered samples
  /-- Of a moment in the period all samples are kept. -/
  all : ∀ t, InPeriod period pushed t → atMoment t samples = atMoment t pushed
  /-- Of any other moment none is kept. -/
  none : ∀ t, ¬ InPeriod period pushed t → atMoment t samples = []
  /-- Unless the period is negative, no pushed sample is newer than all that are kept. -/
  newest : 0 ≤ period → ∀ s ∈ pushed, ∃ t ∈ samples, s.moment ≤ t.moment

namespace Keeps

variable {period : Int} {pushed samples : List Sample}

/-- What is kept was pushed, and is in the period. -/
theorem mem_pushed (h : Keeps period pushed samples) {s : Sample} (hs : s ∈ samples) :
    s ∈ pushed ∧ InPeriod period pushed s.moment := by
  have hmem : s ∈ atMoment s.moment samples := mem_atMoment.mpr ⟨hs, rfl⟩
  by_cases hperiod : InPeriod period pushed s.moment
  · rw [h.all _ hperiod] at hmem
    exact ⟨(mem_atMoment.mp hmem).1, hperiod⟩
  · rw [h.none _ hperiod] at hmem
    exact absurd hmem List.not_mem_nil

/-- Nothing is kept where nothing was pushed. -/
theorem nil (period : Int) : Keeps period [] [] :=
  ⟨List.Pairwise.nil, fun _ _ => rfl, fun _ _ => rfl,
    fun _ _ hs => absurd hs List.not_mem_nil⟩

/-- **What is recent for those that are kept is in the period**, when a sample is pushed: no pushed
sample that is not there any more makes it too old. For the new sample itself the samples that were
kept are enough, as nothing pushed is newer than these. -/
theorem inPeriod_of_recent (h : Keeps period pushed samples) {sample s : Sample} {latest : Int}
    (hlatest : ∀ u ∈ insert sample samples, u.moment ≤ latest) (hs : s ∈ insert sample samples)
    (hrecent : latest - period ≤ s.moment) : InPeriod period (pushed ++ [sample]) s.moment := by
  intro u hu
  have hsample := hlatest sample (mem_insert.mpr (.inl rfl))
  rcases List.mem_append.mp hu with hpushed | hu
  · rcases mem_insert.mp hs with hnew | hold
    · -- the new sample itself
      have hperiod : 0 ≤ period := by
        rw [hnew] at hrecent
        omega
      obtain ⟨v, hv, huv⟩ := h.newest hperiod u hpushed
      have hv_le := hlatest v (mem_insert.mpr (.inr hv))
      omega
    · exact (h.mem_pushed hold).2 u hpushed
  · rw [List.mem_singleton.mp hu]
    omega

/-- **A push keeps what is to be kept.** The last sample of all is the newest one that is kept. -/
theorem push (h : Keeps period pushed samples) {sample : Sample}
    (hregular : ∀ s ∈ pushed ++ [sample], s.time.Regular) :
    Keeps period (pushed ++ [sample]) (expired period (insert sample samples)) := by
  have hsample : sample.time.Regular :=
    hregular sample (List.mem_append_right _ (List.mem_singleton.mpr rfl))
  have hsamples : ∀ s ∈ samples, s.time.Regular :=
    fun s hs => hregular s (List.mem_append_left _ (h.mem_pushed hs).1)
  have hinserted : ∀ s ∈ insert sample samples, s ∈ pushed ++ [sample] := by
    intro s hs
    rcases mem_insert.mp hs with rfl | hs
    · exact List.mem_append_right _ (List.mem_singleton.mpr rfl)
    · exact List.mem_append_left _ (h.mem_pushed hs).1
  have hordered := ordered_insert h.ordered hsamples hsample
  have hat := atMoment_insert h.ordered hsamples hsample
  obtain ⟨last, hlast⟩ : ∃ last, (insert sample samples).getLast? = some last := by
    have hne : insert sample samples ≠ [] := List.ne_nil_of_mem (mem_insert.mpr (.inl rfl))
    exact ⟨_, List.getLast?_eq_some_getLast hne⟩
  have hmem := List.mem_of_getLast? hlast
  have hnewest : ∀ s ∈ insert sample samples, s.moment ≤ last.moment :=
    fun s hs => hordered.le_getLast hlast hs
  rw [expired_eq hordered (fun s hs => hregular s (hinserted s hs)) hlast]
  have hkept : ∀ t, atMoment t
      ((insert sample samples).filter fun s => last.moment - period ≤ s.moment) =
        if last.moment - period ≤ t then atMoment t (insert sample samples) else [] :=
    fun t => atMoment_filter (last.moment - period ≤ ·) t _
  refine ⟨hordered.filter _, ?_, ?_, ?_⟩
  · intro t ht
    have hbefore : InPeriod period pushed t := fun s hs => ht s (List.mem_append_left _ hs)
    rw [hkept, if_pos (ht last (hinserted last hmem)), hat, h.all t hbefore, atMoment, atMoment,
      List.filter_append, List.filter_singleton, Bool.cond_decide]
  · intro t ht
    rw [hkept]
    split
    · next hrecent =>
      rw [List.eq_nil_iff_forall_not_mem]
      intro s hs
      obtain ⟨hinsert, rfl⟩ := mem_atMoment.mp hs
      exact ht (h.inPeriod_of_recent hnewest hinsert hrecent)
    · rfl
  · intro hperiod s hs
    refine ⟨last, List.mem_filter.mpr ⟨hmem, decide_eq_true (by omega)⟩, ?_⟩
    rcases List.mem_append.mp hs with hs | hs
    · obtain ⟨u, hu, hsu⟩ := h.newest hperiod s hs
      exact le_trans hsu (hnewest u (mem_insert.mpr (.inr hu)))
    · exact hnewest s (mem_insert.mpr (.inl (List.mem_singleton.mp hs)))

end Keeps

/-- What a window of a period is to have kept of the samples that were pushed: all that are no
older than the period before the newest of them, sorted by time. -/
def kept (period : Int) (pushed : List Sample) : List Sample :=
  match (pushed.map Sample.moment).max? with
  | none => []
  | some newest => (sorted pushed).filter fun s => newest - period ≤ s.moment

/-- The newest of the pushed samples alone decides what is in the period. -/
theorem inPeriod_iff {period newest : Int} {pushed : List Sample}
    (hnewest : (pushed.map Sample.moment).max? = some newest) (t : Int) :
    InPeriod period pushed t ↔ newest - period ≤ t := by
  have hbound : newest ≤ t + period ↔ ∀ m ∈ pushed.map Sample.moment, m ≤ t + period :=
    List.max?_le_iff hnewest
  rw [List.forall_mem_map] at hbound
  constructor
  · intro h
    have hle := hbound.mpr fun s hs => by
      have hs' := h s hs
      omega
    omega
  · intro h s hs
    have hle := hbound.mp (by omega) s hs
    omega

/-- **What a window keeps is what it is to keep.** -/
theorem Keeps.eq_kept {period : Int} {pushed samples : List Sample}
    (h : Keeps period pushed samples) : samples = kept period pushed := by
  rw [kept]
  split
  · next hnone =>
    have hempty : pushed = [] := List.map_eq_nil_iff.mp (List.max?_eq_none_iff.mp hnone)
    rw [List.eq_nil_iff_forall_not_mem]
    intro s hs
    have hmem := (h.mem_pushed hs).1
    rw [hempty] at hmem
    exact List.not_mem_nil hmem
  · next newest hnewest =>
    refine eq_of_ordered h.ordered ((ordered_sorted pushed).filter _) ?_
    intro t
    rw [atMoment_filter (newest - period ≤ ·), atMoment_sorted]
    split
    · next ht => exact h.all t ((inPeriod_iff hnewest t).mpr ht)
    · next ht => exact h.none t fun hperiod => ht ((inPeriod_iff hnewest t).mp hperiod)

/-- Nothing that is done with a window changes its period. -/
theorem period_after (w : TimeWindow) (operations : List SampleStore.Operation) :
    (SampleStore.after w operations).period = w.period := by
  induction operations generalizing w with
  | nil => rfl
  | cons operation rest ih =>
      refine (ih (SampleStore.step w operation)).trans ?_
      cases operation with
      | push sample => rfl
      | clear => rfl

/-- A window keeps what it is to keep, by induction on what was done with it. -/
theorem keeps_after (period : Int) (operations : List SampleStore.Operation)
    (hregular : ∀ s ∈ SampleStore.pushed operations, s.time.Regular) :
    Keeps period (SampleStore.pushed operations)
      (SampleStore.after (ofPeriod period) operations).samples := by
  induction operations using List.reverseRecOn with
  | nil => exact Keeps.nil period
  | append_singleton operations operation ih =>
      rw [SampleStore.pushed, List.foldl_append] at hregular ⊢
      rw [SampleStore.after, List.foldl_append]
      cases operation with
      | push sample =>
          have hkeeps := ih fun s hs => hregular s (List.mem_append_left _ hs)
          show Keeps period _ (expired (SampleStore.after (ofPeriod period) operations).period _)
          rw [period_after]
          exact hkeeps.push hregular
      | clear => exact Keeps.nil period

/-- **What a window keeps.** Whatever is done with a window, in whatever order samples come in,
it keeps the samples that were pushed since it was cleared, sorted by time and those of the same
time in the order in which they were pushed, without the ones that are older than the newest by
more than the period. So none is lost that is in the period of the newest, and no other is kept.
And there is always a position for the next sample, where it is put before those that are too
old go. -/
theorem samples_after (period : Int) (operations : List SampleStore.Operation)
    (hregular : ∀ s ∈ SampleStore.pushed operations, s.time.Regular) :
    SampleStore.samples (SampleStore.after (ofPeriod period) operations) =
        kept period (SampleStore.pushed operations) ∧
      (∀ s, s ∈ SampleStore.samples (SampleStore.after (ofPeriod period) operations) ↔
        s ∈ SampleStore.pushed operations ∧
          ∀ u ∈ SampleStore.pushed operations, u.moment - period ≤ s.moment) ∧
      ∀ sample : Sample, sample.time.Regular →
        let samples := SampleStore.samples (SampleStore.after (ofPeriod period) operations)
        (∃ n, IsPosition sample samples n) ∧
          ∀ n, IsPosition sample samples n →
            SampleStore.samples
                (SampleStore.after (ofPeriod period) (operations ++ [.push sample])) =
              expired period (samples.take n ++ sample :: samples.drop n) := by
  have hkeeps := keeps_after period operations hregular
  refine ⟨hkeeps.eq_kept, fun s => ⟨hkeeps.mem_pushed, ?_⟩, ?_⟩
  · intro hs
    have hmem : s ∈ atMoment s.moment (SampleStore.pushed operations) :=
      mem_atMoment.mpr ⟨hs.1, rfl⟩
    rw [← hkeeps.all s.moment hs.2] at hmem
    exact (mem_atMoment.mp hmem).1
  · intro sample hsample samples
    refine ⟨exists_position hkeeps.ordered sample, ?_⟩
    intro n hn
    have hsamples : ∀ s ∈ samples, s.time.Regular :=
      fun s hs => hregular s (hkeeps.mem_pushed hs).1
    rw [SampleStore.after, List.foldl_append]
    show expired (SampleStore.after (ofPeriod period) operations).period _ = _
    rw [period_after]
    exact congrArg (expired period)
      (insert_at_position hkeeps.ordered hsamples hsample hn)

/-! ### A late sample -/

/-- Samples that come in out of order after a clearing: the third one is of the same time as the
second, the fourth is late, and the last is so late that it is too old for ten seconds. -/
def lateSamples : List SampleStore.Operation :=
  [.push (.ofSeconds 30 0), .clear, .push (.ofSeconds 4 1), .push (.ofSeconds 12 2),
    .push (.ofSeconds 12 3), .push (.ofSeconds 8 4), .push (.ofSeconds 15 5),
    .push (.ofSeconds 4 6)]

/-- Ten seconds keep what is not too late in the order of the times, no time at all keeps the
newest sample, and a negative period keeps nothing. -/
theorem samples_after_late :
    (∀ s ∈ SampleStore.pushed lateSamples, s.time.Regular) ∧
      SampleStore.samples
          (SampleStore.after (ofPeriod (10 * nanosPerSecond)) lateSamples) =
        [.ofSeconds 8 4, .ofSeconds 12 2, .ofSeconds 12 3, .ofSeconds 15 5] ∧
      SampleStore.samples (SampleStore.after (ofPeriod 0) lateSamples) = [.ofSeconds 15 5] ∧
      SampleStore.samples (SampleStore.after (ofPeriod (-1)) lateSamples) = [] := by
  have hregular : ∀ s ∈ SampleStore.pushed lateSamples, s.time.Regular := by
    have hpushed : SampleStore.pushed lateSamples =
        [.ofSeconds 4 1, .ofSeconds 12 2, .ofSeconds 12 3, .ofSeconds 8 4, .ofSeconds 15 5,
          .ofSeconds 4 6] := rfl
    rw [hpushed]
    simp only [List.forall_mem_cons, Sample.regular_ofSeconds, List.not_mem_nil, false_implies,
      implies_true, and_self]
  have hten := (samples_after (10 * nanosPerSecond) lateSamples hregular).1
  have hzero := (samples_after 0 lateSamples hregular).1
  have hnegative := (samples_after (-1) lateSamples hregular).1
  exact ⟨hregular, hten.trans (by cbv), hzero.trans (by cbv), hnegative.trans (by cbv)⟩

end TimeWindow

end Dashboard
