import Dashboard.Proofs.Double.Packing
import Mathlib

/-!
# Rounding to the Nearest Double

A number that is not negative is rounded on a grid: the multiples of a power of two that is small
enough for 53 bits in front of it and, unless it is the least one, large enough for all 53 bits to
be in use. The nearest multiple, of two the even one, is the significand of the nearest double,
because a double that is not on the grid is below the power of two that the number is above.

Core rounds on this grid. It carries a significand, a bit for half a step and a bit for everything
below that; together they say where the number is between two whole numbers, which is all that
rounding has to know, and a shift to the right keeps them true.

## Main results

* `NearestWhole.le`, `NearestWhole.even_of_tie` — the nearest whole number, of two the even one.
* `nearest_of_onGrid` — rounding on the grid gives the nearest double, or infinity.
* `DescribesBits.shiftRight` — a shift keeps what is known of the number.
* `nearest_roundWithAccuracy` — core rounds to the nearest double.
* `nearest_mul`, `nearest_div` — products and quotients are rounded to the nearest double.
-/

namespace Dashboard.Double

open Float.Model
open UnpackedFloat (Accuracy ExtendedMantissa)

/-- A double **nearest** to a number that is not negative: no finite double is nearer to it, its
significand is even if another one is just as near, and zero is not negated. From half a step past
the largest finite double on it is infinity. -/
def Nearest (q : ℚ) (x : Float) : Prop :=
  if q < 2 ^ 1024 - 2 ^ 970 then
    ∃ v, number? x = some v ∧ (v = 0 → x = 0.0) ∧
      ∀ y w, number? y = some w →
        |q - v| ≤ |q - w| ∧ (w ≠ v → |q - v| = |q - w| → significand x % 2 = 0)
  else x = 1.0 / 0.0

/-! ### Whole numbers -/

/-- A whole number **nearest** to a number, the even one of two. -/
structure NearestWhole (r : ℚ) (n : ℕ) : Prop where
  near : |r - n| ≤ 1 / 2
  even : |r - n| = 1 / 2 → n % 2 = 0

variable {r : ℚ} {n : ℕ}

/-- Another whole number is at least one away from the nearest one. -/
theorem one_le_add_of_ne {k : ℤ} (hk : k ≠ n) : 1 ≤ |r - k| + |r - n| := by
  have hgap : (1 : ℚ) ≤ |(k : ℚ) - n| := by exact_mod_cast Int.one_le_abs (sub_ne_zero.mpr hk)
  have htriangle := abs_sub_le (k : ℚ) r n
  rw [abs_sub_comm (k : ℚ) r] at htriangle
  linarith

/-- No whole number is nearer than the nearest one. -/
theorem NearestWhole.le (h : NearestWhole r n) (k : ℤ) : |r - n| ≤ |r - k| := by
  by_cases hk : k = n
  · rw [hk, Int.cast_natCast]
  · have := one_le_add_of_ne (r := r) hk
    linarith [h.near]

/-- If another one is as near, the nearest one is even. -/
theorem NearestWhole.even_of_tie (h : NearestWhole r n) {k : ℤ} (hk : k ≠ n)
    (htie : |r - n| = |r - k|) : n % 2 = 0 := by
  have := one_le_add_of_ne (r := r) hk
  exact h.even (le_antisymm h.near (by linarith))

/-! ### The grid of a number -/

/-- The number is rounded to the multiples of `2 ^ t`: it has at most 53 bits in front of that,
and it has all of them unless `t` is the least exponent. -/
structure OnGrid (q : ℚ) (t : ℤ) : Prop where
  nonneg : 0 ≤ q
  least : -1074 ≤ t
  fits : q < 2 ^ (53 + t)
  full : t = -1074 ∨ 2 ^ (52 + t) ≤ q

/-- The double with a rounded significand. A significand that was rounded up to 54 bits is a power
of two. -/
def ofRounded (n : ℕ) (t : ℤ) : UnpackedFloat :=
  if h : n = 0 then .zero .positive
  else if n = 2 ^ 53 then .finite .positive (2 ^ 52) (t + 1) (by decide)
  else .finite .positive n t (Nat.pos_of_ne_zero h)

/-- A finite double is on the grid, or below the numbers of the grid that have all 53 bits. -/
theorem onGrid_or_below {y : Float} {w : ℚ} (hy : number? y = some w) {t : ℤ} (ht : -1074 ≤ t) :
    (∃ k : ℤ, w = k * 2 ^ t) ∨ (-1074 < t ∧ |w| < 2 ^ (52 + t)) := by
  obtain ⟨k, e, rfl, hk, he⟩ := exists_parts_of_number? hy
  rcases le_or_gt t e with hle | hlt
  · obtain ⟨d, hd⟩ := Int.le.dest hle
    refine .inl ⟨k * 2 ^ d, ?_⟩
    rw [← hd, zpow_add₀ two_ne_zero, zpow_natCast]
    push_cast
    ring
  · refine .inr ⟨by omega, ?_⟩
    have hk' : |(k : ℚ)| < 2 ^ (53 : ℤ) := by exact_mod_cast hk
    have hpos : (0 : ℚ) < 2 ^ e := by positivity
    calc |(k : ℚ) * 2 ^ e| = |(k : ℚ)| * 2 ^ e := by rw [abs_mul, abs_of_pos hpos]
      _ < 2 ^ (53 : ℤ) * 2 ^ e := by gcongr
      _ = 2 ^ (53 + e) := by rw [zpow_add₀ two_ne_zero]
      _ ≤ 2 ^ (52 + t) := zpow_le_zpow_right₀ one_le_two (by omega)

variable {q : ℚ} {t : ℤ}

/-- Distances on the grid are distances of whole numbers, scaled. -/
theorem abs_sub_mul_zpow (q x : ℚ) (t : ℤ) : |q - x * 2 ^ t| = |q / 2 ^ t - x| * 2 ^ t := by
  have hpos : (0 : ℚ) < 2 ^ t := by positivity
  rw [← abs_of_pos hpos, ← abs_mul, abs_of_pos hpos, sub_mul, div_mul_cancel₀ q hpos.ne']

/-- A double that is not on the grid is farther away than the nearest multiple: the power of two
between it and the number is on the grid. -/
theorem OnGrid.abs_sub_lt_of_below (h : OnGrid q t) (hn : NearestWhole (q / 2 ^ t) n)
    (ht : -1074 < t) {w : ℚ} (hw : |w| < 2 ^ (52 + t)) : |q - n * 2 ^ t| < |q - w| := by
  have hpos : (0 : ℚ) < 2 ^ t := by positivity
  have hfull : 2 ^ (52 + t) ≤ q := h.full.resolve_left (by omega)
  have hpower : (((2 ^ 52 : ℕ) : ℤ) : ℚ) * 2 ^ t = 2 ^ (52 + t) := by
    rw [zpow_add₀ two_ne_zero]
    norm_num
  have hnear := mul_le_mul_of_nonneg_right (hn.le (2 ^ 52 : ℕ)) hpos.le
  rw [← abs_sub_mul_zpow, ← abs_sub_mul_zpow, hpower, abs_of_nonneg (sub_nonneg.mpr hfull)] at hnear
  have hlt := (abs_lt.mp hw).2
  rw [abs_of_pos (sub_pos.mpr (hlt.trans_le hfull))]
  linarith

/-- **The nearest multiple is nearer than every finite double**, and if one is just as near its
significand is even. -/
theorem OnGrid.nearest (h : OnGrid q t) (hn : NearestWhole (q / 2 ^ t) n) {y : Float} {w : ℚ}
    (hy : number? y = some w) :
    |q - n * 2 ^ t| ≤ |q - w| ∧ (w ≠ n * 2 ^ t → |q - n * 2 ^ t| = |q - w| → n % 2 = 0) := by
  rcases onGrid_or_below hy h.least with ⟨k, rfl⟩ | ⟨ht, hbelow⟩
  · have hpos : (0 : ℚ) < 2 ^ t := by positivity
    rw [abs_sub_mul_zpow, abs_sub_mul_zpow]
    refine ⟨mul_le_mul_of_nonneg_right (hn.le k) hpos.le, fun hne htie => ?_⟩
    refine hn.even_of_tie ?_ (mul_right_cancel₀ hpos.ne' htie)
    rintro rfl
    exact hne (by rw [Int.cast_natCast])
  · have hlt := h.abs_sub_lt_of_below hn ht hbelow
    exact ⟨hlt.le, fun _ htie => absurd htie hlt.ne⟩

/-- The bits of the number, in front of the grid's step. -/
theorem OnGrid.scaled (h : OnGrid q t) :
    q / 2 ^ t < 2 ^ 53 ∧ (t = -1074 ∨ 2 ^ 52 ≤ q / 2 ^ t) := by
  have hpos : (0 : ℚ) < 2 ^ t := by positivity
  have hpower (d : ℕ) : (2 : ℚ) ^ (d + t) = 2 ^ d * 2 ^ t := by
    rw [zpow_add₀ two_ne_zero, zpow_natCast]
  refine ⟨(div_lt_iff₀ hpos).mpr ?_, h.full.imp_right fun hfull => (le_div_iff₀ hpos).mpr ?_⟩
  · rw [← hpower]
    exact h.fits
  · rw [← hpower]
    exact hfull

/-- A significand at half a step has at most 53 bits, or it is the least one with 54. -/
theorem OnGrid.bounds (h : OnGrid q t) (hn : |q / 2 ^ t - n| ≤ 1 / 2) :
    n ≤ 2 ^ 53 ∧ (t = -1074 ∨ 2 ^ 52 ≤ n) := by
  obtain ⟨hfits, hfull⟩ := h.scaled
  obtain ⟨hlow, hhigh⟩ := abs_le.mp hn
  constructor
  · by_contra hlt
    have : ((2 ^ 53 + 1 : ℕ) : ℚ) ≤ n := by exact_mod_cast Nat.lt_of_not_le hlt
    push_cast at this
    linarith
  · refine hfull.imp_right fun hfull => ?_
    by_contra hlt
    have : ((n + 1 : ℕ) : ℚ) ≤ (2 ^ 52 : ℕ) := by exact_mod_cast Nat.lt_of_not_le hlt
    push_cast at this
    linarith

/-- The first number that overflows is half a step of the last grid in front of its end. -/
theorem overflow_eq : (2 : ℚ) ^ 1024 - 2 ^ 970 = (2 ^ 53 - 1 / 2) * 2 ^ 971 := by
  have hhalf : (2 : ℚ) ^ 970 = 1 / 2 * 2 ^ 971 := by
    rw [pow_succ 2 970]
    generalize (2 : ℚ) ^ 970 = step
    ring
  rw [hhalf, sub_mul, ← pow_add]

/-- A number is rounded up to the end of its grid from half a step in front of it on. Halfway it is
rounded up because the last significand of the grid is odd. -/
theorem NearestWhole.lt_end_iff (h : NearestWhole r n) (hn : n ≤ 2 ^ 53) :
    r < 2 ^ 53 - 1 / 2 ↔ n ≠ 2 ^ 53 := by
  obtain ⟨hlow, hhigh⟩ := abs_le.mp h.near
  constructor
  · rintro hr rfl
    push_cast at hlow
    linarith
  · intro hne
    have hle : ((n + 1 : ℕ) : ℚ) ≤ (2 ^ 53 : ℕ) := by exact_mod_cast (by omega : n + 1 ≤ 2 ^ 53)
    push_cast at hle
    refine lt_of_le_of_ne (by linarith) ?_
    rintro rfl
    have hlast : (n : ℚ) = 2 ^ 53 - 1 := by linarith
    have heven := h.even (by rw [hlast]; norm_num)
    have hsucc : n + 1 = 2 ^ 53 := by
      have : ((n + 1 : ℕ) : ℚ) = (2 ^ 53 : ℕ) := by
        push_cast
        linarith
      exact_mod_cast this
    omega

/-- A number is below the first one that overflows if its grid ends there at the latest, and if it
is not rounded up to that end. -/
theorem OnGrid.lt_overflow_iff (h : OnGrid q t) (hn : NearestWhole (q / 2 ^ t) n) :
    q < 2 ^ 1024 - 2 ^ 970 ↔ t ≤ 970 ∨ (t = 971 ∧ n ≠ 2 ^ 53) := by
  obtain ⟨hfits, hfull⟩ := h.scaled
  have hpos : (0 : ℚ) < 2 ^ t := by positivity
  rw [overflow_eq]
  rcases lt_trichotomy t 971 with hlt | rfl | hgt
  · refine iff_of_true ?_ (.inl (by omega))
    have hstep : (2 : ℚ) ^ t * 2 ≤ 2 ^ 971 := by
      rw [← zpow_add_one₀ two_ne_zero, ← zpow_natCast]
      exact zpow_le_zpow_right₀ one_le_two (by omega)
    have hq := (div_lt_iff₀ hpos).mp hfits
    generalize (2 : ℚ) ^ 971 = last at hstep ⊢
    linarith
  · rw [← hn.lt_end_iff (h.bounds hn.near).1, div_lt_iff₀ hpos]
    simp
  · refine iff_of_false (not_lt.mpr ?_) (by omega)
    have hstep : (2 : ℚ) ^ 971 * 2 ≤ 2 ^ t := by
      rw [← pow_succ, ← zpow_natCast]
      exact zpow_le_zpow_right₀ one_le_two (by omega)
    have hq := (le_div_iff₀ hpos).mp (hfull.resolve_left (by omega))
    generalize (2 : ℚ) ^ 971 = last at hstep ⊢
    linarith

/-- The double with a rounded significand stands for the multiple that was rounded to. -/
theorem parts_ofRounded (hn : n ≤ 2 ^ 53) (hfull : t = -1074 ∨ 2 ^ 52 ≤ n) (hleast : -1074 ≤ t)
    (hfits : t ≤ 970 ∨ (t = 971 ∧ n ≠ 2 ^ 53)) :
    number? (.ofModel (.pack (ofRounded n t))) = some ((n : ℚ) * 2 ^ t) ∧
      (n = 0 → Float.ofModel (.pack (ofRounded n t)) = 0.0) ∧
      significand (.ofModel (.pack (ofRounded n t))) % 2 = n % 2 := by
  rw [ofRounded]
  split
  · next hzero =>
    subst hzero
    exact ⟨by simp; rfl, fun _ => rfl, rfl⟩
  · split
    · next hcarry =>
      subst hcarry
      have hcanonical : Canonical (2 ^ 52) (t + 1) := ⟨by decide, by decide, by omega, .inl le_rfl⟩
      refine ⟨?_, fun hzero => absurd hzero (by decide), ?_⟩
      · rw [number?_pack_finite hcanonical (by omega), zpow_add_one₀ two_ne_zero]
        push_cast
        congr 1
        ring
      · rw [significand_pack_finite hcanonical (by omega)]
        rfl
    · next hne hcarry =>
      have hcanonical : Canonical n t :=
        ⟨Nat.pos_of_ne_zero hne, by omega, hleast, hfull.symm⟩
      refine ⟨number?_pack_finite hcanonical (by omega), fun hzero => absurd hzero hne, ?_⟩
      rw [significand_pack_finite hcanonical (by omega)]

/-- **Rounding on the grid gives the nearest double**, or infinity. -/
theorem nearest_of_onGrid (h : OnGrid q t) (hn : NearestWhole (q / 2 ^ t) n) :
    Nearest q (.ofModel (.pack (ofRounded n t))) := by
  obtain ⟨hbound, hfull⟩ := h.bounds hn.near
  rw [Nearest]
  split
  · next hlt =>
    obtain ⟨hnumber, hzero, hparity⟩ :=
      parts_ofRounded hbound hfull h.least ((h.lt_overflow_iff hn).mp hlt)
    refine ⟨_, hnumber, fun hv => hzero ?_, fun y w hy => ?_⟩
    · have hpos : (0 : ℚ) < 2 ^ t := by positivity
      simpa [hpos.ne'] using hv
    · rw [hparity]
      exact h.nearest hn hy
  · next hge =>
    have hover := mt (h.lt_overflow_iff hn).mpr hge
    obtain ⟨h52, h53⟩ : (2 : ℕ) ^ 52 ≠ 0 ∧ (2 : ℕ) ^ 52 ≠ 2 ^ 53 := by decide
    rw [ofRounded, dif_neg (by omega)]
    split
    · exact pack_overflow _ (by omega)
    · exact pack_overflow _ (by omega)

/-! ### Guard and sticky bits -/

/-- What an accuracy says of a number: where it is between a whole number and the next one. -/
def Describes : Accuracy → ℕ → ℚ → Prop
  | .exact, m, r => r = m
  | .inexact .lt, m, r => m < r ∧ 2 * r < 2 * m + 1
  | .inexact .eq, m, r => 2 * r = 2 * m + 1
  | .inexact .gt, m, r => 2 * m + 1 < 2 * r ∧ r < m + 1

/-- **The whole number that core rounds to is the nearest one.** -/
theorem nearestWhole_of_describes {accuracy : Accuracy} {m : ℕ} (h : Describes accuracy m r) :
    NearestWhole r (accuracy.roundToNearestEven m) := by
  rcases accuracy with _ | order
  · obtain rfl : r = m := h
    exact ⟨by simp [Accuracy.roundToNearestEven], by simp [Accuracy.roundToNearestEven]⟩
  · cases order with
    | lt =>
        obtain ⟨hlow, hhigh⟩ : m < r ∧ 2 * r < 2 * m + 1 := h
        have habs : |r - m| = r - m := abs_of_pos (by linarith)
        constructor
        · simp only [Accuracy.roundToNearestEven, habs]
          linarith
        · simp only [Accuracy.roundToNearestEven, habs]
          intro htie
          linarith
    | eq =>
        have hhalf : 2 * r = 2 * m + 1 := h
        simp only [Accuracy.roundToNearestEven]
        rcases Nat.mod_two_eq_zero_or_one m with heven | hodd
        · rw [heven, Nat.add_zero]
          refine ⟨?_, fun _ => heven⟩
          rw [abs_of_pos (by linarith)]
          linarith
        · rw [hodd]
          refine ⟨?_, fun _ => by omega⟩
          push_cast
          rw [abs_of_neg (by linarith)]
          linarith
    | gt =>
        obtain ⟨hlow, hhigh⟩ : 2 * (m : ℚ) + 1 < 2 * r ∧ r < m + 1 := h
        have habs : |r - (m + 1 : ℕ)| = m + 1 - r := by
          push_cast
          rw [abs_of_neg (by linarith)]
          ring
        constructor
        · simp only [Accuracy.roundToNearestEven, habs]
          linarith
        · simp only [Accuracy.roundToNearestEven, habs]
          intro htie
          linarith

/-- What the bits of an extended significand say of a number. -/
def DescribesBits (em : ExtendedMantissa) (r : ℚ) : Prop :=
  Describes em.accuracy em.mantissa r

/-- The bits behind a significand say what its accuracy says. -/
theorem describesBits_of_describes {accuracy : Accuracy} {m : ℕ} (h : Describes accuracy m r) :
    DescribesBits (.ofMantissaAndAccuracy m accuracy) r := by
  rcases accuracy with _ | order
  · exact h
  · cases order <;> exact h

/-- A number that some of the bits are set for is between two whole numbers. -/
theorem DescribesBits.bounds_of_inexact {m : ℕ} {roundBit stickyBit : Bool}
    (h : DescribesBits ⟨m, roundBit, stickyBit⟩ r) (hset : (roundBit || stickyBit) = true) :
    m < r ∧ r < m + 1 := by
  cases roundBit with
  | false =>
      obtain rfl : stickyBit = true := hset
      obtain ⟨hlow, hhigh⟩ : m < r ∧ 2 * r < 2 * m + 1 := h
      exact ⟨hlow, by linarith⟩
  | true =>
      cases stickyBit with
      | false =>
          have hhalf : 2 * r = 2 * m + 1 := h
          exact ⟨by linarith, by linarith⟩
      | true =>
          obtain ⟨hlow, hhigh⟩ : 2 * (m : ℚ) + 1 < 2 * r ∧ r < m + 1 := h
          exact ⟨by linarith, hhigh⟩

/-- They still do when everything moves by one bit: the last bit of the significand becomes the bit
for half a step. -/
theorem DescribesBits.shiftRightOne {em : ExtendedMantissa} (h : DescribesBits em r) :
    DescribesBits em.shiftRightOne (r / 2) := by
  obtain ⟨m, roundBit, stickyBit⟩ := em
  have hsplit : (m : ℚ) = 2 * (m / 2 : ℕ) + (m % 2 : ℕ) := by
    exact_mod_cast (Nat.div_add_mod m 2).symm
  rw [DescribesBits, ExtendedMantissa.shiftRightOne]
  cases hset : roundBit || stickyBit with
  | false =>
      obtain ⟨rfl, rfl⟩ := Bool.or_eq_false_iff.mp hset
      have hexact : r = m := h
      rcases Nat.mod_two_eq_zero_or_one m with hbit | hbit
      · rw [hbit, Nat.cast_zero, add_zero] at hsplit
        rw [hbit]
        have hwhole : r / 2 = (m / 2 : ℕ) := by linarith
        exact hwhole
      · rw [hbit, Nat.cast_one] at hsplit
        rw [hbit]
        have hhalf : 2 * (r / 2) = 2 * (m / 2 : ℕ) + 1 := by linarith
        exact hhalf
  | true =>
      obtain ⟨hlow, hhigh⟩ := h.bounds_of_inexact hset
      rcases Nat.mod_two_eq_zero_or_one m with hbit | hbit
      · rw [hbit, Nat.cast_zero, add_zero] at hsplit
        rw [hbit]
        exact ⟨by linarith, by linarith⟩
      · rw [hbit, Nat.cast_one] at hsplit
        rw [hbit]
        exact ⟨by linarith, by linarith⟩
/-- **A shift keeps what is known of the number.** -/
theorem DescribesBits.shiftRight {em : ExtendedMantissa} (h : DescribesBits em r) (d : ℕ) :
    DescribesBits (em >>> d) (r / 2 ^ d) := by
  induction d with
  | zero =>
      rw [pow_zero, div_one]
      exact h
  | succ d ih =>
      rw [pow_succ, ← div_div]
      exact ih.shiftRightOne

/-! ### Core's rounding -/

/-- The exponent that core rounds a significand to. -/
def gridOf (m : ℕ) (e : ℤ) : ℤ :=
  max (m.log2 + 1 + e - 53) (-1074)

/-- A significand moves to its grid by as many bits as the grid is coarser. -/
theorem shiftToTargetExponent_eq (m : ℕ) (e : ℤ) (accuracy : Accuracy) :
    UnpackedFloat.shiftToTargetExponent Format.binary64 m e accuracy =
      (ExtendedMantissa.ofMantissaAndAccuracy m accuracy >>> (gridOf m e - e).toNat,
        e + (gridOf m e - e).toNat) := by
  rfl

variable {m : ℕ} {e : ℤ} {accuracy : Accuracy}

/-- A number is between its significand and the next one. -/
theorem Describes.bounds (h : Describes accuracy m r) : m ≤ r ∧ r < m + 1 := by
  rcases accuracy with _ | order
  · obtain rfl : r = m := h
    exact ⟨le_rfl, lt_add_one _⟩
  · cases order with
    | lt =>
        obtain ⟨hlow, hhigh⟩ : m < r ∧ 2 * r < 2 * m + 1 := h
        exact ⟨hlow.le, by linarith⟩
    | eq =>
        have hhalf : 2 * r = 2 * m + 1 := h
        exact ⟨by linarith, by linarith⟩
    | gt =>
        obtain ⟨hlow, hhigh⟩ : 2 * (m : ℚ) + 1 < 2 * r ∧ r < m + 1 := h
        exact ⟨by linarith, hhigh⟩

/-- The number that is described is on core's grid, if its significand has bits enough. -/
theorem onGrid_of_describes (h : Describes accuracy m r) (he : e ≤ gridOf m e) :
    OnGrid (r * 2 ^ e) (gridOf m e) := by
  obtain ⟨hlow, hhigh⟩ := h.bounds
  have hpos : (0 : ℚ) < 2 ^ e := by positivity
  have hm : (0 : ℚ) ≤ m := m.cast_nonneg
  refine ⟨mul_nonneg (hm.trans hlow) hpos.le, le_max_right .., ?_, ?_⟩
  · have hbits : r < 2 ^ (m.log2 + 1) := by
      have : ((m + 1 : ℕ) : ℚ) ≤ (2 ^ (m.log2 + 1) : ℕ) := by exact_mod_cast Nat.lt_log2_self
      push_cast at this
      linarith
    calc r * 2 ^ e < 2 ^ (m.log2 + 1) * 2 ^ e := by gcongr
      _ = 2 ^ (m.log2 + 1 + e : ℤ) := by rw [zpow_add₀ two_ne_zero, ← zpow_natCast]; rfl
      _ ≤ 2 ^ (53 + gridOf m e) := zpow_le_zpow_right₀ one_le_two (by rw [gridOf]; omega)
  · rcases eq_or_ne (gridOf m e) (-1074) with hleast | hgreater
    · exact .inl hleast
    · have hgrid : gridOf m e = m.log2 + 1 + e - 53 := by
        rw [gridOf] at hgreater ⊢
        omega
      have hne : m ≠ 0 := by
        rintro rfl
        rw [hgrid] at he
        simp at he
        omega
      refine .inr ?_
      calc (2 : ℚ) ^ (52 + gridOf m e) = 2 ^ m.log2 * 2 ^ e := by
            rw [hgrid, ← zpow_natCast, ← zpow_add₀ two_ne_zero]
            congr 1
            omega
        _ ≤ m * 2 ^ e := by
            gcongr
            exact_mod_cast Nat.log2_self_le hne
        _ ≤ r * 2 ^ e := by gcongr

/-- A significand that was rounded on its grid needs a shift only if it was rounded up to 54
bits. -/
theorem shiftToTargetExponent_rounded (hn : n ≤ 2 ^ 53) (hleast : -1074 ≤ t) :
    UnpackedFloat.shiftToTargetExponent Format.binary64 n t .exact =
      if n = 2 ^ 53 then (⟨2 ^ 52, false, false⟩, t + 1) else (⟨n, false, false⟩, t) := by
  rw [shiftToTargetExponent_eq]
  split
  · next hcarry =>
    subst hcarry
    have hshift : (gridOf (2 ^ 53) t - t).toNat = 1 := by
      rw [gridOf, Nat.log2_two_pow]
      omega
    rw [hshift]
    rfl
  · next hne =>
    have hlog : n.log2 ≤ 52 := by
      rcases eq_or_ne n 0 with rfl | hpos
      · simp
      · have := (Nat.log2_lt hpos).mpr (by omega : n < 2 ^ 53)
        omega
    have hshift : (gridOf n t - t).toNat = 0 := by
      rw [gridOf]
      omega
    rw [hshift, Nat.cast_zero, add_zero]
    rfl

/-- **Core rounds on the grid.** -/
theorem roundWithAccuracy_eq (h : Describes accuracy m r) (he : e ≤ gridOf m e) :
    ∃ n, NearestWhole (r * 2 ^ e / 2 ^ gridOf m e) n ∧
      UnpackedFloat.roundWithAccuracy Format.binary64 .positive m e accuracy =
        ofRounded n (gridOf m e) := by
  obtain ⟨d, hd⟩ := Int.le.dest he
  have hshift : (gridOf m e - e).toNat = d := by omega
  have hscale : r * 2 ^ e / 2 ^ gridOf m e = r / 2 ^ d := by
    rw [← hd, zpow_add₀ two_ne_zero, zpow_natCast, mul_comm, mul_div_mul_left _ _ (by positivity)]
  have hbits := (describesBits_of_describes h).shiftRight d
  set em := ExtendedMantissa.ofMantissaAndAccuracy m accuracy >>> d with hem
  have hn : NearestWhole (r * 2 ^ e / 2 ^ gridOf m e) em.roundedMantissa :=
    hscale ▸ nearestWhole_of_describes hbits
  refine ⟨em.roundedMantissa, hn, ?_⟩
  have hgrid := onGrid_of_describes h he
  rw [UnpackedFloat.roundWithAccuracy, shiftToTargetExponent_eq, hshift, hd, ← hem]
  simp only [shiftToTargetExponent_rounded (hgrid.bounds hn.near).1 hgrid.least, ofRounded]
  by_cases hcarry : em.roundedMantissa = 2 ^ 53
  · simp [hcarry]
  · simp only [if_neg hcarry]

/-- **Core rounds to the nearest double.** -/
theorem nearest_roundWithAccuracy (h : Describes accuracy m r) (he : e ≤ gridOf m e) :
    Nearest (r * 2 ^ e)
      (.ofModel (.pack
        (UnpackedFloat.roundWithAccuracy Format.binary64 .positive m e accuracy))) := by
  obtain ⟨n, hn, hround⟩ := roundWithAccuracy_eq h he
  rw [hround]
  exact nearest_of_onGrid (onGrid_of_describes h he) hn

/-! ### Products and quotients -/

/-- The grid of a full significand is no finer than its own exponent. -/
theorem le_gridOf (h : 2 ^ 52 ≤ m) : e ≤ gridOf m e := by
  have := (Nat.le_log2 (by omega)).mpr h
  rw [gridOf]
  omega

variable {m₁ m₂ : ℕ} {e₁ e₂ : ℤ}

/-- **The product of two doubles is rounded to the nearest double.** -/
theorem nearest_mul (h₁ : 0 < m₁) (h₂ : 0 < m₂) (h : 2 ^ 52 ≤ m₁ * m₂) :
    Nearest (m₁ * 2 ^ e₁ * (m₂ * 2 ^ e₂))
      (.ofModel (.pack (UnpackedFloat.mul Format.binary64
        (.finite .positive m₁ e₁ h₁) (.finite .positive m₂ e₂ h₂)))) := by
  have hexact : Describes .exact (m₁ * m₂) (m₁ * m₂ : ℕ) := rfl
  have hproduct : (m₁ * 2 ^ e₁ * (m₂ * 2 ^ e₂) : ℚ) = (m₁ * m₂ : ℕ) * 2 ^ (e₁ + e₂) := by
    rw [zpow_add₀ two_ne_zero]
    push_cast
    ring
  rw [hproduct]
  exact nearest_roundWithAccuracy hexact (le_gridOf h)

/-- A quotient of whole numbers is described by its whole part and the remainder. -/
theorem describes_accuracyOfFraction (num : ℕ) {den : ℕ} (hden : 0 < den) :
    Describes (UnpackedFloat.accuracyOfFraction (num % den) den) (num / den) (num / den : ℚ) := by
  have hpos : (0 : ℚ) < den := by exact_mod_cast hden
  have hsplit : (num : ℚ) / den = (num / den : ℕ) + (num % den : ℕ) / den := by
    rw [div_eq_iff hpos.ne', add_mul, div_mul_cancel₀ _ hpos.ne', mul_comm]
    exact_mod_cast (Nat.div_add_mod num den).symm
  have hlt : num % den < den := Nat.mod_lt _ hden
  rw [hsplit]
  generalize num % den = rest at hlt ⊢
  rw [UnpackedFloat.accuracyOfFraction]
  split
  · next hzero => simp [hzero, Describes]
  · next hne =>
    have hpositive : (0 : ℚ) < rest / den := div_pos (by exact_mod_cast Nat.pos_of_ne_zero hne) hpos
    have hhalf : (rest : ℚ) / den * 2 = (2 * rest : ℕ) / den := by
      push_cast
      ring
    rcases lt_trichotomy (2 * rest) den with hcmp | hcmp | hcmp
    · rw [Nat.compare_eq_lt.mpr hcmp]
      have : ((2 * rest : ℕ) : ℚ) / den < 1 := (div_lt_one hpos).mpr (by exact_mod_cast hcmp)
      exact ⟨by linarith, by linarith⟩
    · rw [Nat.compare_eq_eq.mpr hcmp]
      have : ((2 * rest : ℕ) : ℚ) / den = 1 :=
        (div_eq_one_iff_eq hpos.ne').mpr (by exact_mod_cast hcmp)
      have : 2 * ((num / den : ℕ) + rest / den : ℚ) = 2 * (num / den : ℕ) + 1 := by linarith
      exact this
    · rw [Nat.compare_eq_gt.mpr hcmp]
      have hgt : 1 < ((2 * rest : ℕ) : ℚ) / den := (one_lt_div hpos).mpr (by exact_mod_cast hcmp)
      have hlast : (rest : ℚ) / den < 1 := (div_lt_one hpos).mpr (by exact_mod_cast hlt)
      exact ⟨by linarith, by linarith⟩

/-- The exponent that core divides at. -/
def divisionGrid (m₁ : ℕ) (e₁ : ℤ) (m₂ : ℕ) (e₂ : ℤ) : ℤ :=
  min (e₁ - e₂) (max (m₁.log2 + 1 + e₁ - (m₂.log2 + 1 + e₂) - 53) (-1074))

/-- The quotient of two doubles is that of whole numbers on a grid, rounded by what is left over. -/
theorem div_finite (h₁ : 0 < m₁) (h₂ : 0 < m₂) {d : ℕ}
    (hd : e₁ - e₂ = divisionGrid m₁ e₁ m₂ e₂ + d) :
    UnpackedFloat.div Format.binary64 (.finite .positive m₁ e₁ h₁) (.finite .positive m₂ e₂ h₂) =
      UnpackedFloat.roundWithAccuracy Format.binary64 .positive (m₁ * 2 ^ d / m₂)
        (divisionGrid m₁ e₁ m₂ e₂)
        (UnpackedFloat.accuracyOfFraction (m₁ * 2 ^ d % m₂) m₂) := by
  have hshift : (e₁ - e₂ - divisionGrid m₁ e₁ m₂ e₂).toNat = d := by omega
  rw [← hshift, ← Nat.shiftLeft_eq]
  rfl

/-- Core divides with bits enough. -/
theorem divisionGrid_le (h₁ : 0 < m₁) (h₂ : 0 < m₂) {d : ℕ}
    (hd : e₁ - e₂ = divisionGrid m₁ e₁ m₂ e₂ + d) :
    divisionGrid m₁ e₁ m₂ e₂ ≤ gridOf (m₁ * 2 ^ d / m₂) (divisionGrid m₁ e₁ m₂ e₂) := by
  rcases le_or_gt (divisionGrid m₁ e₁ m₂ e₂) (-1074) with hle | hgt
  · exact hle.trans (le_max_right ..)
  · have hbits : 53 + m₂.log2 ≤ m₁.log2 + d := by
      rw [divisionGrid] at hd hgt
      omega
    refine le_gridOf ((Nat.le_div_iff_mul_le h₂).mpr ?_)
    calc 2 ^ 52 * m₂ ≤ 2 ^ 52 * 2 ^ (m₂.log2 + 1) := by
          gcongr
          exact Nat.lt_log2_self.le
      _ = 2 ^ (53 + m₂.log2) := by
          rw [← pow_add]
          congr 1
          omega
      _ ≤ 2 ^ (m₁.log2 + d) := Nat.pow_le_pow_right (by omega) hbits
      _ = 2 ^ m₁.log2 * 2 ^ d := pow_add ..
      _ ≤ m₁ * 2 ^ d := by
          gcongr
          exact Nat.log2_self_le h₁.ne'

/-- **The quotient of two doubles is rounded to the nearest double.** -/
theorem nearest_div (h₁ : 0 < m₁) (h₂ : 0 < m₂) :
    Nearest (m₁ * 2 ^ e₁ / (m₂ * 2 ^ e₂))
      (.ofModel (.pack (UnpackedFloat.div Format.binary64
        (.finite .positive m₁ e₁ h₁) (.finite .positive m₂ e₂ h₂)))) := by
  obtain ⟨d, hd⟩ : ∃ d : ℕ, e₁ - e₂ = divisionGrid m₁ e₁ m₂ e₂ + d :=
    (Int.le.dest (min_le_left ..)).imp fun _ => Eq.symm
  have hquotient : (m₁ * 2 ^ e₁ / (m₂ * 2 ^ e₂) : ℚ) =
      (m₁ * 2 ^ d : ℕ) / m₂ * 2 ^ divisionGrid m₁ e₁ m₂ e₂ := by
    rw [mul_div_mul_comm, ← zpow_sub₀ two_ne_zero, hd, zpow_add₀ two_ne_zero, zpow_natCast]
    push_cast
    ring
  rw [hquotient, div_finite h₁ h₂ hd]
  exact nearest_roundWithAccuracy (describes_accuracyOfFraction _ h₂) (divisionGrid_le h₁ h₂ hd)

end Dashboard.Double
