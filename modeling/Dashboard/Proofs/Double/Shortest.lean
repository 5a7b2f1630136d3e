import Dashboard.Decimal.Shortest
import Dashboard.Proofs.Double.Uniqueness
import Mathlib

/-!
# Shortest Digits Are Enough

The digits that a double is written with lie in the interval of the numbers that are rounded
to it. Hence the double nearest to them is the one that was written.

The search for them goes through grids of ever finer powers of ten. It cannot fail: at
seventeen digits the step of the grid is less than the interval is wide, and one of the two
multiples around the double is at most half a step away.

## Main results

* `Grid.holds_iff` — a point of a grid holds if its number is rounded to the double.
* `Dyadic.isSome_hit?` — there is a hit with seventeen digits at the latest.
* `Dyadic.shortest_rounds` — the shortest digits lie in the interval.
* `Dyadic.number?_of_rounds` — what is nearest to a number of the interval is the double.
-/

namespace Dashboard.Decimal

open Double

/-! ### Numbers -/

/-- The number that digits denote. -/
def Digits.value (d : Digits) : ℚ := d.digits * 10 ^ d.exponent

/-- The number that a significand and an exponent of two denote. -/
def Dyadic.value (v : Dyadic) : ℚ := v.mantissa * 2 ^ v.exponent

/-- A quarter of the unit of a double, which the ends of its interval are given in. -/
def Dyadic.quarter (v : Dyadic) : ℚ := 2 ^ (v.exponent - 2)

variable {v : Dyadic} {q : ℚ} {k : ℤ}

/-- A quarter of a unit is positive. -/
theorem Dyadic.quarter_pos (v : Dyadic) : 0 < v.quarter := by
  rw [quarter]
  positivity

/-- Four quarters are a unit. -/
theorem Dyadic.four_mul_quarter (v : Dyadic) : 4 * v.quarter = 2 ^ v.exponent := by
  rw [quarter, zpow_sub₀ two_ne_zero]
  norm_num
  ring

/-- A number that is **rounded** to the double: it lies in the interval, and at an end of it
only if the significand is even. -/
def Dyadic.Rounds (v : Dyadic) (q : ℚ) : Prop :=
  if v.mantissa % 2 = 0 then v.lower * v.quarter ≤ q ∧ q ≤ v.upper * v.quarter
  else v.lower * v.quarter < q ∧ q < v.upper * v.quarter

/-! ### Grids -/

/-- The step of a grid is positive. -/
theorem Grid.den_pos (v : Dyadic) (k : ℤ) : 0 < (Grid.of v k).den :=
  Nat.mul_pos (Nat.pow_pos (by decide)) (Nat.pow_pos (by decide))

/-- A power with an exponent of either sign is a ratio of two powers. -/
theorem zpow_eq_div {b : ℚ} (hb : b ≠ 0) (e : ℤ) : b ^ e = b ^ e.toNat / b ^ (-e).toNat := by
  rw [← zpow_natCast, ← zpow_natCast, ← zpow_sub₀ hb]
  congr 1
  omega

/-- The two numbers of a grid are a quarter and a step, brought to a common scale. -/
theorem Grid.exists_scale (v : Dyadic) (k : ℤ) :
    ∃ s : ℚ, 0 < s ∧ (Grid.of v k).num = v.quarter * s ∧ (Grid.of v k).den = 10 ^ k * s := by
  have hten : (10 : ℚ) ≠ 0 := by norm_num
  have hneg : -(v.exponent - 2) = 2 - v.exponent := neg_sub _ _
  have hnum : (Grid.of v k).num = 2 ^ (v.exponent - 2).toNat * 10 ^ (-k).toNat := rfl
  have hden : (Grid.of v k).den = 10 ^ k.toNat * 2 ^ (2 - v.exponent).toNat := rfl
  refine ⟨2 ^ (2 - v.exponent).toNat * 10 ^ (-k).toNat, by positivity, ?_, ?_⟩
  · rw [hnum, Dyadic.quarter, zpow_eq_div two_ne_zero, hneg]
    push_cast
    field_simp
  · rw [hden, zpow_eq_div hten]
    push_cast
    field_simp

section Scaled

variable {m n : ℕ} {x y s : ℚ}

/-- Whole numbers are in the order of the numbers that they are on a common scale. -/
theorem le_iff_of_scaled (hs : 0 < s) (hm : (m : ℚ) = x * s) (hn : (n : ℚ) = y * s) :
    m ≤ n ↔ x ≤ y := by
  rw [← Nat.cast_le (α := ℚ), hm, hn, mul_le_mul_iff_of_pos_right hs]

/-- So they are in the strict order. -/
theorem lt_iff_of_scaled (hs : 0 < s) (hm : (m : ℚ) = x * s) (hn : (n : ℚ) = y * s) :
    m < n ↔ x < y := by
  rw [← Nat.cast_lt (α := ℚ), hm, hn, mul_lt_mul_iff_of_pos_right hs]

end Scaled

/-- A point of a grid holds if its number is rounded to the double. -/
theorem Grid.holds_iff (v : Dyadic) (k : ℤ) (c : ℕ) :
    (Grid.of v k).Holds v c ↔ v.Rounds (c * 10 ^ k) := by
  obtain ⟨s, hs, hnum, hden⟩ := Grid.exists_scale v k
  have hend (a : ℕ) : ((a * (Grid.of v k).num : ℕ) : ℚ) = a * v.quarter * s := by
    rw [Nat.cast_mul, hnum, mul_assoc]
  have hpoint : ((c * (Grid.of v k).den : ℕ) : ℚ) = c * 10 ^ k * s := by
    rw [Nat.cast_mul, hden, mul_assoc]
  unfold Grid.Holds Dyadic.Rounds
  split
  · rw [le_iff_of_scaled hs (hend _) hpoint, le_iff_of_scaled hs hpoint (hend _)]
  · rw [lt_iff_of_scaled hs (hend _) hpoint, lt_iff_of_scaled hs hpoint (hend _)]

/-! ### Seventeen digits -/

/-- A double in quarters of its unit. -/
theorem Dyadic.value_eq (v : Dyadic) : v.value = 4 * v.mantissa * v.quarter := by
  rw [value, ← v.four_mul_quarter]
  ring

/-- What is nearer to a double than its `2 ^ 54`th part is rounded to it. -/
theorem Dyadic.rounds_of_near (h : Canonical v.mantissa v.exponent)
    (hnear : |q - v.value| * 2 ^ 54 < v.value) : v.Rounds q := by
  have hunit := v.quarter_pos
  have hpos : 0 < v.mantissa := h.pos
  have hlt : (v.mantissa : ℚ) < 2 ^ 53 := by exact_mod_cast h.lt
  rw [v.value_eq] at hnear
  have hbelow := neg_abs_le (q - 4 * v.mantissa * v.quarter)
  have habove := le_abs_self (q - 4 * v.mantissa * v.quarter)
  have hupper : q < v.upper * v.quarter := by
    rw [upper]
    push_cast
    nlinarith
  have hlower : v.lower * v.quarter < q := by
    unfold lower
    split
    · next hpower =>
      have hm : (v.mantissa : ℚ) = 2 ^ 52 := by exact_mod_cast hpower.1
      rw [Nat.cast_sub (by omega)]
      push_cast
      rw [hm] at hnear hbelow ⊢
      linarith
    · rw [Nat.cast_sub (by omega)]
      push_cast
      nlinarith
  unfold Rounds
  split
  · exact ⟨hlower.le, hupper.le⟩
  · exact ⟨hlower, hupper⟩

/-- A number has as many digits as the powers of ten around it say. -/
theorem digitCount_bounds {n : ℕ} (hn : 0 < n) :
    10 ^ (digitCount n - 1) ≤ n ∧ n < 10 ^ digitCount n := by
  have hcount : 0 < digitCount n := Nat.length_toDigits_pos
  refine ⟨?_, (Nat.length_toDigits_le_iff (by decide) hcount).mp le_rfl⟩
  rcases Nat.eq_zero_or_pos (digitCount n - 1) with hzero | hpos
  · rw [hzero]
    exact hn
  · refine Nat.le_of_not_lt fun hlt => ?_
    have := (Nat.length_toDigits_le_iff (by decide) hpos).mpr hlt
    rw [← digitCount] at this
    omega

/-- The leading power of ten is at most the double. -/
theorem Dyadic.zpow_leading_le (hpos : 0 < v.mantissa) : (10 : ℚ) ^ v.leading ≤ v.value := by
  have hnum : 0 < v.mantissa * 2 ^ v.exponent.toNat := by positivity
  have hden : 0 < 2 ^ (-v.exponent).toNat := by positivity
  have hvalue : v.value =
      ((v.mantissa * 2 ^ v.exponent.toNat : ℕ) : ℚ) / (2 ^ (-v.exponent).toNat : ℕ) := by
    rw [value, zpow_eq_div two_ne_zero]
    push_cast
    ring
  have hleading : v.leading = if 2 ^ (-v.exponent).toNat ≤ v.mantissa * 2 ^ v.exponent.toNat then
      (digitCount (v.mantissa * 2 ^ v.exponent.toNat / 2 ^ (-v.exponent).toNat) : ℤ) - 1
      else -(digitCount ((2 ^ (-v.exponent).toNat - 1) / (v.mantissa * 2 ^ v.exponent.toNat)) : ℤ) :=
    rfl
  rw [hvalue, hleading]
  generalize v.mantissa * 2 ^ v.exponent.toNat = num at hnum
  generalize 2 ^ (-v.exponent).toNat = den at hden
  have hden' : (0 : ℚ) < den := by exact_mod_cast hden
  split
  · next hle =>
    obtain ⟨hfloor, -⟩ := digitCount_bounds (Nat.div_pos hle hden)
    have hcount : 0 < digitCount (num / den) := Nat.length_toDigits_pos
    have hexponent : (digitCount (num / den) : ℤ) - 1 = (digitCount (num / den) - 1 : ℕ) := by
      omega
    rw [hexponent, zpow_natCast, le_div_iff₀ hden']
    exact_mod_cast (Nat.mul_le_mul_right den hfloor).trans (Nat.div_mul_le_self num den)
  · next hlt =>
    have hquotient : 0 < (den - 1) / num := Nat.div_pos (by omega) hnum
    obtain ⟨-, hceil⟩ := digitCount_bounds hquotient
    have hfits : den ≤ num * 10 ^ digitCount ((den - 1) / num) := by
      have := (Nat.div_lt_iff_lt_mul hnum).mp hceil
      rw [Nat.mul_comm] at this
      omega
    rw [zpow_neg, zpow_natCast, inv_eq_one_div, div_le_div_iff₀ (by positivity) hden', one_mul]
    exact_mod_cast hfits

/-- One of two numbers that are a step apart is at most half a step away. -/
theorem near_or_near {x y step : ℚ} (hlow : x ≤ y) (hhigh : y < x + step) :
    |x - y| ≤ step / 2 ∨ |x + step - y| ≤ step / 2 := by
  rcases le_total (y - x) (step / 2) with hle | hle
  · refine .inl (abs_le.mpr ⟨by linarith, by linarith⟩)
  · refine .inr (abs_le.mpr ⟨by linarith, by linarith⟩)

/-- There is a hit if one of the two neighbours on the grid holds. -/
theorem Grid.isSome_hit? {g : Grid} {tie : Tie}
    (h : g.Holds v (4 * v.mantissa * g.num / g.den) ∨
      g.Holds v (4 * v.mantissa * g.num / g.den + 1)) : (g.hit? v tie).isSome := by
  unfold Grid.hit?
  dsimp only
  split
  · split <;> rfl
  · next hbelow =>
    rw [if_pos (h.resolve_left hbelow)]
    rfl

/-- A double lies between its two neighbours on a grid. -/
theorem Grid.neighbours (v : Dyadic) (k : ℤ) {below : ℕ}
    (hbelow : 4 * v.mantissa * (Grid.of v k).num / (Grid.of v k).den = below) :
    below * 10 ^ k ≤ v.value ∧ v.value < below * 10 ^ k + 10 ^ k := by
  obtain ⟨s, hs, hnum, hden⟩ := Grid.exists_scale v k
  have hexact : ((4 * v.mantissa * (Grid.of v k).num : ℕ) : ℚ) = v.value * s := by
    rw [v.value_eq, Nat.cast_mul, hnum]
    push_cast
    ring
  constructor
  · have hle := Nat.div_mul_le_self (4 * v.mantissa * (Grid.of v k).num) (Grid.of v k).den
    rw [hbelow] at hle
    exact (le_iff_of_scaled hs (by rw [Nat.cast_mul, hden, mul_assoc]) hexact).mp hle
  · have hlt := Nat.lt_div_mul_add (Grid.den_pos v k) (a := 4 * v.mantissa * (Grid.of v k).num)
    rw [hbelow] at hlt
    refine (lt_iff_of_scaled hs hexact ?_).mp hlt
    push_cast
    rw [hden]
    ring

/-- **With seventeen digits there is a hit.** -/
theorem Dyadic.isSome_hit? (h : Canonical v.mantissa v.exponent) (tie : Tie) :
    ((Grid.of v (v.leading - 16)).hit? v tie).isSome := by
  have hleading := Dyadic.zpow_leading_le h.pos
  have hstep : (10 : ℚ) ^ (v.leading - 16) * 10 ^ 16 = 10 ^ v.leading := by
    rw [← zpow_natCast, ← zpow_add₀ (by norm_num)]
    congr 1
    omega
  have hpos : (0 : ℚ) < 10 ^ (v.leading - 16) := by positivity
  refine Grid.isSome_hit? ?_
  rw [Grid.holds_iff, Grid.holds_iff]
  generalize hbelow : 4 * v.mantissa * (Grid.of v (v.leading - 16)).num /
    (Grid.of v (v.leading - 16)).den = below
  obtain ⟨hlow, hhigh⟩ := Grid.neighbours v _ hbelow
  generalize (10 : ℚ) ^ (v.leading - 16) = step at hstep hpos hlow hhigh ⊢
  have hsmall : step / 2 * 2 ^ 54 < v.value := by linarith
  have hnear : ∀ q : ℚ, |q - v.value| ≤ step / 2 → v.Rounds q := fun q hq =>
    Dyadic.rounds_of_near h ((mul_le_mul_of_nonneg_right hq (by positivity)).trans_lt hsmall)
  rcases near_or_near hlow hhigh with hq | hq
  · exact .inl (hnear _ hq)
  · refine .inr (hnear _ ?_)
    push_cast
    rw [add_mul, one_mul]
    exact hq

/-! ### The search -/

/-- The search finds a number that is rounded to the double, if there is a hit at all. -/
theorem Dyadic.search_rounds (tie : Tie) {tries : ℕ} {k : ℤ}
    (h : ∃ j < tries, ((Grid.of v (k - j)).hit? v tie).isSome) :
    ∃ d, v.search tie k tries = some d ∧ v.Rounds d.value := by
  induction tries generalizing k with
  | zero =>
    obtain ⟨j, hj, -⟩ := h
    exact absurd hj (Nat.not_lt_zero j)
  | succ tries ih =>
    rw [search]
    cases hhit : (Grid.of v k).hit? v tie with
    | some c => exact ⟨_, rfl, (Grid.holds_iff v k c).mp (Grid.hit?_holds hhit)⟩
    | none =>
      obtain ⟨j, hj, hsome⟩ := h
      cases j with
      | zero =>
        rw [Nat.cast_zero, sub_zero, hhit] at hsome
        cases hsome
      | succ j =>
        refine ih ⟨j, Nat.lt_of_succ_lt_succ hj, ?_⟩
        rwa [Nat.cast_succ, add_comm, ← sub_sub] at hsome

/-- Zeros that move into the exponent do not change the number. -/
theorem Digits.value_trimZeros (d : Digits) (n : ℕ) : (d.trimZeros n).value = d.value := by
  induction n generalizing d with
  | zero => rfl
  | succ n ih =>
    unfold trimZeros
    split
    · next hzero =>
      have hdigits : (d.digits : ℚ) = (d.digits / 10 : ℕ) * 10 := by
        exact_mod_cast (Nat.div_mul_cancel (Nat.dvd_of_mod_eq_zero hzero.1)).symm
      rw [ih, value, value, hdigits, zpow_add_one₀ (by norm_num)]
      ring
    · rfl

/-- **The shortest digits are rounded to the double.** -/
theorem Dyadic.shortest_rounds (h : Canonical v.mantissa v.exponent) (tie : Tie) :
    v.Rounds (v.shortest tie).value := by
  obtain ⟨d, hsearch, hrounds⟩ :=
    Dyadic.search_rounds (k := v.leading) tie
      ⟨16, Nat.lt_succ_self 16, Dyadic.isSome_hit? h tie⟩
  rw [shortest, hsearch]
  dsimp only
  rwa [Digits.value_trimZeros]

/-! ### Rounding -/

/-- Where a number of the interval is, in units of the double. -/
theorem Dyadic.Rounds.scaled (h : v.Rounds q) :
    (v.lower : ℚ) ≤ 4 * (q / 2 ^ v.exponent) ∧ 4 * (q / 2 ^ v.exponent) ≤ v.upper ∧
      (v.mantissa % 2 ≠ 0 →
        (v.lower : ℚ) < 4 * (q / 2 ^ v.exponent) ∧ 4 * (q / 2 ^ v.exponent) < v.upper) := by
  have hunit := v.quarter_pos
  have hquarters : 4 * (q / 2 ^ v.exponent) = q / v.quarter := by
    rw [← v.four_mul_quarter]
    field_simp
  rw [hquarters, le_div_iff₀ hunit, div_le_iff₀ hunit, lt_div_iff₀ hunit, div_lt_iff₀ hunit]
  unfold Rounds at h
  split at h
  · next heven => exact ⟨h.1, h.2, absurd heven⟩
  · exact ⟨h.1.le, h.2.le, fun _ => h⟩

/-- A number that is rounded to a double is positive. -/
theorem Dyadic.Rounds.pos (hpos : 0 < v.mantissa) (h : v.Rounds q) : 0 < q := by
  have hunit : (0 : ℚ) < 2 ^ v.exponent := by positivity
  have hlower : (0 : ℚ) < v.lower := by
    have : 0 < v.lower := by
      unfold Dyadic.lower
      split <;> omega
    exact_mod_cast this
  have hscaled : 0 < q / 2 ^ v.exponent := by linarith [h.scaled.1]
  exact (div_pos_iff_of_pos_right hunit).mp hscaled

/-- The interval reaches half a unit down, or a quarter below a power of two. -/
theorem Dyadic.lower_bounds (hpos : 0 < v.mantissa) :
    (4 * v.mantissa - 2 : ℚ) ≤ v.lower ∧
      (v.mantissa = 2 ^ 52 → -1074 < v.exponent → (4 * v.mantissa - 1 : ℚ) ≤ v.lower) := by
  have hhalf : 4 * v.mantissa ≤ v.lower + 2 := by
    unfold lower
    split <;> omega
  have hhalf' : (4 * v.mantissa : ℚ) ≤ v.lower + 2 := by exact_mod_cast hhalf
  refine ⟨by linarith, fun hpower hexponent => ?_⟩
  have hquarter : 4 * v.mantissa ≤ v.lower + 1 := by
    rw [lower, if_pos ⟨hpower, hexponent⟩]
    omega
  have hquarter' : (4 * v.mantissa : ℚ) ≤ v.lower + 1 := by exact_mod_cast hquarter
  linarith

/-- The interval reaches half a unit up. -/
theorem Dyadic.upper_eq (v : Dyadic) : (v.upper : ℚ) = 4 * v.mantissa + 2 := by
  rw [upper]
  push_cast
  rfl

/-- Within the grid of the double, its significand is the nearest whole number. -/
theorem Dyadic.Rounds.nearestWhole (hpos : 0 < v.mantissa) (h : v.Rounds q) :
    NearestWhole (q / 2 ^ v.exponent) v.mantissa := by
  obtain ⟨hlow, hhigh, hodd⟩ := h.scaled
  obtain ⟨hlower, -⟩ := Dyadic.lower_bounds hpos
  rw [v.upper_eq] at hhigh hodd
  refine ⟨abs_le.mpr ⟨by linarith, by linarith⟩, fun htie => ?_⟩
  by_contra hne
  obtain ⟨hlow', hhigh'⟩ := hodd hne
  exact (abs_lt.mpr ⟨by linarith, by linarith⟩ : |q / 2 ^ v.exponent - v.mantissa| < 1 / 2).ne htie

/-- On the grid of the double, the double is the nearest. -/
theorem Dyadic.number?_of_onGrid (h : Canonical v.mantissa v.exponent) (he : v.exponent ≤ 971)
    (hq : v.Rounds q) (hon : OnGrid q v.exponent) {y : Float} (hy : Nearest q y) :
    number? y = some v.value := by
  have hn := hq.nearestWhole h.pos
  have hbelow := (hon.lt_overflow_iff hn).mpr (by have := h.lt; omega)
  exact (hy.number?_eq hon hn hbelow).1

/-- Only the interval of a power of two reaches below the grid of its double. -/
theorem Dyadic.Rounds.mantissa_eq (h : Canonical v.mantissa v.exponent) (hq : v.Rounds q)
    (hne : v.exponent ≠ -1074) (hbelow : q / 2 ^ v.exponent < 2 ^ 52) :
    v.mantissa = 2 ^ 52 := by
  obtain ⟨hlow, -, -⟩ := hq.scaled
  obtain ⟨hlower, -⟩ := Dyadic.lower_bounds h.pos
  have hlt : (v.mantissa : ℚ) < (2 ^ 52 + 1 : ℕ) := by
    push_cast
    linarith
  exact le_antisymm (Nat.le_of_lt_succ (by exact_mod_cast hlt)) (h.full.resolve_right hne)

/-- Below a power of two the grid is twice as fine, and the power is still the nearest. -/
theorem Dyadic.number?_of_below (h : Canonical v.mantissa v.exponent) (he : v.exponent ≤ 971)
    (hq : v.Rounds q) (hne : v.exponent ≠ -1074) (hsmall : q < 2 ^ (52 + v.exponent)) {y : Float}
    (hy : Nearest q y) : number? y = some v.value := by
  have hunit : (0 : ℚ) < 2 ^ v.exponent := by positivity
  have hpower (d : ℤ) : (2 : ℚ) ^ (d + v.exponent) = 2 ^ d * 2 ^ v.exponent :=
    zpow_add₀ two_ne_zero _ _
  have hbelow : q / 2 ^ v.exponent < 2 ^ 52 := by
    rw [div_lt_iff₀ hunit]
    rwa [hpower] at hsmall
  have hmantissa := hq.mantissa_eq h hne hbelow
  have hm : (v.mantissa : ℚ) = 2 ^ 52 := by exact_mod_cast hmantissa
  have hleast : -1074 < v.exponent := lt_of_le_of_ne h.least (Ne.symm hne)
  obtain ⟨hlow, -, -⟩ := hq.scaled
  have hnear := (Dyadic.lower_bounds h.pos).2 hmantissa hleast
  rw [hm] at hnear
  have hdouble : (2 : ℚ) ^ v.exponent = 2 * 2 ^ (v.exponent - 1) := by
    rw [zpow_sub_one₀ two_ne_zero]
    field_simp
  have hscaled : q / 2 ^ (v.exponent - 1) = 2 * (q / 2 ^ v.exponent) := by
    rw [hdouble]
    field_simp
  have hn : NearestWhole (q / 2 ^ (v.exponent - 1)) (2 ^ 53) := by
    refine ⟨?_, fun _ => rfl⟩
    rw [hscaled]
    push_cast
    exact abs_le.mpr ⟨by linarith, by linarith⟩
  have hon : OnGrid q (v.exponent - 1) := by
    refine ⟨(hq.pos h.pos).le, by omega, ?_, .inr ?_⟩
    · have hend : 53 + (v.exponent - 1) = 52 + v.exponent := by omega
      rwa [hend]
    · have hstart : 52 + (v.exponent - 1) = 51 + v.exponent := by omega
      rw [hstart, hpower, ← le_div_iff₀ hunit]
      norm_num
      linarith
  have hfinite := (hon.lt_overflow_iff hn).mpr (.inl (by omega))
  rw [(hy.number?_eq hon hn hfinite).1, value, hm, hdouble]
  push_cast
  congr 1
  ring

/-- **What is nearest to a number of the interval is the double.** -/
theorem Dyadic.number?_of_rounds (h : Canonical v.mantissa v.exponent) (he : v.exponent ≤ 971)
    (hq : v.Rounds q) {y : Float} (hy : Nearest q y) : number? y = some v.value := by
  by_cases hgrid : v.exponent = -1074 ∨ 2 ^ (52 + v.exponent) ≤ q
  · have hunit : (0 : ℚ) < 2 ^ v.exponent := by positivity
    obtain ⟨-, hhigh, -⟩ := hq.scaled
    rw [v.upper_eq] at hhigh
    have hlt : (v.mantissa : ℚ) + 1 ≤ 2 ^ 53 := by exact_mod_cast h.lt
    have hbelow : q < 2 ^ (53 + v.exponent) := by
      rw [zpow_add₀ two_ne_zero, ← div_lt_iff₀ hunit]
      norm_num at hlt ⊢
      linarith
    exact Dyadic.number?_of_onGrid h he hq ⟨(hq.pos h.pos).le, h.least, hbelow, hgrid⟩ hy
  · obtain ⟨hne, hsmall⟩ := not_or.mp hgrid
    exact Dyadic.number?_of_below h he hq hne (lt_of_not_ge hsmall) hy

/-- **What is nearest to the shortest digits of a double is that double**, without its sign. -/
theorem unpack_of_nearest_shortest {m : ℕ} {e : ℤ} (h : Canonical m e) (he : e ≤ 971) (tie : Tie)
    {y : Float} (hy : Nearest (Dyadic.shortest ⟨m, e⟩ tie).value y) :
    y.toModel.unpack = .finite .positive m e h.pos := by
  have hm : (0 : ℚ) < m := by exact_mod_cast h.pos
  have hnumber : number? y = some ((m : ℚ) * 2 ^ e) :=
    Dyadic.number?_of_rounds (v := ⟨m, e⟩) h he (Dyadic.shortest_rounds h tie) hy
  obtain ⟨k, t, hk, hunpack, hvalue⟩ := exists_canonical_of_number? hnumber (by positivity)
  obtain ⟨rfl, rfl⟩ := h.unique hk hvalue
  exact hunpack

end Dashboard.Decimal
