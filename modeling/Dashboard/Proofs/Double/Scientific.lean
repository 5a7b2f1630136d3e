import Dashboard.Proofs.Double.Uniqueness
import Mathlib

/-!
# Core's Reader of Scientific Notation

Core reads `m * 10 ^ e` in one of two ways. If `m` and `10 ^ e` are doubles, it multiplies or
divides them; otherwise it multiplies or divides significands that need not be doubles. Either way
a single rounding is made, of the number itself. Where the exponent is so large or so small that
the digits do not matter, it does not compute the power of ten at all.

## Main results

* `number?_toFloat` — a natural number of 53 bits is a double.
* `nearest_ofScientific` — scientific notation is read to the nearest double.
* `nearest_ofNat` — a natural number is read to the nearest double.
-/

namespace Dashboard.Double

open Float.Model

variable {q v w : ℚ} {x y : Float} {m n : ℕ} {e : ℤ}

/-! ### Out of range -/

/-- Numbers of at most half of the least double are nearest to zero. -/
theorem nearest_zero (h0 : 0 ≤ q) (h : q ≤ 2 ^ (-1075 : ℤ)) : Nearest q 0.0 := by
  have hgrid : OnGrid q (-1074) :=
    ⟨h0, le_rfl, h.trans_lt (zpow_lt_zpow_right₀ one_lt_two (by norm_num)), .inl rfl⟩
  have hhalf : q / 2 ^ (-1074 : ℤ) ≤ 1 / 2 := by
    rw [div_le_iff₀ (by positivity)]
    have hstep : (2 : ℚ) ^ (-1074 : ℤ) = 2 ^ (-1075 : ℤ) * 2 := zpow_add_one₀ two_ne_zero (-1075)
    rw [hstep]
    linarith
  have hnear : NearestWhole (q / 2 ^ (-1074 : ℤ)) 0 := by
    refine ⟨?_, fun _ => rfl⟩
    rw [Nat.cast_zero, sub_zero, abs_of_nonneg (by positivity)]
    exact hhalf
  exact nearest_of_onGrid hgrid hnear

/-- Numbers from the end of the range on are nearest to infinity. -/
theorem nearest_infinity (h : 2 ^ 1024 ≤ q) : Nearest q (1.0 / 0.0) := by
  have hstep : (0 : ℚ) < 2 ^ 970 := by positivity
  have hge : ¬ q < 2 ^ 1024 - 2 ^ 970 := not_lt.mpr ((sub_le_self _ hstep.le).trans h)
  rw [Nearest, if_neg hge]

/-! ### Doubles as operands -/

/-- A double that is not below one has a full significand, as all doubles with the least exponent
are below one. -/
theorem exists_unpack_of_number? (hx : number? x = some v) (hv : 1 ≤ v) :
    ∃ m e, ∃ hm : 0 < m, x.toModel.unpack = .finite .positive m e hm ∧ v = m * 2 ^ e ∧
      2 ^ 52 ≤ m := by
  obtain ⟨m, e, h, hunpack, rfl⟩ := exists_canonical_of_number? hx (zero_lt_one.trans_le hv)
  refine ⟨m, e, h.pos, hunpack, rfl, h.full.resolve_right ?_⟩
  rintro rfl
  have hm : (m : ℚ) < 2 ^ (53 : ℤ) := by exact_mod_cast h.lt
  have hone : (2 : ℚ) ^ (53 : ℤ) * 2 ^ (-1074 : ℤ) ≤ 1 := by
    rw [← zpow_add₀ two_ne_zero]
    exact zpow_le_one_of_nonpos₀ one_le_two (by norm_num)
  have : (m : ℚ) * 2 ^ (-1074 : ℤ) < 2 ^ (53 : ℤ) * 2 ^ (-1074 : ℤ) := by gcongr
  linarith

/-- **The product of two doubles is the double nearest to the product of their numbers.** -/
theorem nearest_mul_of_number? (hx : number? x = some v) (hy : number? y = some w)
    (hv : 1 ≤ v) (hw : 1 ≤ w) : Nearest (v * w) (x * y) := by
  obtain ⟨m₁, e₁, h₁, hunpack₁, rfl, hfull₁⟩ := exists_unpack_of_number? hx hv
  obtain ⟨m₂, e₂, h₂, hunpack₂, rfl, -⟩ := exists_unpack_of_number? hy hw
  have hmul : x * y =
      .ofModel (.pack (UnpackedFloat.mul Format.binary64 x.toModel.unpack y.toModel.unpack)) := rfl
  rw [hmul, hunpack₁, hunpack₂]
  exact nearest_mul h₁ h₂ (hfull₁.trans (Nat.le_mul_of_pos_right _ h₂))

/-- **So is their quotient.** -/
theorem nearest_div_of_number? (hx : number? x = some v) (hy : number? y = some w)
    (hv : 1 ≤ v) (hw : 1 ≤ w) : Nearest (v / w) (x / y) := by
  obtain ⟨m₁, e₁, h₁, hunpack₁, rfl, -⟩ := exists_unpack_of_number? hx hv
  obtain ⟨m₂, e₂, h₂, hunpack₂, rfl, -⟩ := exists_unpack_of_number? hy hw
  have hdiv : x / y =
      .ofModel (.pack (UnpackedFloat.div Format.binary64 x.toModel.unpack y.toModel.unpack)) := rfl
  rw [hdiv, hunpack₁, hunpack₂]
  exact nearest_div h₁ h₂

/-- Zero times a double that is not small is zero. -/
theorem zero_mul_of_number? (hy : number? y = some w) (hw : 1 ≤ w) : 0.0 * y = 0.0 := by
  obtain ⟨m, e, hm, hunpack, -⟩ := exists_unpack_of_number? hy hw
  have hmul : 0.0 * y =
      .ofModel (.pack (UnpackedFloat.mul Format.binary64 (.zero .positive) y.toModel.unpack)) := rfl
  rw [hmul, hunpack]
  rfl

/-- Zero divided by it is zero, too. -/
theorem zero_div_of_number? (hy : number? y = some w) (hw : 1 ≤ w) : 0.0 / y = 0.0 := by
  obtain ⟨m, e, hm, hunpack, -⟩ := exists_unpack_of_number? hy hw
  have hdiv : 0.0 / y =
      .ofModel (.pack (UnpackedFloat.div Format.binary64 (.zero .positive) y.toModel.unpack)) := rfl
  rw [hdiv, hunpack]
  rfl

/-! ### Whole numbers and powers of ten -/

/-- The whole number nearest to a whole number is itself. -/
theorem NearestWhole.eq_of_natCast {k : ℕ} (h : NearestWhole (k : ℚ) n) : n = k := by
  have hle := h.le k
  rw [Int.cast_natCast, sub_self, abs_zero, abs_nonpos_iff, sub_eq_zero] at hle
  exact_mod_cast hle.symm

/-- A number moved to have 53 bits has a full significand. -/
theorem mul_two_pow_bounds (hm : 0 < m) {s : ℕ} (hs : m.log2 + s = 52) :
    2 ^ 52 ≤ m * 2 ^ s ∧ m * 2 ^ s < 2 ^ 53 := by
  have hlow := Nat.mul_le_mul_right (2 ^ s) (Nat.log2_self_le hm.ne')
  have hhigh := Nat.mul_lt_mul_of_pos_right (Nat.lt_log2_self (n := m)) (Nat.two_pow_pos s)
  have hs' : m.log2 + 1 + s = 53 := by omega
  rw [← pow_add] at hlow hhigh
  rw [hs] at hlow
  rw [hs'] at hhigh
  exact ⟨hlow, hhigh⟩

/-- A whole number of at most 53 bits is shifted until it has all of them. -/
theorem round_natCast (hm : 0 < m) {s : ℕ} (hs : m.log2 + s = 52) :
    UnpackedFloat.round Format.binary64 .positive m 0 = ofRounded (m * 2 ^ s) (-s) := by
  have htarget : Format.binary64.targetExponent (totalExponent m 0) = -s := by
    rw [Format.targetExponent, totalExponent]
    have hbits : (Format.binary64.mantissaBits : ℤ) = 53 := rfl
    have hleast : Format.binary64.minExponent = -1074 := rfl
    omega
  have hround : UnpackedFloat.round Format.binary64 .positive m 0 =
      UnpackedFloat.roundWithAccuracy Format.binary64 .positive (m * 2 ^ s) (-s) .exact := by
    have hshift : (0 - -(s : ℤ)).toNat = s := by omega
    simp only [UnpackedFloat.round, UnpackedFloat.decreaseExponent, htarget, Nat.shiftLeft_eq]
    rw [hshift, zero_sub]
  have hlog : (m * 2 ^ s).log2 = 52 :=
    (Nat.log2_eq_iff (by positivity)).mpr (mul_two_pow_bounds hm hs)
  have hgrid : gridOf (m * 2 ^ s) (-s) = -s := by
    rw [gridOf, hlog]
    omega
  have hexact : Describes .exact (m * 2 ^ s) (m * 2 ^ s : ℕ) := rfl
  obtain ⟨n, hn, hrounded⟩ := roundWithAccuracy_eq hexact hgrid.ge
  rw [hgrid, mul_div_assoc, div_self (by positivity), mul_one] at hn
  rw [hround, hrounded, hn.eq_of_natCast, hgrid]

/-- **A natural number of 53 bits is a double.** -/
theorem number?_toFloat (h : m < 2 ^ 53) : number? m.toUInt64.toFloat = some (m : ℚ) := by
  rcases Nat.eq_zero_or_pos m with rfl | hm
  · rw [Nat.cast_zero]
    rfl
  · have hlog : m.log2 ≤ 52 := by
      have := (Nat.log2_lt hm.ne').mpr h
      omega
    obtain ⟨s, hs⟩ := Nat.exists_eq_add_of_le hlog
    have hnormalize : m.toUInt64.toFloat =
        .ofModel (.pack
          (UnpackedFloat.normalize Format.binary64 (m.toUInt64.toNat : ℤ) 0 .positive)) := rfl
    have htoNat : m.toUInt64.toNat = m := by
      simp
      omega
    have hgt : compare (m : ℤ) 0 = .gt := Int.compare_eq_gt.mpr (by exact_mod_cast hm)
    obtain ⟨hlow, hhigh⟩ := mul_two_pow_bounds hm hs.symm
    rw [hnormalize, htoNat]
    simp only [UnpackedFloat.normalize, hgt, Int.toNat_natCast]
    rw [round_natCast hm hs.symm,
      (parts_ofRounded hhigh.le (.inr hlow) (by omega) (.inl (by omega))).1]
    push_cast
    rw [mul_assoc, ← zpow_natCast, ← zpow_add₀ two_ne_zero, add_neg_cancel, zpow_zero, mul_one]

/-- The double stands for a power of ten. -/
def holdsPowerOfTen (x : Float) (k : ℕ) : Bool :=
  match x.toModel.unpack with
  | .finite .positive m e _ => decide (-52 ≤ e) && m * 2 ^ (e + 52).toNat == 10 ^ k * 2 ^ 52
  | _ => false

/-- A double that holds a power of ten has it as its number. -/
theorem number?_of_holdsPowerOfTen {k : ℕ} (h : holdsPowerOfTen x k) :
    number? x = some (10 ^ k : ℚ) := by
  rw [holdsPowerOfTen] at h
  split at h
  · next m e hm hunpack =>
    simp only [Bool.and_eq_true, decide_eq_true_eq, beq_iff_eq] at h
    obtain ⟨he, hpower⟩ := h
    obtain ⟨s, hs⟩ := Int.eq_ofNat_of_zero_le (by omega : 0 ≤ e + 52)
    have hscaled : (m * 2 ^ s : ℚ) = 10 ^ k * 2 ^ 52 := by
      rw [hs] at hpower
      exact_mod_cast hpower
    have hvalue : (m : ℚ) * 2 ^ e = 10 ^ k := by
      obtain rfl : e = s - (52 : ℕ) := by omega
      rw [zpow_sub₀ two_ne_zero, zpow_natCast, zpow_natCast, ← mul_div_assoc, hscaled,
        mul_div_cancel_right₀ _ (by positivity)]
    rw [number?, hunpack]
    exact congrArg some hvalue
  · cases h

/-- All doubles in the table of powers hold the power of their place. -/
theorem holdsPowerOfTen_all : ∀ k : Fin Float.exactlyRepresentablePowersOfTen.size,
    holdsPowerOfTen Float.exactlyRepresentablePowersOfTen[k] k = true := by
  decide +kernel

/-- **The powers of ten that core keeps are exact.** -/
theorem number?_exactlyRepresentablePowersOfTen {k : ℕ}
    (hk : k < Float.exactlyRepresentablePowersOfTen.size) :
    number? Float.exactlyRepresentablePowersOfTen[k] = some (10 ^ k : ℚ) :=
  number?_of_holdsPowerOfTen (holdsPowerOfTen_all ⟨k, hk⟩)

/-! ### Scientific notation -/

/-- The bound from which on core does not compute a power of ten is large enough. -/
theorem nearest_scientific_of_large (hm : 0 < m) (he : 2048 < e) :
    Nearest (m * 10 ^ e) (1.0 / 0.0) := by
  refine nearest_infinity ?_
  have hm' : (1 : ℚ) ≤ m := by exact_mod_cast hm
  calc (2 : ℚ) ^ 1024 ≤ 10 ^ 1024 := by gcongr; norm_num
    _ = 10 ^ (1024 : ℤ) := by rw [← zpow_natCast]; rfl
    _ ≤ 10 ^ e := zpow_le_zpow_right₀ (by norm_num) (by omega)
    _ ≤ m * 10 ^ e := le_mul_of_one_le_left (by positivity) hm'

/-- The bound up to which core does not compute a power of ten is small enough. -/
theorem nearest_scientific_of_small (he : e < -(2048 + m.log2)) : Nearest (m * 10 ^ e) 0.0 := by
  refine nearest_zero (by positivity) ?_
  obtain ⟨k, hk⟩ := Int.eq_ofNat_of_zero_le (by omega : 0 ≤ -e)
  obtain rfl : e = -k := by omega
  have hm : (m : ℚ) ≤ 2 ^ (m.log2 + 1 : ℤ) := by exact_mod_cast Nat.lt_log2_self.le
  have hpower : (10 : ℚ) ^ (-k : ℤ) ≤ 2 ^ (-k : ℤ) := by
    rw [zpow_neg, zpow_neg, zpow_natCast, zpow_natCast]
    exact inv_anti₀ (by positivity) (pow_le_pow_left₀ (by norm_num) (by norm_num) k)
  calc (m : ℚ) * 10 ^ (-k : ℤ) ≤ 2 ^ (m.log2 + 1 : ℤ) * 2 ^ (-k : ℤ) := by gcongr
    _ = 2 ^ (m.log2 + 1 + -k : ℤ) := (zpow_add₀ two_ne_zero ..).symm
    _ ≤ 2 ^ (-1075 : ℤ) := zpow_le_zpow_right₀ one_le_two (by omega)

/-- Digits times a power of ten are rounded once. -/
theorem nearest_scientific_nonneg (hm : 0 < m) (k : ℕ) (h₁ : 0 < m <<< 53) (h₂ : 0 < 10 ^ k) :
    Nearest (m * 10 ^ k) (.ofModel (.pack (UnpackedFloat.mul Format.binary64
      (.finite .positive (m <<< 53) (-53) h₁) (.finite .positive (10 ^ k) 0 h₂)))) := by
  have hbits : 2 ^ 52 ≤ m <<< 53 * 10 ^ k := by
    rw [Nat.shiftLeft_eq, mul_assoc]
    exact (Nat.pow_le_pow_right two_pos (by omega : 52 ≤ 53)).trans <|
      (Nat.le_mul_of_pos_right _ h₂).trans (Nat.le_mul_of_pos_left _ hm)
  have hshift : ((m <<< 53 : ℕ) : ℚ) * 2 ^ (-53 : ℤ) = m := by
    rw [Nat.shiftLeft_eq, Nat.cast_mul, mul_assoc, mul_eq_left₀ (by exact_mod_cast hm.ne')]
    norm_num
  have hpower : ((10 ^ k : ℕ) : ℚ) * 2 ^ (0 : ℤ) = 10 ^ k := by
    rw [zpow_zero, mul_one, Nat.cast_pow, Nat.cast_ofNat]
  have hproduct := @nearest_mul _ _ (-53) 0 h₁ h₂ hbits
  rwa [hshift, hpower] at hproduct

/-- Digits divided by a power of ten are rounded once. -/
theorem nearest_scientific_neg (hm : 0 < m) (k : ℕ) (h₂ : 0 < 10 ^ k) :
    Nearest (m / 10 ^ k) (.ofModel (.pack (UnpackedFloat.div Format.binary64
      (.finite .positive m 0 hm) (.finite .positive (10 ^ k) 0 h₂)))) := by
  have hdividend : (m : ℚ) * 2 ^ (0 : ℤ) = m := by rw [zpow_zero, mul_one]
  have hpower : ((10 ^ k : ℕ) : ℚ) * 2 ^ (0 : ℤ) = 10 ^ k := by
    rw [zpow_zero, mul_one, Nat.cast_pow, Nat.cast_ofNat]
  have hquotient := @nearest_div _ _ 0 0 hm h₂
  rwa [hdividend, hpower] at hquotient

/-- **Core's exact arithmetic reads scientific notation to the nearest double.** -/
theorem nearest_scientific (m : ℕ) (e : ℤ) :
    Nearest (m * 10 ^ e) (.ofModel (.ofScientific m e)) := by
  have hexponent : (2 ^ Format.binary64.exponentBits : ℤ) = 2048 := rfl
  have hbits : Format.binary64.mantissaBits = 53 := rfl
  rw [Float.Model.ofScientific, UnpackedFloat.ofScientific, hexponent]
  simp only [hbits]
  split
  · next hzero =>
    rw [hzero, Nat.cast_zero, zero_mul]
    exact nearest_zero le_rfl (by positivity)
  · next hne =>
    have hm : 0 < m := Nat.pos_of_ne_zero hne
    split
    · next hlarge => exact nearest_scientific_of_large hm hlarge
    · split
      · next hsmall => exact nearest_scientific_of_small hsmall
      · split
        · next hnonneg =>
          obtain ⟨k, rfl⟩ := Int.eq_ofNat_of_zero_le hnonneg
          rw [zpow_natCast]
          exact nearest_scientific_nonneg hm k _ _
        · next hneg =>
          obtain ⟨k, hk⟩ := Int.eq_ofNat_of_zero_le (by omega : 0 ≤ -e)
          have hpower : (-e).toNat = k := by omega
          obtain rfl : e = -k := by omega
          rw [zpow_neg, zpow_natCast, ← div_eq_mul_inv]
          simp only [hpower]
          exact nearest_scientific_neg hm k _

/-- **A short literal is read with one operation on doubles**, and is nearest because both
operands are exact. -/
theorem nearest_ofScientific_of_exact (hm : m < 2 ^ 53) (hy : number? y = some w) (hw : 1 ≤ w) :
    Nearest (m * w) (m.toUInt64.toFloat * y) ∧ Nearest (m / w) (m.toUInt64.toFloat / y) := by
  rcases Nat.eq_zero_or_pos m with rfl | hpos
  · have hzero : (0 : ℕ).toUInt64.toFloat = 0.0 := rfl
    rw [Nat.cast_zero, zero_mul, zero_div, hzero, zero_mul_of_number? hy hw,
      zero_div_of_number? hy hw, and_self]
    exact nearest_zero le_rfl (by positivity)
  · have hx := number?_toFloat hm
    have hv : (1 : ℚ) ≤ m := by exact_mod_cast hpos
    exact ⟨nearest_mul_of_number? hx hy hv hw, nearest_div_of_number? hx hy hv hw⟩

/-- **Scientific notation is read to the nearest double.** -/
theorem nearest_ofScientific (m : ℕ) (negative : Bool) (k : ℕ) :
    Nearest (m * 10 ^ (if negative then -k else k : ℤ)) (Float.ofScientific m negative k) := by
  by_cases h : m < 2 ^ 53 ∧ k ≤ 22
  · have hk : k < Float.exactlyRepresentablePowersOfTen.size := Nat.lt_succ_of_le h.2
    obtain ⟨hmul, hdiv⟩ := nearest_ofScientific_of_exact h.1
      (number?_exactlyRepresentablePowersOfTen hk) (one_le_pow₀ (by norm_num))
    rw [Float.ofScientific, dif_pos h]
    cases negative with
    | true =>
        rw [if_pos rfl, zpow_neg, zpow_natCast, ← div_eq_mul_inv]
        exact hdiv
    | false =>
        rw [if_neg Bool.false_ne_true, zpow_natCast]
        exact hmul
  · rw [Float.ofScientific, dif_neg h]
    cases negative with
    | true =>
        have hneg : Int.negOfNat k = -k := rfl
        simp only [if_true, hneg]
        exact nearest_scientific m (-k)
    | false => exact nearest_scientific m k

/-- **A natural number is read to the nearest double.** -/
theorem nearest_ofNat (n : ℕ) : Nearest n (Float.ofNat n) := by
  have h := nearest_ofScientific n false 0
  rw [if_neg Bool.false_ne_true, Nat.cast_zero, zpow_zero, mul_one] at h
  exact h

end Dashboard.Double
