import Dashboard.Proofs.Double.Rounding
import Mathlib

/-!
# A Number Has One Nearest Double

A positive number has one canonical form, so one double stands for it at most. Every number that
is not negative is on some grid and near to some whole multiple, and a double that is nearest to
it stands for that multiple: if two are just as near, only one has an even significand.

## Main results

* `Canonical.unique` — a number has one canonical form.
* `eq_of_number?` — one double at most stands for a positive number.
* `exists_onGrid`, `exists_nearestWhole` — every number can be rounded.
* `Nearest.unique` — a number has one nearest double.
-/

namespace Dashboard.Double

open Float.Model

variable {q r v : ℚ} {x y : Float} {m k n : ℕ} {e t : ℤ}

/-! ### Doubles of a number -/

/-- Of two canonical forms of a number neither has the smaller exponent: the significand of the
other one would be full, and this one would have a bit more. -/
theorem Canonical.le_of_eq (h : Canonical m e) (h' : Canonical k t)
    (heq : (m : ℚ) * 2 ^ e = k * 2 ^ t) : t ≤ e := by
  by_contra hlt
  obtain ⟨d, hd⟩ : ∃ d : ℕ, t = e + (d + 1) := ⟨(t - e - 1).toNat, by omega⟩
  have hpos : (0 : ℚ) < 2 ^ e := by positivity
  have hscaled : m = k * 2 ^ (d + 1) := by
    have : (m : ℚ) = k * 2 ^ (d + 1) := by
      refine mul_right_cancel₀ hpos.ne' (heq.trans ?_)
      rw [hd, zpow_add₀ two_ne_zero, ← zpow_natCast]
      push_cast
      ring
    exact_mod_cast this
  have hfull : 2 ^ 52 ≤ k := h'.full.resolve_right (by have := h.least; omega)
  have hbits : 2 ^ 52 * 2 ≤ k * 2 ^ (d + 1) :=
    Nat.mul_le_mul hfull (Nat.le_self_pow (by omega) 2)
  have := h.lt
  omega

/-- **A number has one canonical form.** -/
theorem Canonical.unique (h : Canonical m e) (h' : Canonical k t)
    (heq : (m : ℚ) * 2 ^ e = k * 2 ^ t) : m = k ∧ e = t := by
  obtain rfl : e = t := le_antisymm (h'.le_of_eq h heq.symm) (h.le_of_eq h' heq)
  have hpos : (0 : ℚ) < 2 ^ e := by positivity
  exact ⟨by exact_mod_cast mul_right_cancel₀ hpos.ne' heq, rfl⟩

/-- A double with a positive number is finite and positive. -/
theorem exists_canonical_of_number? (hx : number? x = some v) (hv : 0 < v) :
    ∃ m e, ∃ h : Canonical m e, x.toModel.unpack = .finite .positive m e h.pos ∧
      v = m * 2 ^ e := by
  rw [number?] at hx
  split at hx
  · cases hx
    exact absurd hv (lt_irrefl 0)
  · next sign m e hm hunpack =>
    cases hx
    cases sign with
    | negative =>
        have hneg : ((UnpackedFloat.Sign.negative.apply m : ℤ) : ℚ) = -m := by
          simp [UnpackedFloat.Sign.apply]
        have hnonneg : (0 : ℚ) ≤ m * 2 ^ e := by positivity
        rw [hneg] at hv
        linarith
    | positive => exact ⟨m, e, (canonical_of_unpack hunpack).1, hunpack, rfl⟩
  · cases hx

/-- Doubles with the same parts are the same. -/
theorem eq_of_unpack (h : x.toModel.unpack = y.toModel.unpack) : x = y := by
  refine Float.toBits_inj.mp (UInt64.toBitVec_inj.mp ?_)
  exact (UnpackedFloat.unpack_inj_of_valid x.toModel.valid y.toModel.valid).mp h

/-- **One double at most stands for a positive number.** -/
theorem eq_of_number? (hx : number? x = some v) (hy : number? y = some v) (hv : 0 < v) : x = y := by
  obtain ⟨m, e, hm, hunpack, hvalue⟩ := exists_canonical_of_number? hx hv
  obtain ⟨k, t, hk, hunpack', hvalue'⟩ := exists_canonical_of_number? hy hv
  obtain ⟨rfl, rfl⟩ := hm.unique hk (hvalue.symm.trans hvalue')
  exact eq_of_unpack (hunpack.trans hunpack'.symm)

/-! ### Every number can be rounded -/

/-- Every number is on a grid. -/
theorem exists_onGrid (h : 0 ≤ q) : ∃ t, OnGrid q t := by
  rcases h.eq_or_lt with rfl | hpos
  · exact ⟨-1074, le_rfl, le_rfl, by positivity, .inl rfl⟩
  · obtain ⟨l, hlow, hhigh⟩ := exists_mem_Ico_zpow hpos one_lt_two
    refine ⟨max (l - 52) (-1074), h, le_max_right .., ?_, ?_⟩
    · exact hhigh.trans_le (zpow_le_zpow_right₀ one_le_two (by omega))
    · rcases le_total (l - 52) (-1074) with hle | hle
      · exact .inl (max_eq_right hle)
      · rw [max_eq_left hle, add_sub_cancel]
        exact .inr hlow

/-- Every number that is not negative is described by its whole part. -/
theorem exists_describes (h : 0 ≤ r) : ∃ accuracy m, Describes accuracy m r := by
  have hlow := Nat.floor_le h
  have hhigh := Nat.lt_floor_add_one r
  generalize ⌊r⌋₊ = m at hlow hhigh
  rcases hlow.eq_or_lt with heq | hlt
  · exact ⟨.exact, m, heq.symm⟩
  · rcases lt_trichotomy (2 * r) (2 * m + 1) with hcmp | hcmp | hcmp
    · exact ⟨.inexact .lt, m, hlt, hcmp⟩
    · exact ⟨.inexact .eq, m, hcmp⟩
    · exact ⟨.inexact .gt, m, hcmp, hhigh⟩

/-- Every number has a nearest whole number. -/
theorem exists_nearestWhole (h : 0 ≤ r) : ∃ n, NearestWhole r n := by
  obtain ⟨accuracy, m, hdescribes⟩ := exists_describes h
  exact ⟨_, nearestWhole_of_describes hdescribes⟩

/-! ### One nearest double -/

/-- Of two whole numbers that are just as near, the other one is odd. -/
theorem NearestWhole.odd_of_tie (h : NearestWhole r n) (hr : 0 ≤ r) {k : ℤ} (hk : k ≠ n)
    (htie : |r - n| = |r - k|) : ∃ j : ℕ, k = j ∧ j % 2 = 1 ∧ |r - j| ≤ 1 / 2 := by
  have heven := h.even_of_tie hk htie
  have hnear : |r - k| ≤ 1 / 2 := htie ▸ h.near
  have hgap : |(k - n : ℤ)| ≤ 1 := by
    have htriangle := abs_sub_le (k : ℚ) r n
    rw [abs_sub_comm (k : ℚ) r] at htriangle
    have : |(k - n : ℚ)| ≤ 1 := by linarith [h.near]
    exact_mod_cast this
  have hnonneg : 0 ≤ k := by
    by_contra hneg
    have : (k : ℚ) ≤ -1 := by exact_mod_cast Int.le_sub_one_of_lt (not_le.mp hneg)
    linarith [(abs_le.mp hnear).2]
  obtain ⟨j, rfl⟩ := Int.eq_ofNat_of_zero_le hnonneg
  rw [abs_le] at hgap
  exact ⟨j, rfl, by omega, by exact_mod_cast hnear⟩

/-- **The nearest double stands for the nearest multiple.** Another double could only be as near. It
would be the next multiple of the grid, with an odd significand, and such a double gives way in a
tie. -/
theorem Nearest.number?_eq (hx : Nearest q x) (h : OnGrid q t) (hn : NearestWhole (q / 2 ^ t) n)
    (hlt : q < 2 ^ 1024 - 2 ^ 970) :
    number? x = some ((n : ℚ) * 2 ^ t) ∧ ((n : ℚ) * 2 ^ t = 0 → x = 0.0) := by
  rw [Nearest, if_pos hlt] at hx
  obtain ⟨v, hv, hzero, hnearest⟩ := hx
  suffices v = n * 2 ^ t by
    subst this
    exact ⟨hv, hzero⟩
  by_contra hne
  obtain ⟨hbound, hfull⟩ := h.bounds hn.near
  obtain ⟨hmultiple, -⟩ := parts_ofRounded hbound hfull h.least ((h.lt_overflow_iff hn).mp hlt)
  obtain ⟨hle, hparity⟩ := hnearest _ _ hmultiple
  have htie : |q - n * 2 ^ t| = |q - v| := le_antisymm (h.nearest hn hv).1 hle
  rcases onGrid_or_below hv h.least with ⟨k, rfl⟩ | ⟨ht, hbelow⟩
  · have hpos : (0 : ℚ) < 2 ^ t := by positivity
    have hk : k ≠ n := by
      rintro rfl
      exact hne (by rw [Int.cast_natCast])
    have hwhole := htie
    rw [abs_sub_mul_zpow, abs_sub_mul_zpow] at hwhole
    obtain ⟨j, rfl, hodd, hnear⟩ := hn.odd_of_tie (div_nonneg h.nonneg hpos.le) hk
      (mul_right_cancel₀ hpos.ne' hwhole)
    obtain ⟨hj, hjfull⟩ := h.bounds hnear
    have hcanonical : Canonical j t := ⟨by omega, by omega, h.least, hjfull.symm⟩
    have hjpos : (0 : ℚ) < j := by exact_mod_cast hcanonical.pos
    obtain ⟨m, e, hm, hunpack, hvalue⟩ :=
      exists_canonical_of_number? hv (mul_pos (by exact_mod_cast hjpos) hpos)
    obtain ⟨rfl, -⟩ := hcanonical.unique hm (by exact_mod_cast hvalue)
    have hsignificand : significand x = j := by rw [significand, hunpack]
    have heven := hparity (Ne.symm hne) htie.symm
    omega
  · exact absurd htie (h.abs_sub_lt_of_below hn ht hbelow).ne

/-- **A number has one nearest double.** -/
theorem Nearest.unique (h : 0 ≤ q) (hx : Nearest q x) (hy : Nearest q y) : x = y := by
  by_cases hlt : q < 2 ^ 1024 - 2 ^ 970
  · obtain ⟨t, hgrid⟩ := exists_onGrid h
    have hpos : (0 : ℚ) < 2 ^ t := by positivity
    obtain ⟨n, hn⟩ := exists_nearestWhole (div_nonneg h hpos.le)
    obtain ⟨hxnumber, hxzero⟩ := hx.number?_eq hgrid hn hlt
    obtain ⟨hynumber, hyzero⟩ := hy.number?_eq hgrid hn hlt
    have hnonneg : (0 : ℚ) ≤ n * 2 ^ t := by positivity
    rcases hnonneg.eq_or_lt with hzero | hpositive
    · rw [hxzero hzero.symm, hyzero hzero.symm]
    · exact eq_of_number? hxnumber hynumber hpositive
  · rw [Nearest, if_neg hlt] at hx hy
    rw [hx, hy]

end Dashboard.Double
