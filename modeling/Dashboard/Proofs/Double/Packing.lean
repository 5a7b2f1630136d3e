import Dashboard.Double
import Mathlib

/-!
# The Numbers That Doubles Stand For

A finite double stands for a sign, a significand below `2 ^ 53` and an exponent of two. It is
canonical: its significand has all 53 bits, or its exponent is the least one. Packing a canonical
double into bits and taking it apart again gives it back, unless its exponent is too large; then
the bits are those of infinity.

## Main results

* `unpack_pack_finite` — a canonical double survives its bits.
* `pack_of_overflow` — an exponent that is too large makes an infinity.
* `exists_parts_of_number?` — the numbers that doubles stand for.
-/

namespace Dashboard.Double

open Float.Model
open UnpackedFloat (packComponents packedInfinity unpackSign unpackExponent unpackMantissa)

/-- The number that a finite double stands for. -/
def number? (x : Float) : Option ℚ :=
  match x.toModel.unpack with
  | .zero _ => some 0
  | .finite sign m e _ => some (sign.apply m * 2 ^ e)
  | _ => none

/-- The significand of a finite double, and zero for the other ones. -/
def significand (x : Float) : Nat :=
  match x.toModel.unpack with
  | .finite _ m _ _ => m
  | _ => 0

/-- A significand and an exponent that are **canonical**: all bits of the significand are in use,
or the exponent is the least one. -/
structure Canonical (m : Nat) (e : Int) : Prop where
  pos : 0 < m
  lt : m < 2 ^ 53
  least : -1074 ≤ e
  full : 2 ^ 52 ≤ m ∨ e = -1074

/-! ### Bits -/

/-- The bit in front of a full significand is not stored. -/
theorem toNat_implicit_append (m : BitVec 52) : (1#1 ++ m).toNat = 2 ^ 52 + m.toNat := by
  rw [BitVec.toNat_append, ← Nat.shiftLeft_add_eq_or_of_lt m.isLt]
  rfl

/-! ### Packing and unpacking -/

/-- Bits whose exponent has neither only ones nor only zeros are those of a double with a full
significand. -/
theorem unpack_packComponents_normal (sign : UnpackedFloat.Sign) {e : BitVec 11}
    (hones : e ≠ -1#11) (hzero : e ≠ 0#11) (m : BitVec 52) (h : 0 < 2 ^ 52 + m.toNat) :
    UnpackedFloat.unpack Format.binary64 (packComponents Format.binary64 sign e m) =
      .finite sign (2 ^ 52 + m.toNat) (e.toNat - 1075) h := by
  simp only [UnpackedFloat.unpack, UnpackedFloat.unpackMantissa_packComponents,
    UnpackedFloat.unpackExponent_packComponents, UnpackedFloat.unpackSign_packComponents,
    UnpackedFloat.Sign.ofBitVec_toBitVec]
  rw [if_neg hones, if_neg hzero]
  simp only [toNat_implicit_append]
  rfl

/-- Bits whose exponent has only zeros, and whose significand has not, are those of a double with
the least exponent. -/
theorem unpack_packComponents_subnormal (sign : UnpackedFloat.Sign) {m : BitVec 52}
    (hm : m ≠ 0#52) (h : 0 < m.toNat) :
    UnpackedFloat.unpack Format.binary64 (packComponents Format.binary64 sign 0#11 m) =
      .finite sign m.toNat (-1074) h := by
  simp only [UnpackedFloat.unpack, UnpackedFloat.unpackMantissa_packComponents,
    UnpackedFloat.unpackExponent_packComponents, UnpackedFloat.unpackSign_packComponents,
    UnpackedFloat.Sign.ofBitVec_toBitVec]
  rw [if_neg (by decide), if_pos trivial, dif_neg hm]
  rfl

/-- What is packed of a finite double. -/
theorem pack_finite (sign : UnpackedFloat.Sign) {m : Nat} (e : Int) (hm : 0 < m) :
    UnpackedFloat.pack Format.binary64 (.finite sign m e hm) =
      if 2048 ≤ (e + 1075).toNat + 1 then packedInfinity Format.binary64 sign
      else if m.log2 + 1 = 53 then
        packComponents Format.binary64 sign (BitVec.ofNat 11 (e + 1075).toNat) (BitVec.ofNat 52 m)
      else packComponents Format.binary64 sign 0#11 (BitVec.ofNat 52 m) := by
  have hbias : e + (Format.binary64.exponentBias : Int) + (52 : Nat) = e + 1075 :=
    Int.add_assoc e 1023 52
  simp only [UnpackedFloat.pack, hbias]
  rfl

/-- **An exponent that is too large makes an infinity.** -/
theorem pack_of_overflow (sign : UnpackedFloat.Sign) {m : Nat} {e : Int} (hm : 0 < m)
    (he : 972 ≤ e) :
    UnpackedFloat.pack Format.binary64 (.finite sign m e hm) =
      packedInfinity Format.binary64 sign := by
  rw [pack_finite, if_pos (by omega)]

/-- **A canonical double survives its bits.** -/
theorem unpack_pack_finite (sign : UnpackedFloat.Sign) {m : Nat} {e : Int} (h : Canonical m e)
    (he : e ≤ 971) :
    UnpackedFloat.unpack Format.binary64
      (UnpackedFloat.pack Format.binary64 (.finite sign m e h.pos)) = .finite sign m e h.pos := by
  obtain ⟨hpos, hlt, hleast, hfull⟩ := h
  have hfits : ¬ 2048 ≤ (e + 1075).toNat + 1 := by omega
  rw [pack_finite, if_neg hfits]
  by_cases hm : 2 ^ 52 ≤ m
  · have hlog : m.log2 + 1 = 53 := by
      rw [(Nat.log2_eq_iff hpos.ne').mpr ⟨hm, hlt⟩]
    have hexponent : (BitVec.ofNat 11 (e + 1075).toNat).toNat = (e + 1075).toNat := by
      rw [BitVec.toNat_ofNat, Nat.mod_eq_of_lt (by omega)]
    have hmantissa : 2 ^ 52 + (BitVec.ofNat 52 m).toNat = m := by
      rw [BitVec.toNat_ofNat, Nat.mod_eq_sub_mod hm, Nat.mod_eq_of_lt (by omega)]
      omega
    have hones : BitVec.ofNat 11 (e + 1075).toNat ≠ -1#11 := by
      intro hones
      rw [hones] at hexponent
      have : (-1#11).toNat = 2047 := rfl
      omega
    have hzero : BitVec.ofNat 11 (e + 1075).toNat ≠ 0#11 := by
      intro hzero
      rw [hzero] at hexponent
      have : (0#11).toNat = 0 := rfl
      omega
    rw [if_pos hlog, unpack_packComponents_normal sign hones hzero _ (by omega)]
    congr 1
    omega
  · have hlog : m.log2 + 1 ≠ 53 := by
      have := (Nat.log2_lt hpos.ne').mpr (Nat.lt_of_not_le hm)
      omega
    have hmantissa : (BitVec.ofNat 52 m).toNat = m := by
      rw [BitVec.toNat_ofNat, Nat.mod_eq_of_lt (by omega)]
    have hzero : BitVec.ofNat 52 m ≠ 0#52 := by
      intro hzero
      rw [hzero] at hmantissa
      have : (0#52).toNat = 0 := rfl
      omega
    rw [if_neg hlog, unpack_packComponents_subnormal sign hzero (by omega)]
    congr 1
    omega

/-- **Every finite double is canonical.** -/
theorem canonical_of_unpack {b : BitVec 64} {sign : UnpackedFloat.Sign} {m : Nat} {e : Int}
    {hm : 0 < m} (h : UnpackedFloat.unpack Format.binary64 b = .finite sign m e hm) :
    Canonical m e ∧ e ≤ 971 := by
  have hbias : (Format.binary64.exponentBias : Int) + (52 : Nat) = 1075 := rfl
  simp only [UnpackedFloat.unpack, hbias] at h
  split at h
  · split at h <;> cases h
  · next hones =>
    split at h
    · next hzero =>
      split at h
      · cases h
      · obtain ⟨rfl, rfl, rfl⟩ := UnpackedFloat.finite.inj h
        have hexponent : (@unpackExponent Format.binary64 b).toNat = 0 := by rw [hzero]; rfl
        have hlt : (@unpackMantissa Format.binary64 b).toNat < 2 ^ 52 := BitVec.isLt _
        exact ⟨⟨hm, by omega, by omega, .inr (by omega)⟩, by omega⟩
    · next hzero =>
      obtain ⟨rfl, rfl, rfl⟩ := UnpackedFloat.finite.inj h
      have hlt : (@unpackExponent Format.binary64 b).toNat < 2 ^ 11 := BitVec.isLt _
      have hpos : (@unpackExponent Format.binary64 b).toNat ≠ 0 :=
        fun h => hzero (BitVec.eq_of_toNat_eq h)
      have hsmall : (@unpackExponent Format.binary64 b).toNat ≠ 2047 :=
        fun h => hones (BitVec.eq_of_toNat_eq h)
      have hmantissa : (@unpackMantissa Format.binary64 b).toNat < 2 ^ 52 := BitVec.isLt _
      have himplicit := toNat_implicit_append (@unpackMantissa Format.binary64 b)
      exact ⟨⟨hm, by omega, by omega, .inl (by omega)⟩, by omega⟩

/-- The sign of a double is changed by itself. -/
theorem unpack_neg {y : Float} {sign : UnpackedFloat.Sign} {m : Nat} {e : Int} {hm : 0 < m}
    (h : y.toModel.unpack = .finite sign m e hm) :
    (-y).toModel.unpack = .finite (-sign) m e hm := by
  obtain ⟨hcanonical, he⟩ := canonical_of_unpack h
  have hneg : (-y).toModel = .pack y.toModel.unpack.neg := rfl
  rw [hneg, h]
  exact unpack_pack_finite (-sign) hcanonical he

/-! ### Numbers -/

/-- A whole multiple of a power of two stands for every double with that number. -/
theorem exists_parts_of_number? {x : Float} {v : ℚ} (h : number? x = some v) :
    ∃ k e : ℤ, v = k * 2 ^ e ∧ |k| < 2 ^ 53 ∧ -1074 ≤ e := by
  rw [number?] at h
  split at h
  · cases h
    exact ⟨0, -1074, by simp, by norm_num, le_rfl⟩
  · next sign m e hm hunpack =>
    cases h
    obtain ⟨⟨-, hlt, hleast, -⟩, -⟩ := canonical_of_unpack hunpack
    refine ⟨sign.apply m, e, rfl, ?_, hleast⟩
    have habs : |sign.apply (m : ℤ)| = m := by
      cases sign
      · exact (abs_neg _).trans (Nat.abs_cast m)
      · exact Nat.abs_cast m
    rw [habs]
    exact_mod_cast hlt
  · cases h

variable {m : Nat} {e : Int}

/-- A significand and an exponent that are canonical make the double of their number. -/
theorem number?_pack_finite (h : Canonical m e) (he : e ≤ 971) :
    number? (.ofModel (.pack (.finite .positive m e h.pos))) = some ((m : ℚ) * 2 ^ e) := by
  have hunpack : (Float.ofModel (.pack (.finite .positive m e h.pos))).toModel.unpack =
      .finite .positive m e h.pos := unpack_pack_finite .positive h he
  rw [number?, hunpack, ← Int.cast_natCast m]
  rfl

/-- The significand of this double is the one it was made of. -/
theorem significand_pack_finite (h : Canonical m e) (he : e ≤ 971) :
    significand (.ofModel (.pack (.finite .positive m e h.pos))) = m := by
  have hunpack : (Float.ofModel (.pack (.finite .positive m e h.pos))).toModel.unpack =
      .finite .positive m e h.pos := unpack_pack_finite .positive h he
  rw [significand, hunpack]

/-- Infinity is packed as what one divided by zero is. -/
theorem pack_infinity : Float.ofModel (.pack (.infinity .positive)) = 1.0 / 0.0 :=
  rfl

/-- An exponent that is too great is packed as infinity. -/
theorem pack_overflow (hm : 0 < m) (he : 972 ≤ e) :
    Float.ofModel (.pack (.finite .positive m e hm)) = 1.0 / 0.0 := by
  have hbits := pack_of_overflow .positive hm he
  rw [← pack_infinity, Float.Model.pack]
  simp only [hbits]
  rfl

end Dashboard.Double
