import Dashboard.Document.Json.Writer
import Dashboard.Proofs.Document.Json
import Dashboard.Proofs.Double.Shortest

/-!
# Doubles Are Read Back From JSON

A finite double is written with its shortest digits, around a point or with an exponent behind
them. Both layouts are numbers of JSON, and both denote the digits. What is read is the double
nearest to them, which is the one that was written.

## Main results

* `Spelling.number?` — a number is read as the double nearest to what it spells.
* `spelling_positional`, `spelling_scientific` — what the two layouts of digits spell.
* `exists_spelling_render` — what is written for a finite double spells a number near to it.
* `value_real` — a finite double is read back as a value, wherever its form ends.
-/

namespace Dashboard.Json

open Decimal (Digits Dyadic Exponent Layout Pointed Sign Spells SpellsLiteral natOfDigits)
open Double (Nearest)
open Float.Model (UnpackedFloat)
open Text (Stops)

variable {whole fraction text rest : List Char} {q : ℚ}

/-! ### What a number spells -/

/-- A minus sign, if there is one. -/
def minus (negative : Bool) : List Char :=
  if negative then ['-'] else []

/-- A number has a minus sign or none. -/
theorem minus_eq (negative : Bool) : minus negative = [] ∨ minus negative = ['-'] := by
  cases negative
  · exact .inl rfl
  · exact .inr rfl

/-- The sign of a number says whether it is negative. -/
theorem sign_minus (negative : Bool) : Sign (minus negative) negative := by
  cases negative
  · exact .none
  · exact .minus

/-- What a number of JSON without a sign spells. It has a point or an exponent, so it is not
read as a whole number. -/
inductive Spelling : List Char → ℚ → Prop
  | number {whole pointed fraction ending : List Char} {n : ℕ} {e : ℤ} :
      whole ≠ [] → (whole.head? = some '0' → whole.length = 1) → Pointed pointed fraction →
        (pointed = [] ∨ fraction ≠ []) → (pointed ≠ [] ∨ ending ≠ []) →
          Spells 10 (whole ++ fraction) n → Exponent ending e →
            Spelling (whole ++ (pointed ++ ending)) (n * 10 ^ (e - fraction.length))

/-- A number is taken up to its end. -/
theorem Spelling.numberBody? (h : Spelling text q) (negative : Bool) (hrest : EndsNumber rest) :
    numberBody? (minus negative ++ (text ++ rest)) = some (minus negative ++ text, rest) := by
  cases h with
  | number hne hzero hp hpoint _ hspells he =>
      simp only [List.append_assoc]
      exact numberBody?_literal (minus_eq negative) hne hzero hp hpoint
        (Decimal.spells_ten_iff.mp hspells).1 he hrest

/-- A number has a character that is no digit. -/
theorem Spelling.not_all_isDigit (h : Spelling text q) : text.all Char.isDigit = false := by
  cases h with
  | number _ _ hp _ hmark _ he =>
      rw [List.all_append, List.all_append]
      cases hp with
      | point => simp
      | none =>
          cases he with
          | none => exact absurd hmark (by simp)
          | power hletter =>
              rcases hletter with rfl | rfl
              all_goals simp

/-- **A number is read as the double nearest to what it spells**, with its sign. -/
theorem Spelling.number? (h : Spelling text q) (negative : Bool) :
    ∃ x, Nearest q x ∧
      number? (minus negative ++ text) = some (.real (if negative then -x else x)) := by
  have hall := h.not_all_isDigit
  cases h with
  | @number whole pointed fraction ending n e hne hzero hp hpoint _ hspells he =>
      have hwhole : whole ++ fraction ≠ [] := by simp [hne]
      have hliteral := Decimal.literal?_eq_some_iff.mpr
        (.literal (sign_minus negative) hp hwhole hspells he)
      obtain ⟨x, hnearest, hdouble⟩ :=
        Decimal.Literal.exists_nearest_toDouble ⟨negative, n, e - fraction.length⟩
      refine ⟨x, hnearest, ?_⟩
      have hstops : Stops Decimal.isSign (whole ++ (pointed ++ ending)) :=
        Decimal.stops_isSign_of_literal hp hwhole (Decimal.spells_ten_iff.mp hspells).1
      have hsign := Decimal.takeSign_append (sign_minus negative) hstops
      rw [Json.number?, hsign]
      dsimp only
      rw [hall, if_neg Bool.false_ne_true, Decimal.ofLiteral?, hliteral, Option.map_some,
        Option.map_some, hdouble]

/-! ### The layouts of digits -/

/-- The digits of a positive number do not begin with a zero. -/
theorem head?_toDigits_ne_zero {n : ℕ} (hn : 0 < n) : (Nat.toDigits 10 n).head? ≠ some '0' :=
  fun hzero => hn.ne' ((head?_toDigits_eq_zero_iff n).mp hzero)

/-- Zeros are digits. -/
theorem isDigit_of_mem_zeros {n : ℕ} : ∀ c ∈ Decimal.zeros n, Text.isDigit c = true := by
  intro c hc
  rw [List.eq_of_mem_replicate hc]
  rfl

/-- Digits in front of a point and behind it. -/
theorem Spelling.point {n : ℕ} (hne : whole ≠ [])
    (hzero : whole.head? = some '0' → whole.length = 1) (hfraction : fraction ≠ [])
    (hspells : Spells 10 (whole ++ fraction) n) :
    Spelling (whole ++ '.' :: fraction) (n * 10 ^ (-fraction.length : ℤ)) := by
  have h := Spelling.number hne hzero (.point fraction) (.inr hfraction)
    (.inl (List.cons_ne_nil _ _)) hspells .none
  rwa [List.append_nil, zero_sub] at h

/-- Digits with zeros and `.0` behind them. -/
theorem spelling_whole {n : ℕ} (hn : 0 < n) (k : ℕ) :
    Spelling (Nat.toDigits 10 n ++ Decimal.zeros k ++ ['.', '0']) (n * 10 ^ k) := by
  have hspells : Spells 10 (Nat.toDigits 10 n ++ Decimal.zeros k ++ ['0']) (10 * (10 ^ k * n)) := by
    have hdigits : ∀ c ∈ Nat.toDigits 10 n ++ Decimal.zeros k, Text.isDigit c = true :=
      List.forall_mem_append.mpr ⟨isDigit_of_mem_toDigits, isDigit_of_mem_zeros⟩
    have hnumber : natOfDigits (Nat.toDigits 10 n ++ Decimal.zeros k) = 10 ^ k * n := by
      rw [Decimal.natOfDigits_append, Decimal.natOfDigits_toDigits, Decimal.zeros,
        Decimal.natOfDigits_replicate_zero, List.length_replicate, Nat.add_zero]
    exact .snoc (Decimal.spells_ten_iff.mpr ⟨hdigits, hnumber.symm⟩) (d := 0) (by decide)
  have hvalue : (n * 10 ^ k : ℚ) = (10 * (10 ^ k * n) : ℕ) * 10 ^ (-(['0'].length : ℕ) : ℤ) := by
    have hexponent : (-(['0'].length : ℕ) : ℤ) = -1 := rfl
    rw [hexponent]
    push_cast
    field_simp
  have hhead : (Nat.toDigits 10 n ++ Decimal.zeros k).head? ≠ some '0' := by
    rw [List.head?_append_of_ne_nil _ Nat.toDigits_ne_nil]
    exact head?_toDigits_ne_zero hn
  rw [hvalue]
  exact .point (by simp [Nat.toDigits_ne_nil]) (absurd · hhead) (List.cons_ne_nil _ _) hspells

/-- Digits of which the last few stand behind a point. There are zeros in front of them if there are
not enough digits; if there are, the first of them is no zero. -/
theorem spelling_split {n k : ℕ} (hn : 0 < n) (hk : 0 < k) {padded : List Char}
    (hpadded : padded = Decimal.zeros (k + 1 - (Nat.toDigits 10 n).length) ++ Nat.toDigits 10 n) :
    Spelling (padded.take (padded.length - k) ++ '.' :: padded.drop (padded.length - k))
      (n * 10 ^ (-k : ℤ)) := by
  have hlength : padded.length = max (k + 1) (Nat.toDigits 10 n).length := by
    rw [hpadded, Decimal.zeros, List.length_append, List.length_replicate]
    omega
  have hspells : Spells 10
      (padded.take (padded.length - k) ++ padded.drop (padded.length - k)) n := by
    rw [List.take_append_drop, Decimal.spells_ten_iff, hpadded, List.forall_mem_append,
      Decimal.zeros, Decimal.natOfDigits_replicate_zero_append, Decimal.natOfDigits_toDigits]
    exact ⟨⟨isDigit_of_mem_zeros, isDigit_of_mem_toDigits⟩, rfl⟩
  have hhead : (padded.take (padded.length - k)).head? = some '0' →
      (padded.take (padded.length - k)).length = 1 := by
    intro hzero
    rw [List.length_take]
    rcases Nat.lt_or_ge k (Nat.toDigits 10 n).length with hlt | hge
    · have henough : k + 1 - (Nat.toDigits 10 n).length = 0 := by omega
      rw [henough, Decimal.zeros, List.replicate_zero, List.nil_append] at hpadded
      rw [List.head?_take, if_neg (by omega), hpadded] at hzero
      exact absurd hzero (head?_toDigits_ne_zero hn)
    · omega
  have hfraction : (padded.drop (padded.length - k)).length = k := by
    rw [List.length_drop]
    omega
  have hwhole : padded.take (padded.length - k) ≠ [] := by
    refine List.ne_nil_of_length_pos ?_
    rw [List.length_take]
    omega
  have hbehind : padded.drop (padded.length - k) ≠ [] := List.ne_nil_of_length_pos (by omega)
  have hsplit := Spelling.point hwhole hhead hbehind hspells
  rwa [hfraction] at hsplit

/-- **Digits around a point** spell their number. -/
theorem spelling_positional {d : Digits} (hd : 0 < d.digits) :
    Spelling (d.positional true) d.value := by
  unfold Digits.positional
  dsimp only
  split
  · next hexponent =>
    have hpower : d.value = d.digits * 10 ^ d.exponent.toNat := by
      rw [Digits.value, ← zpow_natCast, Int.toNat_of_nonneg hexponent]
    rw [hpower, if_pos rfl]
    exact spelling_whole hd _
  · next hexponent =>
    have hpower : d.value = d.digits * 10 ^ (-(-d.exponent).toNat : ℤ) := by
      rw [Digits.value]
      congr 2
      omega
    rw [hpower]
    exact spelling_split hd (by omega) rfl

/-- The exponent behind digits, with its sign. -/
theorem exponent_signed (e : ℤ) :
    Exponent ('e' :: (if e < 0 then '-' else '+') :: Nat.toDigits 10 e.natAbs) e := by
  have hspells : Spells 10 (Nat.toDigits 10 e.natAbs) e.natAbs :=
    Decimal.spells_ten_iff.mpr ⟨isDigit_of_mem_toDigits, (Decimal.natOfDigits_toDigits _).symm⟩
  split
  · next hneg =>
    have h : Exponent ('e' :: (['-'] ++ Nat.toDigits 10 e.natAbs))
        (if true then -(e.natAbs : ℤ) else e.natAbs) :=
      .power (.inl rfl) .minus Nat.toDigits_ne_nil hspells
    rwa [if_pos rfl, Int.ofNat_natAbs_of_nonpos hneg.le, neg_neg] at h
  · next hnonneg =>
    have h : Exponent ('e' :: (['+'] ++ Nat.toDigits 10 e.natAbs))
        (if false then -(e.natAbs : ℤ) else e.natAbs) :=
      .power (.inl rfl) .plus Nat.toDigits_ne_nil hspells
    rwa [if_neg Bool.false_ne_true, Int.natAbs_of_nonneg (not_lt.mp hnonneg)] at h

/-- **A digit, the others behind a point, and an exponent** spell the number of the digits. -/
theorem spelling_scientific (d : Digits) : Spelling d.scientific d.value := by
  have hspells : Spells 10 (Nat.toDigits 10 d.digits) d.digits :=
    Decimal.spells_ten_iff.mpr ⟨isDigit_of_mem_toDigits, (Decimal.natOfDigits_toDigits _).symm⟩
  unfold Digits.scientific
  dsimp only
  split
  · next first second others hdigits =>
    have hfirst : [first] ≠ [] := List.cons_ne_nil _ _
    rw [hdigits] at hspells
    have h := Spelling.number hfirst (fun _ => rfl)
      (.point (second :: others)) (.inr (List.cons_ne_nil _ _)) (.inl (List.cons_ne_nil _ _))
      hspells (exponent_signed (d.exponent + ((second :: others).length : ℕ)))
    rw [hdigits]
    rwa [add_sub_cancel_right] at h
  · next hshort =>
    obtain ⟨first, others, hdigits, -⟩ := exists_toDigits_eq_cons d.digits
    obtain rfl : others = [] := by
      cases others with
      | nil => rfl
      | cons second others => exact absurd hdigits (hshort first second others)
    have hfirst : [first] ≠ [] := List.cons_ne_nil _ _
    rw [hdigits] at hspells ⊢
    have h := Spelling.number hfirst (fun _ => rfl)
      .none (.inl rfl) (.inr (List.cons_ne_nil _ _)) hspells (exponent_signed d.exponent)
    simpa [Digits.value] using h

/-- What is written for digits spells their number. -/
theorem spelling_magnitude {d : Digits} (hd : 0 < d.digits) :
    Spelling (Layout.json.magnitude d) d.value := by
  have hmagnitude : Layout.json.magnitude d =
      if -5 ≤ d.leading ∧ d.leading ≤ 15 then d.positional true else d.scientific := rfl
  rw [hmagnitude]
  split
  · exact spelling_positional hd
  · exact spelling_scientific d

/-! ### Doubles -/

/-- A positive double has digits. -/
theorem digits_shortest_pos {m : ℕ} (h : Double.Canonical m e) (tie : Decimal.Tie) :
    0 < (Dyadic.shortest ⟨m, e⟩ tie).digits := by
  have hpos := (Decimal.Dyadic.shortest_rounds (v := ⟨m, e⟩) h tie).pos h.pos
  rw [Digits.value] at hpos
  refine Nat.pos_of_ne_zero fun hzero => ?_
  rw [hzero, Nat.cast_zero, zero_mul] at hpos
  exact lt_irrefl 0 hpos

/-- The double nearest to zero is zero without a sign. -/
theorem eq_zero_of_nearest {y : Float} (hy : Nearest 0 y) : y = 0.0 :=
  hy.unique le_rfl (Double.nearest_zero le_rfl (by positivity))

/-- The digits of zero. -/
theorem spelling_zero : Spelling ['0', '.', '0'] 0 := by
  have hwhole : Spells 10 ['0'] 0 := Spells.snoc .nil (d := 0) (by decide)
  have hspells : Spells 10 (['0'] ++ ['0']) 0 := hwhole.snoc (d := 0) (by decide)
  have h := Spelling.point (List.cons_ne_nil _ _) (fun _ => rfl) (List.cons_ne_nil _ _) hspells
  rwa [Nat.cast_zero, zero_mul] at h

/-- **What is written for a finite double** spells a number that the double is read from, with
its sign. -/
theorem exists_spelling_render {x : Float} (h : x.isFinite = true) :
    ∃ negative text q, Spelling text q ∧ (Layout.json.render x).toList = minus negative ++ text ∧
      ∀ y, Nearest q y → (if negative then -y else y) = x := by
  have hfinite : x.toModel.unpack.isFinite = true := h
  unfold Layout.render
  split
  · next hunpack => cases hunpack ▸ hfinite
  · next hunpack => cases hunpack ▸ hfinite
  · next hunpack => cases hunpack ▸ hfinite
  · next sign hunpack =>
    cases sign with
    | positive =>
        refine ⟨false, _, 0, spelling_zero, rfl, fun y hy => ?_⟩
        rw [eq_zero_of_nearest hy]
        exact Double.eq_of_unpack (Eq.trans rfl hunpack.symm)
    | negative =>
        refine ⟨true, _, 0, spelling_zero, rfl, fun y hy => ?_⟩
        rw [eq_zero_of_nearest hy]
        exact Double.eq_of_unpack (Eq.trans rfl hunpack.symm)
  · next sign m e hm hunpack =>
    obtain ⟨hcanonical, he⟩ := Double.canonical_of_unpack hunpack
    have hspelling := spelling_magnitude (digits_shortest_pos hcanonical .even)
    have hread : ∀ y, Nearest (Dyadic.shortest ⟨m, e⟩ .even).value y →
        y.toModel.unpack = .finite .positive m e hcanonical.pos := fun y =>
      Decimal.unpack_of_nearest_shortest hcanonical he .even
    cases sign with
    | positive =>
        refine ⟨false, _, _, hspelling, by simp [minus, Layout.json], fun y hy => ?_⟩
        exact Double.eq_of_unpack ((hread y hy).trans hunpack.symm)
    | negative =>
        refine ⟨true, _, _, hspelling, by simp [minus, Layout.json], fun y hy => ?_⟩
        exact Double.eq_of_unpack ((Double.unpack_neg (hread y hy)).trans hunpack.symm)

/-! ### Values -/

/-- A number begins with a digit or a minus sign. -/
theorem Spelling.exists_cons (h : Spelling text q) (negative : Bool) :
    ∃ c more, minus negative ++ text = c :: more ∧ (c.isDigit = true ∨ c = '-') := by
  cases negative with
  | true => exact ⟨'-', text, rfl, .inr rfl⟩
  | false =>
      cases h with
      | number hne _ _ _ _ hspells _ =>
          obtain ⟨c, more, rfl⟩ := List.exists_cons_of_ne_nil hne
          exact ⟨c, _, rfl, .inl ((Decimal.spells_ten_iff.mp hspells).1 c List.mem_cons_self)⟩

/-- A number is neither blank nor another kind of value. -/
theorem value_of_number {c : Char} {more : List Char} (hc : c.isDigit = true ∨ c = '-')
    (fuel : ℕ) :
    value (fuel + 1) (c :: more) =
      (numberBody? (c :: more)).bind fun body => (number? body.1).map (·, body.2) := by
  have hblank : isBlank c = false := by
    rcases hc with hc | rfl
    · exact isBlank_of_isDigit hc
    · rfl
  have hne : ∀ {d : Char} {others : List Char}, d.isDigit = false → d ≠ '-' →
      c :: more ≠ d :: others := by
    rintro d others hd hminus ⟨⟩
    exact hc.elim (Bool.false_ne_true <| hd.symm.trans ·) hminus
  rw [value, skipBlanks_cons hblank]
  split
  all_goals try exact absurd ‹_› (hne (by decide) (by decide))
  cases numberBody? (c :: more) with
  | none => rfl
  | some body =>
      obtain ⟨body, rest⟩ := body
      cases hnumber : number? body with
      | none => simp [hnumber]
      | some d => simp [hnumber]

/-- What is written for a finite double begins with a digit or a minus sign. -/
theorem exists_number_cons {x : Float} (h : x.isFinite = true) :
    ∃ c more, (number x).toList = c :: more ∧ (c.isDigit = true ∨ c = '-') := by
  obtain ⟨negative, text, q, hspelling, hrender, -⟩ := exists_spelling_render h
  obtain ⟨c, more, hcons, hc⟩ := hspelling.exists_cons negative
  exact ⟨c, more, by rw [number, if_pos h, hrender, hcons], hc⟩

/-- **A finite double is read back as a value**, wherever its form ends. -/
theorem value_real {x : Float} (h : x.isFinite = true) (fuel : ℕ) (hrest : EndsNumber rest) :
    value (fuel + 1) ((number x).toList ++ rest) = some (.real x, rest) := by
  obtain ⟨negative, text, q, hspelling, hrender, hread⟩ := exists_spelling_render h
  obtain ⟨y, hy, hnumber⟩ := hspelling.number? negative
  obtain ⟨c, more, hcons, hc⟩ := hspelling.exists_cons negative
  have hbody := hspelling.numberBody? negative hrest
  rw [← List.append_assoc] at hbody
  rw [number, if_pos h, hrender]
  rw [hcons, List.cons_append] at hbody ⊢
  rw [value_of_number hc, hbody, Option.bind_some, ← hcons, hnumber, hread y hy]
  rfl

end Dashboard.Json
