import Dashboard.Decimal.Literal
import Dashboard.Value

/-!
# Runs of Characters and Digits

What is written with a run of characters is read back if something else follows. This module
has what the two formats of documents share: where a run stops, the decimal digits of a whole
number, and the four hexadecimal digits of a character that needs an escape.

## Main results

* `Text.takeWhile_of_stops`, `Text.dropWhile_of_stops` — a run, and what it leaves behind.
* `Decimal.natOfDigits_toDigits` — the digits of a number denote it.
* `head?_toDigits_eq_zero_iff` — only the digits of zero begin with a zero.
* `natOfHex?_fourDigits` — the digits of an escape denote its character.
-/

namespace Dashboard

namespace Text

variable {p : Char → Bool} {run rest : List Char}

/-- A text does not go on with a character that has a property. -/
def Stops (p : Char → Bool) (rest : List Char) : Prop :=
  ∀ c ∈ rest.head?, p c = false

/-- A text stops where its first character has not the property. -/
theorem stops_cons {c : Char} (h : p c = false) : Stops p (c :: rest) := by
  rintro _ ⟨⟩
  exact h

/-- Nothing is taken off a text where it stops. -/
theorem Stops.takeWhile (h : Stops p rest) : rest.takeWhile p = [] := by
  cases rest with
  | nil => rfl
  | cons c more => rw [List.takeWhile_cons, h c rfl, if_neg Bool.false_ne_true]

/-- Neither is anything dropped there. -/
theorem Stops.dropWhile (h : Stops p rest) : rest.dropWhile p = rest := by
  cases rest with
  | nil => rfl
  | cons c more => rw [List.dropWhile_cons, h c rfl, if_neg Bool.false_ne_true]

/-- A run that is dropped is dropped up to where it stops. -/
theorem stops_dropWhile (p : Char → Bool) (text : List Char) : Stops p (text.dropWhile p) := by
  intro c hc
  have h := List.head?_dropWhile_not p text
  rw [hc] at h
  exact h

/-- A run is taken up to where it stops. -/
theorem takeWhile_of_stops (hrun : ∀ c ∈ run, p c = true) (h : Stops p rest) :
    (run ++ rest).takeWhile p = run := by
  rw [List.takeWhile_append_of_pos hrun, h.takeWhile, List.append_nil]

/-- Behind a run is what it stopped at. -/
theorem dropWhile_of_stops (hrun : ∀ c ∈ run, p c = true) (h : Stops p rest) :
    (run ++ rest).dropWhile p = rest := by
  rw [List.dropWhile_append_of_pos hrun, h.dropWhile]

/-- Digits are not blank. -/
theorem isBlank_of_isDigit {c : Char} (h : isDigit c = true) : isBlank c = false := by
  have hrange : '0'.val ≤ c.val ∧ c.val ≤ '9'.val := by
    simpa only [isDigit, Char.isDigit, Bool.and_eq_true, decide_eq_true_eq] using h
  have hlow : 48 ≤ c.toNat := hrange.1
  have hhigh : c.toNat ≤ 57 := hrange.2
  refine Bool.eq_false_iff.mpr fun hblank => ?_
  simp only [isBlank, Bool.or_eq_true, Bool.and_eq_true, decide_eq_true_eq, beq_iff_eq] at hblank
  omega

end Text

/-! ### Decimal digits -/

/-- The digits of a number denote it. -/
theorem Decimal.natOfDigits_toDigits (n : Nat) :
    Decimal.natOfDigits (Nat.toDigits 10 n) = n := by
  rw [Decimal.natOfDigits, ← Nat.ofDigitChars_eq_foldl, Nat.ofDigitChars_ten_toDigits]

/-- The digits of a number are digits. -/
theorem isDigit_of_mem_toDigits {n : Nat} : ∀ c ∈ Nat.toDigits 10 n, c.isDigit = true :=
  fun _ hc => Nat.isDigit_of_mem_toDigits (by decide) (by decide) hc

/-- A number has a first digit. -/
theorem exists_toDigits_eq_cons (n : Nat) :
    ∃ first others, Nat.toDigits 10 n = first :: others ∧ first.isDigit = true := by
  obtain ⟨first, others, hdigits⟩ := List.exists_cons_of_ne_nil (Nat.toDigits_ne_nil (n := n))
  exact ⟨first, others, hdigits,
    isDigit_of_mem_toDigits (n := n) first (hdigits ▸ List.mem_cons_self)⟩

/-- Digits begin with no other character. -/
theorem toDigits_append_ne_cons {n : Nat} {c : Char} {rest more : List Char}
    (h : c.isDigit = false) : Nat.toDigits 10 n ++ rest ≠ c :: more := by
  obtain ⟨first, others, hdigits, hfirst⟩ := exists_toDigits_eq_cons n
  rw [hdigits]
  rintro ⟨⟩
  rw [h] at hfirst
  cases hfirst

/-- Only the digits of zero begin with a zero. -/
theorem head?_toDigits_eq_zero_iff (n : Nat) :
    (Nat.toDigits 10 n).head? = some '0' ↔ n = 0 := by
  induction n using Nat.strongRecOn with
  | ind n ih =>
      by_cases hsmall : n < 10
      · rw [Nat.toDigits_of_lt_base hsmall]
        clear ih
        revert n
        decide
      · rw [Nat.toDigits_of_base_le (by decide) (by omega)]
        have hne : Nat.toDigits 10 (n / 10) ≠ [] := Nat.toDigits_ne_nil
        obtain ⟨first, others, hdigits⟩ := List.exists_cons_of_ne_nil hne
        have hfirst := ih (n / 10) (by omega)
        rw [hdigits] at hfirst ⊢
        exact hfirst.trans (by omega)

/-! ### Hexadecimal digits -/

/-- The digits of an escape: four of them, with zeros in front. -/
def fourDigits (digits : List Char) : List Char :=
  List.replicate (4 - digits.length) '0' ++ digits

/-- The digits of the escapes that are written denote their characters, in both letter cases. -/
theorem natOfHex?_fourDigits :
    ∀ n < 128,
      ((fourDigits (Nat.toDigits 16 n)).length = 4 ∧
        natOfHex? (fourDigits (Nat.toDigits 16 n)) = some n) ∧
      (fourDigits ((Nat.toDigits 16 n).map Char.toUpper)).length = 4 ∧
        natOfHex? (fourDigits ((Nat.toDigits 16 n).map Char.toUpper)) = some n := by
  decide +kernel

/-- Four digits, one by one. -/
theorem exists_of_length_eq_four {digits : List Char} (h : digits.length = 4) :
    ∃ a b c d, digits = [a, b, c, d] := by
  match digits, h with
  | [a, b, c, d], _ => exact ⟨a, b, c, d, rfl⟩

end Dashboard
