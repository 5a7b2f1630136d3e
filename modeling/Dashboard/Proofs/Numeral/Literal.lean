import Dashboard.Proofs.Document.Digits
import Dashboard.Proofs.Double.Scientific
import Mathlib.Tactic.IntervalCases

/-!
# The Grammar of Decimal Literals

A decimal literal is a sign or none, digits with a point among or around them or none, at least
one digit, and an exponent or none. The grammar is stated here as relations between a text and
what it spells; the reader takes exactly the texts of the grammar and finds what they spell.

## Main results

* `spells_ten_iff` — a text spells a decimal number if it has only digits, and which one.
* `takeExponent?_eq_some_iff` — the reader of exponents takes exactly the exponents.
* `literal?_eq_some_iff` — the reader of literals takes exactly the literals.
* `Literal.exists_nearest_toDouble` — a literal is read to the nearest double.
-/

namespace Dashboard.Decimal

/-! ### The grammar -/

/-- A character is the digit with a value, in small or in capital letters. -/
def IsDigitOf (base d : ℕ) (c : Char) : Prop :=
  d < base ∧
    ("0123456789abcdef".toList[d]? = some c ∨ "0123456789ABCDEF".toList[d]? = some c)

instance (base d : ℕ) (c : Char) : Decidable (IsDigitOf base d c) :=
  inferInstanceAs (Decidable (_ ∧ _))

/-- The number that digits spell. -/
inductive Spells (base : ℕ) : List Char → ℕ → Prop
  | nil : Spells base [] 0
  | snoc {text : List Char} {n d : ℕ} {c : Char} :
      Spells base text n → IsDigitOf base d c → Spells base (text ++ [c]) (base * n + d)

/-- A sign or none, and whether it is a minus. -/
inductive Sign : List Char → Bool → Prop
  | none : Sign [] false
  | plus : Sign ['+'] false
  | minus : Sign ['-'] true

/-- A point with what is behind it, or nothing. -/
inductive Pointed : List Char → List Char → Prop
  | none : Pointed [] []
  | point (fraction : List Char) : Pointed ('.' :: fraction) fraction

/-- The power of ten that the end of a literal asks for. -/
inductive Exponent : List Char → ℤ → Prop
  | none : Exponent [] 0
  | power {letter : Char} {sign digits : List Char} {negative : Bool} {n : ℕ} :
      letter = 'e' ∨ letter = 'E' → Sign sign negative → digits ≠ [] → Spells 10 digits n →
        Exponent (letter :: (sign ++ digits)) (if negative then -n else n)

/-- What a text spells as a decimal literal. -/
inductive SpellsLiteral : List Char → Literal → Prop
  | literal {sign whole pointed fraction ending : List Char} {negative : Bool} {n : ℕ} {e : ℤ} :
      Sign sign negative → Pointed pointed fraction → whole ++ fraction ≠ [] →
        Spells 10 (whole ++ fraction) n → Exponent ending e →
          SpellsLiteral (sign ++ (whole ++ (pointed ++ ending))) ⟨negative, n, e - fraction.length⟩

/-! ### Digits -/

variable {base d n : ℕ} {c : Char} {text rest : List Char} {negative : Bool} {e : ℤ}

/-- A range of characters is known from their distances to its first one. -/
theorem of_mem_range {P : ℕ → Char → Prop} {low high : Char} (hlow : low ≤ c) (hhigh : c ≤ high)
    (h : ∀ k ≤ high.toNat - low.toNat, P k (Char.ofNat (low.toNat + k))) :
    P (c.toNat - low.toNat) c := by
  have hle : low.toNat ≤ c.toNat := hlow
  have hge : c.toNat ≤ high.toNat := hhigh
  have hc := h (c.toNat - low.toNat) (by omega)
  rwa [Nat.add_sub_cancel' hle, Char.ofNat_toNat] at hc

/-- A decimal digit has the value of its place behind zero. -/
theorem isDigitOf_ten_iff : IsDigitOf 10 d c ↔ Text.isDigit c = true ∧ d = c.toNat - '0'.toNat := by
  constructor
  · rintro ⟨hd, h | h⟩
    all_goals
      interval_cases d
      all_goals
        cases h
        decide
  · rintro ⟨hdigit, rfl⟩
    obtain ⟨hlow, hhigh⟩ : '0'.val ≤ c.val ∧ c.val ≤ '9'.val := by
      simpa only [Text.isDigit, Char.isDigit, Bool.and_eq_true, decide_eq_true_eq] using hdigit
    exact of_mem_range hlow hhigh (by decide)

/-- No digits spell zero. -/
theorem spells_nil_iff : Spells base [] n ↔ n = 0 := by
  constructor
  · intro h
    generalize hnil : ([] : List Char) = text at h
    cases h with
    | nil => rfl
    | snoc => simp at hnil
  · rintro rfl
    exact .nil

/-- One more digit adds its value to what the others spell, times the base. -/
theorem spells_snoc_iff :
    Spells base (text ++ [c]) n ↔
      ∃ k d, Spells base text k ∧ IsDigitOf base d c ∧ n = base * k + d := by
  constructor
  · intro h
    generalize hsnoc : text ++ [c] = run at h
    cases h with
    | nil => simp at hsnoc
    | snoc hrun hdigit =>
        obtain ⟨rfl, hc⟩ := List.append_inj' hsnoc rfl
        cases hc
        exact ⟨_, _, hrun, hdigit, rfl⟩
  · rintro ⟨k, d, hrun, hdigit, rfl⟩
    exact .snoc hrun hdigit

/-- One more digit adds its value to ten times what the others denote. -/
theorem natOfDigits_snoc :
    natOfDigits (text ++ [c]) = 10 * natOfDigits text + (c.toNat - '0'.toNat) := by
  rw [natOfDigits, List.foldl_append]
  rfl

/-- Digits behind digits count for the lower powers of ten. -/
theorem natOfDigits_append (text run : List Char) :
    natOfDigits (text ++ run) =
      10 ^ run.length * natOfDigits text + natOfDigits run := by
  simp only [natOfDigits, ← Nat.ofDigitChars_eq_foldl]
  rw [Nat.ofDigitChars_append, Nat.ofDigitChars_eq_ofDigitChars_zero]

/-- Zeros denote zero. -/
theorem natOfDigits_replicate_zero (n : ℕ) :
    natOfDigits (List.replicate n '0') = 0 := by
  rw [natOfDigits, ← Nat.ofDigitChars_eq_foldl, Nat.ofDigitChars_replicate_zero,
    Nat.mul_zero]

/-- Zeros in front of digits do not count. -/
theorem natOfDigits_replicate_zero_append (n : ℕ) (text : List Char) :
    natOfDigits (List.replicate n '0' ++ text) = natOfDigits text := by
  rw [natOfDigits_append, natOfDigits_replicate_zero, Nat.mul_zero, Nat.zero_add]

/-- Digits denote a number with no more digits. -/
theorem natOfDigits_lt {run : List Char} (h : ∀ c ∈ run, c.isDigit = true) :
    natOfDigits run < 10 ^ run.length := by
  induction run with
  | nil => decide
  | cons c run ih =>
      obtain ⟨hc, hrun⟩ := List.forall_mem_cons.mp h
      have hdigit : '0'.val ≤ c.val ∧ c.val ≤ '9'.val := by
        simpa only [Char.isDigit, Bool.and_eq_true, decide_eq_true_eq] using hc
      have hhigh : c.toNat ≤ 57 := hdigit.2
      have hfirst : natOfDigits [c] = c.toNat - 48 := by
        simp [natOfDigits]
      have hle : 10 ^ run.length * (c.toNat - 48) ≤ 10 ^ run.length * 9 :=
        Nat.mul_le_mul_left _ (by omega)
      have hsplit := natOfDigits_append [c] run
      rw [List.singleton_append, hfirst] at hsplit
      rw [hsplit, List.length_cons, Nat.pow_succ]
      have := ih hrun
      omega

/-- **A text spells a decimal number if it has only digits.** -/
theorem spells_ten_iff :
    Spells 10 text n ↔ (∀ c ∈ text, Text.isDigit c = true) ∧ n = natOfDigits text := by
  induction text using List.reverseRecOn generalizing n with
  | nil =>
      rw [spells_nil_iff]
      simp [natOfDigits]
  | append_singleton text c ih =>
      simp only [spells_snoc_iff, ih, isDigitOf_ten_iff, natOfDigits_snoc, List.forall_mem_append,
        List.forall_mem_singleton]
      constructor
      · rintro ⟨_, _, ⟨hrun, rfl⟩, ⟨hc, rfl⟩, rfl⟩
        exact ⟨⟨hrun, hc⟩, rfl⟩
      · rintro ⟨⟨hrun, hc⟩, rfl⟩
        exact ⟨_, _, ⟨hrun, rfl⟩, ⟨hc, rfl⟩, rfl⟩

/-! ### Signs -/

/-- A sign may begin with the character. -/
def isSign (c : Char) : Bool :=
  c == '+' || c == '-'

/-- A digit is no sign. -/
theorem isSign_eq_false_of_isDigit (h : Text.isDigit c = true) : isSign c = false := by
  rw [isSign, Bool.or_eq_false_iff]
  constructor
  all_goals
    refine beq_false_of_ne ?_
    rintro rfl
    exact absurd h (by decide)

/-- The sign that is taken off a text is a sign, or there is none. -/
theorem exists_sign (text : List Char) :
    ∃ sign, Sign sign (takeSign text).1 ∧ text = sign ++ (takeSign text).2 := by
  rw [takeSign.eq_def]
  split
  · exact ⟨_, .minus, rfl⟩
  · exact ⟨_, .plus, rfl⟩
  · exact ⟨_, .none, rfl⟩

/-- A sign is taken off a text that does not go on with another one. -/
theorem takeSign_append {sign : List Char} (h : Sign sign negative)
    (hrest : Text.Stops isSign rest) : takeSign (sign ++ rest) = (negative, rest) := by
  cases h with
  | none =>
      cases rest with
      | nil => rfl
      | cons c more =>
          have hc := hrest c rfl
          simp only [isSign, Bool.or_eq_false_iff, beq_eq_false_iff_ne] at hc
          simp [takeSign.eq_def, hc]
  | plus => rfl
  | minus => rfl

/-- Digits do not begin with a sign. -/
theorem stops_isSign_of_digits {run : List Char} (hne : run ≠ [])
    (hrun : ∀ c ∈ run, Text.isDigit c = true) : Text.Stops isSign (run ++ rest) := by
  obtain ⟨c, more, rfl⟩ := List.exists_cons_of_ne_nil hne
  exact Text.stops_cons (isSign_eq_false_of_isDigit (hrun c List.mem_cons_self))

/-! ### Exponents -/

/-- **The reader of exponents takes exactly the exponents.** -/
theorem takeExponent?_eq_some_iff : takeExponent? text = some e ↔ Exponent text e := by
  constructor
  · intro h
    cases text with
    | nil =>
        cases h
        exact .none
    | cons letter rest =>
        rw [takeExponent?] at h
        split at h
        · next hletter =>
          obtain ⟨sign, hsign, hrest⟩ := exists_sign rest
          generalize takeSign rest = taken at h hsign hrest
          obtain ⟨negative, digits⟩ := taken
          simp only at h
          split at h
          · cases h
          · next hdigits =>
            simp only [Bool.or_eq_true, List.isEmpty_iff, Bool.not_eq_true', not_or,
              Bool.not_eq_false, List.all_eq_true] at hdigits
            cases h
            rw [hrest]
            exact .power hletter hsign hdigits.1 (spells_ten_iff.mpr ⟨hdigits.2, rfl⟩)
        · cases h
  · intro h
    cases h with
    | none => rfl
    | @power letter sign digits negative n hletter hsign hne hspells =>
        obtain ⟨hdigits, rfl⟩ := spells_ten_iff.mp hspells
        have hstops : Text.Stops isSign (digits ++ []) := stops_isSign_of_digits hne hdigits
        rw [List.append_nil] at hstops
        have hall : digits.all Text.isDigit = true := List.all_eq_true.mpr hdigits
        rw [takeExponent?, if_pos hletter, takeSign_append hsign hstops]
        simp [hne, hall]

/-- An exponent is nothing, or it begins with its letter. -/
theorem Exponent.eq_nil_or (h : Exponent text e) :
    text = [] ∨ ∃ letter rest, text = letter :: rest ∧ (letter = 'e' ∨ letter = 'E') := by
  cases h with
  | none => exact .inl rfl
  | power hletter => exact .inr ⟨_, _, rfl, hletter⟩

/-- Digits stop in front of an exponent. -/
theorem Exponent.stops_isDigit (h : Exponent text e) : Text.Stops Text.isDigit text := by
  rcases h.eq_nil_or with rfl | ⟨letter, rest, rfl, rfl | rfl⟩
  · rintro _ ⟨⟩
  all_goals exact Text.stops_cons (by decide)

/-! ### Literals -/

/-- The digits around a point, and what is behind them. -/
theorem takeDigits_spec (text : List Char) :
    ∃ pointed, Pointed pointed (takeDigits text).2.1 ∧
      text = (takeDigits text).1 ++ (pointed ++ (takeDigits text).2.2) ∧
      ∀ c ∈ (takeDigits text).1 ++ (takeDigits text).2.1, Text.isDigit c = true := by
  have hwhole := List.takeWhile_append_dropWhile (p := Text.isDigit) (l := text)
  have hdigits : ∀ c ∈ text.takeWhile Text.isDigit, Text.isDigit c = true :=
    fun c hc => List.mem_takeWhile_imp hc
  simp only [takeDigits]
  split
  · next rest hpoint =>
    refine ⟨_, .point _, ?_, ?_⟩
    · rw [List.cons_append, List.takeWhile_append_dropWhile, ← hpoint, hwhole]
    · exact List.forall_mem_append.mpr ⟨hdigits, fun c hc => List.mem_takeWhile_imp hc⟩
  · refine ⟨_, .none, hwhole.symm, ?_⟩
    rw [List.append_nil]
    exact hdigits

/-- The digits of a literal are taken up to its exponent. -/
theorem takeDigits_append {whole pointed fraction ending : List Char}
    (hp : Pointed pointed fraction) (hdigits : ∀ c ∈ whole ++ fraction, Text.isDigit c = true)
    (he : Exponent ending e) : takeDigits (whole ++ (pointed ++ ending)) = (whole, fraction, ending) := by
  obtain ⟨hwhole, hfraction⟩ := List.forall_mem_append.mp hdigits
  cases hp with
  | none =>
      have hstops := he.stops_isDigit
      rw [List.nil_append, takeDigits, Text.takeWhile_of_stops hwhole hstops,
        Text.dropWhile_of_stops hwhole hstops]
      rcases he.eq_nil_or with rfl | ⟨letter, rest, rfl, rfl | rfl⟩
      all_goals rfl
  | point =>
      have hstops : Text.Stops Text.isDigit ('.' :: (fraction ++ ending)) :=
        Text.stops_cons (by decide)
      rw [List.cons_append, takeDigits, Text.takeWhile_of_stops hwhole hstops,
        Text.dropWhile_of_stops hwhole hstops]
      simp only [Text.takeWhile_of_stops hfraction he.stops_isDigit,
        Text.dropWhile_of_stops hfraction he.stops_isDigit]

/-- The digits of a literal do not begin with a sign. -/
theorem stops_isSign_of_literal {whole pointed fraction : List Char} (hp : Pointed pointed fraction)
    (hne : whole ++ fraction ≠ []) (hdigits : ∀ c ∈ whole ++ fraction, Text.isDigit c = true) :
    Text.Stops isSign (whole ++ (pointed ++ rest)) := by
  rcases eq_or_ne whole [] with rfl | hwhole
  · cases hp with
    | none => simp at hne
    | point => exact Text.stops_cons (by decide)
  · exact stops_isSign_of_digits hwhole (List.forall_mem_append.mp hdigits).1

/-- **The reader of literals takes exactly the literals.** -/
theorem literal?_eq_some_iff {l : Literal} : literal? text = some l ↔ SpellsLiteral text l := by
  constructor
  · intro h
    obtain ⟨sign, hsign, htext⟩ := exists_sign text
    rw [literal?] at h
    generalize takeSign text = taken at h hsign htext
    obtain ⟨negative, unsigned⟩ := taken
    obtain ⟨pointed, hpointed, hunsigned, hdigits⟩ := takeDigits_spec unsigned
    simp only at h
    generalize takeDigits unsigned = parts at h hpointed hunsigned hdigits
    obtain ⟨whole, fraction, ending⟩ := parts
    simp only [Bool.and_eq_true, List.isEmpty_iff, ite_eq_iff, reduceCtorEq, and_false, false_or,
      Option.map_eq_some_iff] at h
    obtain ⟨hne, e, he, rfl⟩ := h
    rw [htext, hunsigned]
    refine .literal hsign hpointed ?_ (spells_ten_iff.mpr ⟨hdigits, rfl⟩)
      (takeExponent?_eq_some_iff.mp he)
    rwa [ne_eq, List.append_eq_nil_iff]
  · intro h
    cases h with
    | @literal sign whole pointed fraction ending negative n e hsign hp hne hspells he =>
        obtain ⟨hdigits, rfl⟩ := spells_ten_iff.mp hspells
        have hempty : ¬ (whole.isEmpty && fraction.isEmpty) = true := by
          rwa [Bool.and_eq_true, List.isEmpty_iff, List.isEmpty_iff, ← List.append_eq_nil_iff]
        rw [literal?, takeSign_append hsign (stops_isSign_of_literal hp hne hdigits)]
        simp only [takeDigits_append hp hdigits he, if_neg hempty, takeExponent?_eq_some_iff.mpr he]
        rfl

/-! ### Values -/

/-- The number that a literal stands for, without its sign. -/
def Literal.magnitude (l : Literal) : ℚ :=
  l.digits * 10 ^ l.exponent

/-- The size of a literal is not negative. -/
theorem Literal.magnitude_nonneg (l : Literal) : 0 ≤ l.magnitude := by
  rw [Literal.magnitude]
  positivity

/-- **A literal is read to the nearest double**, with its sign. -/
theorem Literal.exists_nearest_toDouble (l : Literal) :
    ∃ x, Double.Nearest l.magnitude x ∧ l.toDouble = if l.negative then -x else x := by
  refine ⟨_, ?_, rfl⟩
  have h := Double.nearest_ofScientific l.digits (l.exponent < 0) l.exponent.natAbs
  have hexponent : (if decide (l.exponent < 0) then -(l.exponent.natAbs : ℤ)
      else l.exponent.natAbs) = l.exponent := by
    simp only [decide_eq_true_eq]
    split <;> omega
  rwa [hexponent] at h

end Dashboard.Decimal
