import Dashboard.Document.Json.Reader
import Dashboard.Document.Json.Writer
import Dashboard.Proofs.Numeral.Literal

/-!
# What Is Written as JSON Is Read Back

A form is read as a document if the reader leaves what stands behind the form, as long as the
next character cannot belong to a number. So the documents inside a document are read back one
by one: a list is read as it was if its items are, with commas between them and blanks around
them, and so is a table. It makes no difference whether the form has line breaks in it.

The reader has fuel for each of its calls. The length of what was written is enough, as there
is a character for each of them.

A document in its pretty form is read back as it was, as long as it has no fractions and no
broken parts and its numbers have 64 bits.

## Main results

* `textBody_escape` — a text is read back up to its closing quote.
* `numberBody?_literal` — the reader of numbers takes a number up to its end.
* `value_integer` — the digits of a number are read as a value.
* `readsAs_list`, `readsAs_table` — a list or a table is read back if its parts are.
* `Plain.readsAs_prettyAt` — a document is read as its pretty form says, on every level.
* `read?_pretty` — what is written is read back.
-/

namespace Dashboard.Json

open Decimal (Exponent Pointed)
open Text (Stops)

/-! ### Blanks -/

/-- Nothing is skipped in front of a visible character. -/
theorem skipBlanks_cons {c : Char} {text : List Char} (h : isBlank c = false) :
    skipBlanks (c :: text) = c :: text := by
  rw [skipBlanks, List.dropWhile_cons, h, if_neg Bool.false_ne_true]

/-- A text of blanks. -/
def Blank (s : String) : Prop :=
  ∀ c ∈ s.toList, isBlank c = true

/-- The empty text is blank. -/
theorem blank_empty : Blank "" :=
  nofun

/-- A space is blank. -/
theorem blank_space : Blank " " := by
  rintro c hc
  obtain rfl : c = ' ' := by simpa using hc
  rfl

/-- A line break and an indentation are blank. -/
theorem blank_newline (level : Nat) : Blank (newline level) := by
  intro c hc
  simp only [newline, String.toList_append, List.mem_append, String.toList_ofList,
    List.mem_replicate] at hc
  rcases hc with hc | ⟨-, rfl⟩
  · obtain rfl : c = '\n' := by simpa using hc
    rfl
  · rfl

/-- Blanks in front of a text are skipped with those that it begins with. -/
theorem skipBlanks_append {lead : String} (h : Blank lead) (text : List Char) :
    skipBlanks (lead.toList ++ text) = skipBlanks text := by
  rw [skipBlanks, List.dropWhile_append_of_pos h, skipBlanks]

/-- Blanks in front of a value make no difference. -/
theorem value_of_skipBlanks {text text' : List Char} (h : skipBlanks text = skipBlanks text')
    (fuel : Nat) : value fuel text = value fuel text' := by
  cases fuel with
  | zero => rfl
  | succ fuel => rw [value, value, h]

/-! ### Texts -/

/-- A character and what follows it. -/
def withChar (c : Char) (read : List Piece × List Char) : List Piece × List Char :=
  (.char c :: read.1, read.2)

/-- An escape of one letter is read as the character that it stands for. -/
theorem textBody_letter {letter c : Char} (h : unescape? letter = some c) (rest : List Char) :
    textBody ('\\' :: letter :: rest) = (textBody rest).map (withChar c) := by
  rw [textBody, h]
  · cases textBody rest <;> rfl
  · rintro a b x d more rfl
    cases h

/-- Four hexadecimal digits of a small number are read as the character with that number. -/
theorem textBody_code {digits : List Char} {c : Char} (hlength : digits.length = 4)
    (hcode : natOfHex? digits = some c.toNat) (hcontrol : c.toNat < 128) (rest : List Char) :
    textBody ('\\' :: 'u' :: (digits ++ rest)) = (textBody rest).map (withChar c) := by
  obtain ⟨a, b, x, d, rfl⟩ := exists_of_length_eq_four hlength
  have hpiece : Piece.ofCode c.toNat = .char c := by
    rw [Piece.ofCode, if_neg (by omega), Char.ofNat_toNat]
  show textBody ('\\' :: 'u' :: a :: b :: x :: d :: rest) = _
  rw [textBody, hexCode?, hcode]
  cases textBody rest with
  | none => rfl
  | some read => exact congrArg (fun piece => some (piece :: read.1, read.2)) hpiece

/-- A character that needs no escape is read as itself. -/
theorem textBody_plain {c : Char} (hquote : c ≠ '"') (hbackslash : c ≠ '\\')
    (hvisible : ¬ c.toNat < 0x20) (rest : List Char) :
    textBody (c :: rest) = (textBody rest).map (withChar c) := by
  rw [textBody, if_neg hvisible]
  · cases textBody rest <;> rfl
  · exact hquote
  · rintro a b x d more rfl
    exact absurd rfl hbackslash
  · rintro a more rfl
    exact absurd rfl hbackslash

/-- A character is read back from its form. -/
theorem textBody_escapeChar (c : Char) (rest : List Char) :
    textBody (escapeChar c ++ rest) = (textBody rest).map (withChar c) := by
  unfold escapeChar
  split
  · exact textBody_letter rfl rest
  · exact textBody_letter rfl rest
  · exact textBody_letter rfl rest
  · exact textBody_letter rfl rest
  · exact textBody_letter rfl rest
  · exact textBody_letter rfl rest
  · exact textBody_letter rfl rest
  · next hquote hbackslash _ _ _ _ _ =>
    split
    · next hcontrol =>
      obtain ⟨⟨hlength, hcode⟩, -⟩ := natOfHex?_fourDigits c.toNat (by omega)
      exact textBody_code hlength hcode (by omega) rest
    · next hvisible => exact textBody_plain hquote hbackslash hvisible rest

/-- **A text is read back up to its closing quote.** -/
theorem textBody_escape (chars rest : List Char) :
    textBody (chars.flatMap escapeChar ++ '"' :: rest) = some (chars.map .char, rest) := by
  induction chars with
  | nil => rfl
  | cons c others ih =>
      rw [List.flatMap_cons, List.append_assoc, textBody_escapeChar, ih]
      rfl

/-- The characters of a text between quotes, and what follows them. -/
theorem toList_quoted_append (s : String) (rest : List Char) :
    (quoted s).toList ++ rest = '"' :: (s.toList.flatMap escapeChar ++ '"' :: rest) := by
  simp [quoted]

/-! ### Numbers -/

/-- A text does not go on with what could belong to a number. -/
def EndsNumber (rest : List Char) : Prop :=
  ∀ c ∈ rest.head?, c.isDigit = false ∧ c ≠ '.' ∧ c ≠ 'e' ∧ c ≠ 'E'

/-- The end of a text ends a number. -/
theorem endsNumber_nil : EndsNumber [] :=
  nofun

/-- A character that cannot belong to a number ends it. -/
theorem endsNumber_cons {c : Char} (h : c.isDigit = false ∧ c ≠ '.' ∧ c ≠ 'e' ∧ c ≠ 'E')
    (rest : List Char) : EndsNumber (c :: rest) := by
  rintro _ ⟨⟩
  exact h

/-- A number ends where blanks are, or at what is behind them. -/
theorem EndsNumber.blank {lead : String} {rest : List Char} (hlead : Blank lead)
    (h : EndsNumber rest) : EndsNumber (lead.toList ++ rest) := by
  intro c hc
  cases hchars : lead.toList with
  | nil =>
      rw [hchars] at hc
      exact h c hc
  | cons d more =>
      rw [hchars] at hc
      cases hc
      have hblank := hlead c (hchars ▸ List.mem_cons_self)
      simp only [isBlank, Bool.or_eq_true, beq_iff_eq] at hblank
      rcases hblank with ((rfl | rfl) | rfl) | rfl <;> decide

/-- Digits stop where a number ends. -/
theorem EndsNumber.stops {rest : List Char} (h : EndsNumber rest) : Stops Char.isDigit rest :=
  fun c hc => (h c hc).1

/-- A digit is no character that is none. -/
theorem ne_of_isDigit {c d : Char} (h : c.isDigit = true) (hd : d.isDigit = false) : c ≠ d := by
  rintro rfl
  exact Bool.false_ne_true (hd.symm.trans h)

section Body

variable {sign whole pointed fraction ending rest : List Char} {e : ℤ}

/-- Digits end where an exponent begins, or at the end of the number. -/
theorem stops_exponent (he : Exponent ending e) (hrest : EndsNumber rest) :
    Stops Char.isDigit (ending ++ rest) := by
  cases he with
  | none => exact hrest.stops
  | power hletter =>
      rcases hletter with rfl | rfl
      all_goals exact Text.stops_cons (by decide)

/-- **The reader of numbers takes a number up to its end.** A number has a whole part without
leading zeros, and a digit behind its point if it has one. -/
theorem numberBody?_literal (hsign : sign = [] ∨ sign = ['-']) (hne : whole ≠ [])
    (hzero : whole.head? = some '0' → whole.length = 1) (hp : Pointed pointed fraction)
    (hpoint : pointed = [] ∨ fraction ≠ [])
    (hdigits : ∀ c ∈ whole ++ fraction, c.isDigit = true) (he : Exponent ending e)
    (hrest : EndsNumber rest) :
    numberBody? (sign ++ (whole ++ (pointed ++ (ending ++ rest)))) =
      some (sign ++ (whole ++ (pointed ++ ending)), rest) := by
  obtain ⟨hwhole, hfraction⟩ := List.forall_mem_append.mp hdigits
  have hstart : (whole.isEmpty || (whole.head? == some '0' && whole.length != 1)) = false := by
    simpa [hne] using hzero
  have hending := stops_exponent he hrest
  have hstops : Stops Char.isDigit (pointed ++ (ending ++ rest)) := by
    cases hp with
    | none => exact hending
    | point => exact Text.stops_cons (by decide)
  have hhead : (whole ++ (pointed ++ (ending ++ rest))).head? ≠ some '-' := by
    obtain ⟨c, more, rfl⟩ := List.exists_cons_of_ne_nil hne
    have hc : c ≠ '-' := ne_of_isDigit (hwhole c List.mem_cons_self) (by decide)
    simpa using hc
  unfold numberBody?
  split
  next sign' unsigned hsplit =>
  obtain ⟨rfl, rfl⟩ : sign' = sign ∧ unsigned = whole ++ (pointed ++ (ending ++ rest)) := by
    rcases hsign with rfl | rfl
    · split at hsplit
      · next hminus => exact absurd (congrArg List.head? hminus) hhead
      · simpa [eq_comm] using hsplit
    · simpa [eq_comm] using hsplit
  dsimp only
  rw [Text.takeWhile_of_stops hwhole hstops, Text.dropWhile_of_stops hwhole hstops, hstart,
    if_neg Bool.false_ne_true]
  have htake := Text.takeWhile_of_stops hfraction hending
  have hdrop := Text.dropWhile_of_stops hfraction hending
  cases he with
  | none =>
      cases hp with
      | none =>
          cases rest with
          | nil => simp [pure]
          | cons c more =>
              obtain ⟨-, hc, hlower, hupper⟩ := hrest c rfl
              simp [hc, hlower, hupper, pure, bind]
      | point =>
          have hne' : fraction ≠ [] := hpoint.resolve_left (List.cons_ne_nil _ _)
          rw [List.nil_append] at htake hdrop
          simp only [List.nil_append, List.cons_append, htake, hdrop, List.isEmpty_iff, hne',
            if_false]
          cases rest with
          | nil => simp [pure, bind]
          | cons c more =>
              obtain ⟨-, -, hlower, hupper⟩ := hrest c rfl
              simp [hlower, hupper, pure, bind]
  | @power letter mark digits negative n hletter hmark hnonempty hspells =>
      have hpower : ∀ c ∈ digits, c.isDigit = true := (Decimal.spells_ten_iff.mp hspells).1
      have htake' := Text.takeWhile_of_stops hpower hrest.stops
      have hdrop' := Text.dropWhile_of_stops hpower hrest.stops
      obtain ⟨d, others, rfl⟩ := List.exists_cons_of_ne_nil hnonempty
      have hd : d.isDigit = true := hpower d List.mem_cons_self
      have hplus : d ≠ '+' := ne_of_isDigit hd (by decide)
      have hminus : d ≠ '-' := ne_of_isDigit hd (by decide)
      rw [List.cons_append] at htake' hdrop'
      cases hp with
      | none =>
          have hc : letter ≠ '.' := by
            rintro rfl
            exact absurd hletter (by decide)
          cases hmark
          all_goals simp [hletter, hc, hd, hplus, hminus, htake', hdrop', pure, bind]
      | point =>
          have hne' : fraction ≠ [] := hpoint.resolve_left (List.cons_ne_nil _ _)
          rw [List.cons_append] at htake hdrop
          simp only [List.cons_append, htake, hdrop, List.isEmpty_iff, hne', if_false]
          cases hmark
          all_goals simp [hletter, hd, hplus, hminus, htake', hdrop', pure, bind]

/-- The digits of a number are taken off a text. -/
theorem numberBody?_toDigits (n : Nat) (hrest : EndsNumber rest) :
    numberBody? (Nat.toDigits 10 n ++ rest) = some (Nat.toDigits 10 n, rest) := by
  have hzero : (Nat.toDigits 10 n).head? = some '0' → (Nat.toDigits 10 n).length = 1 := by
    rw [head?_toDigits_eq_zero_iff]
    rintro rfl
    rfl
  have hbody := numberBody?_literal (.inl rfl) Nat.toDigits_ne_nil hzero .none (.inl rfl)
    (by simpa using isDigit_of_mem_toDigits (n := n)) .none hrest
  simpa only [List.nil_append, List.append_nil] using hbody

end Body

/-- The digits of a whole number of 64 bits denote it. -/
theorem number?_toDigits {n : Nat} (h : n < UInt64.size) :
    number? (Nat.toDigits 10 n) = some (.integer n) := by
  have hdigits : (Nat.toDigits 10 n).all Char.isDigit = true :=
    List.all_eq_true.mpr isDigit_of_mem_toDigits
  have hne : ∀ {c : Char} {more : List Char}, c.isDigit = false →
      Nat.toDigits 10 n ≠ c :: more := by
    intro c more hc
    rw [← List.append_nil (Nat.toDigits 10 n)]
    exact toDigits_append_ne_cons hc
  have hsign : Decimal.takeSign (Nat.toDigits 10 n) = (false, Nat.toDigits 10 n) := by
    unfold Decimal.takeSign
    split
    · next more hminus => exact absurd hminus (hne rfl)
    · next more hplus => exact absurd hplus (hne rfl)
    · rfl
  unfold number?
  rw [hsign]
  dsimp only
  rw [hdigits, if_pos rfl, if_neg Bool.false_ne_true, Decimal.natOfDigits_toDigits, if_pos h]

/-- A digit is not blank. -/
theorem isBlank_of_isDigit {c : Char} (h : c.isDigit = true) : isBlank c = false := by
  refine Bool.eq_false_iff.mpr fun hblank => ?_
  simp only [isBlank, Bool.or_eq_true, beq_iff_eq] at hblank
  rcases hblank with ((rfl | rfl) | rfl) | rfl <;> cases h

/-- The digits of a number are not blank. -/
theorem skipBlanks_toDigits (n : Nat) (rest : List Char) :
    skipBlanks (Nat.toDigits 10 n ++ rest) = Nat.toDigits 10 n ++ rest := by
  obtain ⟨c, others, hdigits, hdigit⟩ := exists_toDigits_eq_cons n
  rw [hdigits, List.cons_append, skipBlanks_cons (isBlank_of_isDigit hdigit)]

/-! ### Values -/

/-- Documents that are read back: those without fractions and broken parts whose numbers have
64 bits. -/
inductive Plain : Document → Prop
  | null : Plain .null
  | boolean (b : Bool) : Plain (.boolean b)
  | integer {n : Nat} : n < UInt64.size → Plain (.integer n)
  | text (s : String) : Plain (.text s)
  | list {items : List Document} : (∀ d ∈ items, Plain d) → Plain (.list items)
  | table {fields : List (String × Document)} :
      (∀ field ∈ fields, Plain field.2) → Plain (.table fields)

/-- The empty table is plain. -/
theorem Plain.nil : Plain (.table []) :=
  .table fun _ hfield => absurd hfield List.not_mem_nil

/-- A table is plain if its first field and the table of the others are. -/
theorem Plain.cons {name : String} {d : Document} {fields : List (String × Document)}
    (hd : Plain d) (h : Plain (.table fields)) : Plain (.table ((name, d) :: fields)) := by
  cases h with
  | table h => exact .table (List.forall_mem_cons.mpr ⟨hd, h⟩)

/-- **The digits of a number are read as a value**, as no other kind of value begins with a digit.
-/
theorem value_integer {n : Nat} (h : n < UInt64.size) (fuel : Nat) {rest : List Char}
    (hrest : EndsNumber rest) :
    value (fuel + 1) (Nat.toDigits 10 n ++ rest) = some (.integer n, rest) := by
  have hne : ∀ {c : Char} {more : List Char}, c.isDigit = false →
      skipBlanks (Nat.toDigits 10 n ++ rest) ≠ c :: more := by
    intro c more hc
    rw [skipBlanks_toDigits]
    exact toDigits_append_ne_cons hc
  rw [value]
  split
  all_goals try exact absurd ‹_› (hne rfl)
  rw [skipBlanks_toDigits, numberBody?_toDigits n hrest]
  simp [number?_toDigits h]

/-- A text between quotes is read as a value. -/
theorem value_quoted (s : String) (fuel : Nat) (rest : List Char) :
    value (fuel + 1) ((quoted s).toList ++ rest) = some (.text s, rest) := by
  rw [toList_quoted_append, value, skipBlanks_cons rfl]
  simp [textBody_escape, textOf, text?, joined?_chars]

/-- A whole number is written with its digits. -/
theorem toList_prettyAt_integer (level n : Nat) :
    (prettyAt level (.integer n)).toList = Nat.toDigits 10 n := by
  show (toString n).toList = _
  rw [Nat.toString_eq_ofList_toDigits, String.toList_ofList]

/-! ### Forms -/

/-- A document is **read as** a form says, wherever the form ends. The reader needs no more fuel
than the form has characters. The form does not close a list that it stands in. -/
structure ReadsAs (form : String) (d : Document) : Prop where
  begins : ∃ c more, skipBlanks form.toList = c :: more ∧ c ≠ ']'
  reads : ∀ (fuel : Nat) (rest : List Char), EndsNumber rest → form.length ≤ fuel →
    value fuel (form.toList ++ rest) = some (d, rest)

/-- Blanks are skipped up to the first visible character, whatever follows. -/
theorem skipBlanks_append_of_eq_cons {text more : List Char} {c : Char}
    (h : skipBlanks text = c :: more) (rest : List Char) :
    skipBlanks (text ++ rest) = c :: (more ++ rest) := by
  rw [skipBlanks] at h
  rw [skipBlanks, List.dropWhile_append, h]
  rfl

/-- A form that begins with a visible character is not empty, so the reader has fuel for it. -/
theorem readsAs_of_succ {form : String} {d : Document} {c : Char} {more : List Char}
    (hform : form.toList = c :: more) (hvisible : isBlank c = false) (hc : c ≠ ']')
    (h : ∀ (fuel : Nat) (rest : List Char), EndsNumber rest → form.length ≤ fuel + 1 →
      value (fuel + 1) (form.toList ++ rest) = some (d, rest)) : ReadsAs form d where
  begins := ⟨c, more, by rw [hform, skipBlanks_cons hvisible], hc⟩
  reads := by
    intro fuel rest hrest hfuel
    cases fuel with
    | zero =>
        rw [← String.length_toList, hform] at hfuel
        exact absurd hfuel (Nat.not_succ_le_zero _)
    | succ fuel => exact h fuel rest hrest hfuel

/-- Blanks may stand in front of a form. -/
theorem ReadsAs.lead {lead form : String} {d : Document} (h : ReadsAs form d)
    (hlead : Blank lead) : ReadsAs (lead ++ form) d where
  begins := by
    rw [String.toList_append, skipBlanks_append hlead]
    exact h.begins
  reads := by
    intro fuel rest hrest hfuel
    rw [String.toList_append, List.append_assoc, value_of_skipBlanks (skipBlanks_append hlead _)]
    refine h.reads fuel rest hrest (Nat.le_trans ?_ hfuel)
    rw [String.length_append]
    exact Nat.le_add_left _ _

/-- The word for nothing is read back. -/
theorem readsAs_null : ReadsAs "null" .null :=
  have hform : "null".toList = 'n' :: ['u', 'l', 'l'] := rfl
  readsAs_of_succ hform (by decide) (by decide)
    fun fuel rest _ _ => by simp [value, skipBlanks_cons, isBlank]

/-- The words for truth values are read back. -/
theorem readsAs_boolean (b : Bool) : ReadsAs (leaf (.boolean b)) (.boolean b) := by
  cases b with
  | false =>
      have hform : (leaf (.boolean false)).toList = 'f' :: ['a', 'l', 's', 'e'] := rfl
      exact readsAs_of_succ hform (by decide) (by decide)
        fun fuel rest _ _ => by simp [leaf, value, skipBlanks_cons, isBlank]
  | true =>
      have hform : (leaf (.boolean true)).toList = 't' :: ['r', 'u', 'e'] := rfl
      exact readsAs_of_succ hform (by decide) (by decide)
        fun fuel rest _ _ => by simp [leaf, value, skipBlanks_cons, isBlank]

/-- A whole number of 64 bits is read as what its digits denote. -/
theorem readsAs_integer {n : Nat} (h : n < UInt64.size) :
    ReadsAs (leaf (.integer n)) (.integer n) := by
  obtain ⟨c, others, hdigits, hdigit⟩ := exists_toDigits_eq_cons n
  have hform : (leaf (.integer n)).toList = Nat.toDigits 10 n := toList_prettyAt_integer 0 n
  refine readsAs_of_succ (hform.trans hdigits) (isBlank_of_isDigit hdigit)
    (ne_of_isDigit hdigit (by decide)) fun fuel rest hrest _ => ?_
  rw [hform]
  exact value_integer h fuel hrest

/-- A text is read as what it is between its quotes. -/
theorem readsAs_text (s : String) : ReadsAs (quoted s) (.text s) := by
  have hform : (quoted s).toList = '"' :: (s.toList.flatMap escapeChar ++ ['"']) := by
    simp [quoted]
  exact readsAs_of_succ hform (by decide) (by decide) fun fuel rest _ _ => value_quoted s fuel rest

/-! ### Lists -/

/-- The last item of a list has the bracket behind it. -/
theorem items_last {fuel : Nat} {text rest after : List Char} {d : Document}
    (h : value fuel text = some (d, rest)) (hrest : skipBlanks rest = ']' :: after) :
    items (fuel + 1) text = some ([d], after) := by
  simp [items, h, hrest]

/-- Any other item has a comma behind it, and the others follow. -/
theorem items_next {fuel : Nat} {text rest more after : List Char} {d : Document}
    {others : List Document} (h : value fuel text = some (d, rest))
    (hrest : skipBlanks rest = ',' :: more) (hothers : items fuel more = some (others, after)) :
    items (fuel + 1) text = some (d :: others, after) := by
  simp [items, h, hrest, hothers]

/-- A bracket that is closed at once is the empty list. -/
theorem value_list_nil {fuel : Nat} {text after : List Char}
    (h : skipBlanks text = ']' :: after) :
    value (fuel + 1) ('[' :: text) = some (.list [], after) := by
  simp only [value, skipBlanks_cons (show isBlank '[' = false from rfl), h]

/-- Items between brackets are a list. -/
theorem value_list {fuel : Nat} {text after : List Char} {read : List Document}
    (hitem : ∀ more, skipBlanks text ≠ ']' :: more) (h : items fuel text = some (read, after)) :
    value (fuel + 1) ('[' :: text) = some (.list read, after) := by
  simp only [value, skipBlanks_cons (show isBlank '[' = false from rfl)]
  rw [h]
  rfl

/-- Joined forms begin with the first of them. -/
theorem exists_toList_intercalate_cons (first : String) (others : List String) :
    ∃ tail, (",".intercalate (first :: others)).toList = first.toList ++ tail := by
  cases others with
  | nil => exact ⟨[], by simp⟩
  | cons second others => exact ⟨_, by
      rw [String.intercalate_cons_cons, String.toList_append, String.toList_append,
        List.append_assoc]⟩

section Joined

variable {form : Document → String} {lead close : String}

/-- **The items of a list are read back** from their forms with commas between them. -/
theorem items_joined (hclose : Blank close) {first : Document} {others : List Document}
    (h : ∀ d ∈ first :: others, ReadsAs (form d) d) {fuel : Nat}
    (hfuel : (",".intercalate ((first :: others).map form)).length < fuel) (rest : List Char) :
    items fuel ((",".intercalate ((first :: others).map form)).toList ++
      (close.toList ++ ']' :: rest)) = some (first :: others, rest) := by
  obtain ⟨hfirst, hothers⟩ := List.forall_mem_cons.mp h
  obtain ⟨fuel, rfl⟩ : ∃ n, fuel = n + 1 := ⟨fuel - 1, by omega⟩
  induction others generalizing first fuel with
  | nil =>
      simp only [List.map_cons, List.map_nil, String.intercalate_singleton] at hfuel ⊢
      have hend : EndsNumber (close.toList ++ ']' :: rest) :=
        (endsNumber_cons (by decide) rest).blank hclose
      refine items_last (hfirst.reads fuel _ hend (by omega)) ?_
      rw [skipBlanks_append hclose, skipBlanks_cons rfl]
  | cons second others ih =>
      rw [List.map_cons, String.intercalate_cons_of_ne_nil (by exact List.cons_ne_nil _ _)]
        at hfuel ⊢
      simp only [String.toList_append, String.length_append, List.append_assoc] at hfuel ⊢
      have hcomma : ",".length = 1 := rfl
      obtain ⟨fuel, rfl⟩ : ∃ n, fuel = n + 1 := ⟨fuel - 1, by omega⟩
      exact items_next (hfirst.reads _ _ (endsNumber_cons (by decide) _) (by omega))
        (skipBlanks_cons rfl)
        (ih hothers (hothers second List.mem_cons_self)
          (fun d hd => hothers d (List.mem_cons_of_mem _ hd)) _ (by omega))

/-- **A list is read back** from the forms of its items, with blanks in front of its bracket. No
item begins with the bracket that closes the list. -/
theorem readsAs_list (hclose : Blank close) {items : List Document}
    (h : ∀ d ∈ items, ReadsAs (form d) d) :
    ReadsAs ("[" ++ ",".intercalate (items.map form) ++ close ++ "]") (.list items) := by
  have hform : ("[" ++ ",".intercalate (items.map form) ++ close ++ "]").toList =
      '[' :: ((",".intercalate (items.map form)).toList ++ (close.toList ++ [']'])) := by
    simp only [String.toList_append, List.append_assoc]
    rfl
  refine readsAs_of_succ hform (by decide) (by decide) fun fuel rest _ hfuel => ?_
  rw [← String.length_toList, hform] at hfuel
  rw [hform]
  simp only [List.cons_append, List.append_assoc, List.nil_append, List.length_cons,
    List.length_append, List.length_nil, String.length_toList] at hfuel ⊢
  cases items with
  | nil =>
      refine value_list_nil ?_
      rw [List.map_nil, String.intercalate_nil]
      exact (skipBlanks_append hclose _).trans (skipBlanks_cons rfl)
  | cons first others =>
      refine value_list ?_ (items_joined hclose h (by omega) rest)
      obtain ⟨c, more, hbegins, hc⟩ := (h first List.mem_cons_self).begins
      obtain ⟨tail, htail⟩ := exists_toList_intercalate_cons (form first) (others.map form)
      rw [List.map_cons, htail, List.append_assoc, skipBlanks_append_of_eq_cons hbegins]
      exact fun _ hclosed => hc (List.cons.inj hclosed).1

/-! ### Tables -/

/-- The parts of the name of a field. -/
def named (field : String × Document) : List Piece × Document :=
  (field.1.toList.map .char, field.2)

/-- A table is the table of its fields by the parts of their names. -/
theorem tableOf_named (fields : List (String × Document)) :
    tableOf (fields.map named) = .table fields := by
  have hfields : (fields.map named).mapM
      (fun field => (text? field.1).map fun name => (name, field.2)) = some fields := by
    induction fields with
    | nil => rfl
    | cons field others ih =>
        rw [List.map_cons, List.mapM_cons, ih]
        simp [named, text?, joined?_chars]
  unfold tableOf
  split
  · next read hread => exact congrArg Document.table (Option.some.inj (hread.symm.trans hfields))
  · next hnone => cases hnone.symm.trans hfields

/-- The form of a field: its name behind a lead, a colon and the form of its content. -/
def fieldForm (lead : String) (form : Document → String) (field : String × Document) : String :=
  lead ++ quoted field.1 ++ ":" ++ form field.2

/-- A field begins with the quote of its name. -/
theorem skipBlanks_fieldForm (hlead : Blank lead) (field : String × Document)
    (rest : List Char) :
    skipBlanks ((fieldForm lead form field).toList ++ rest) =
      '"' :: (field.1.toList.flatMap escapeChar ++
        '"' :: ':' :: ((form field.2).toList ++ rest)) := by
  have hform : (fieldForm lead form field).toList ++ rest = lead.toList ++
      ((quoted field.1).toList ++ ':' :: ((form field.2).toList ++ rest)) := by
    simp [fieldForm]
  rw [hform, skipBlanks_append hlead, toList_quoted_append, skipBlanks_cons rfl]

section Fields

variable {fuel : Nat} {field : String × Document} {rest after : List Char}

/-- The last field of a table has the brace behind it. -/
theorem fields_last (hlead : Blank lead)
    (h : value fuel ((form field.2).toList ++ rest) = some (field.2, rest))
    (hrest : skipBlanks rest = '\x7d' :: after) :
    fields (fuel + 1) ((fieldForm lead form field).toList ++ rest) =
      some ([named field], after) := by
  rw [fields, skipBlanks_fieldForm hlead]
  simp [textBody_escape, skipBlanks_cons, isBlank, h, hrest, named]

/-- Any other field has a comma behind it, and the others follow. -/
theorem fields_next (hlead : Blank lead) {more : List Char}
    {others : List (List Piece × Document)}
    (h : value fuel ((form field.2).toList ++ rest) = some (field.2, rest))
    (hrest : skipBlanks rest = ',' :: more) (hothers : fields fuel more = some (others, after)) :
    fields (fuel + 1) ((fieldForm lead form field).toList ++ rest) =
      some (named field :: others, after) := by
  rw [fields, skipBlanks_fieldForm hlead]
  simp [textBody_escape, skipBlanks_cons, isBlank, h, hrest, hothers, named]

end Fields

/-- The form of a field is at least as long as that of its content. -/
theorem length_fieldForm (lead : String) (form : Document → String) (field : String × Document) :
    (form field.2).length ≤ (fieldForm lead form field).length := by
  rw [fieldForm, String.length_append]
  exact Nat.le_add_left _ _

/-- **The fields of a table are read back** from their forms with commas between them. -/
theorem fields_joined (hlead : Blank lead) (hclose : Blank close) {first : String × Document}
    {others : List (String × Document)}
    (h : ∀ field ∈ first :: others, ReadsAs (form field.2) field.2) {fuel : Nat}
    (hfuel : (",".intercalate ((first :: others).map (fieldForm lead form))).length < fuel)
    (rest : List Char) :
    fields fuel ((",".intercalate ((first :: others).map (fieldForm lead form))).toList ++
      (close.toList ++ '\x7d' :: rest)) = some ((first :: others).map named, rest) := by
  obtain ⟨hfirst, hothers⟩ := List.forall_mem_cons.mp h
  have hlength := length_fieldForm lead form first
  obtain ⟨fuel, rfl⟩ : ∃ n, fuel = n + 1 := ⟨fuel - 1, by omega⟩
  induction others generalizing first fuel with
  | nil =>
      simp only [List.map_cons, List.map_nil, String.intercalate_singleton] at hfuel ⊢
      have hend : EndsNumber (close.toList ++ '\x7d' :: rest) :=
        (endsNumber_cons (by decide) rest).blank hclose
      refine fields_last hlead (hfirst.reads fuel _ hend (by omega)) ?_
      rw [skipBlanks_append hclose, skipBlanks_cons rfl]
  | cons second others ih =>
      rw [List.map_cons, String.intercalate_cons_of_ne_nil (by exact List.cons_ne_nil _ _)]
        at hfuel ⊢
      simp only [String.toList_append, String.length_append, List.append_assoc] at hfuel ⊢
      have hcomma : ",".length = 1 := rfl
      obtain ⟨fuel, rfl⟩ : ∃ n, fuel = n + 1 := ⟨fuel - 1, by omega⟩
      exact fields_next hlead (hfirst.reads _ _ (endsNumber_cons (by decide) _) (by omega))
        (skipBlanks_cons rfl)
        (ih hothers (hothers second List.mem_cons_self)
          (fun field hfield => hothers field (List.mem_cons_of_mem _ hfield))
          (length_fieldForm lead form second) _ (by omega))

/-- A brace that is closed at once is the empty table. -/
theorem value_table_nil {fuel : Nat} {text after : List Char}
    (h : skipBlanks text = '\x7d' :: after) :
    value (fuel + 1) ('\x7b' :: text) = some (.table [], after) := by
  simp only [value, skipBlanks_cons (show isBlank '\x7b' = false from rfl), h]

/-- Fields between braces are a table. -/
theorem value_table {fuel : Nat} {text after : List Char} {read : List (List Piece × Document)}
    (hfield : ∀ more, skipBlanks text ≠ '\x7d' :: more)
    (h : fields fuel text = some (read, after)) :
    value (fuel + 1) ('\x7b' :: text) = some (tableOf read, after) := by
  simp only [value, skipBlanks_cons (show isBlank '\x7b' = false from rfl)]
  rw [h]
  rfl

/-- **A table is read back** from the forms of its fields, with blanks in front of its brace. The
first name does not begin with the brace that closes the table. -/
theorem readsAs_table (form : Document → String) (hlead : Blank lead) (hclose : Blank close)
    {fields : List (String × Document)} (h : ∀ field ∈ fields, ReadsAs (form field.2) field.2) :
    ReadsAs ("\x7b" ++ ",".intercalate (fields.map (fieldForm lead form)) ++ close ++ "\x7d")
      (.table fields) := by
  have hform : ("\x7b" ++ ",".intercalate (fields.map (fieldForm lead form)) ++ close ++
      "\x7d").toList = '\x7b' :: ((",".intercalate (fields.map (fieldForm lead form))).toList ++
        (close.toList ++ ['\x7d'])) := by
    simp only [String.toList_append, List.append_assoc]
    rfl
  refine readsAs_of_succ hform (by decide) (by decide) fun fuel rest _ hfuel => ?_
  rw [← String.length_toList, hform] at hfuel
  rw [hform]
  simp only [List.cons_append, List.append_assoc, List.nil_append, List.length_cons,
    List.length_append, List.length_nil, String.length_toList] at hfuel ⊢
  cases fields with
  | nil =>
      refine value_table_nil ?_
      rw [List.map_nil, String.intercalate_nil]
      exact (skipBlanks_append hclose _).trans (skipBlanks_cons rfl)
  | cons first others =>
      rw [← tableOf_named]
      refine value_table ?_ (fields_joined hlead hclose h (by omega) rest)
      obtain ⟨tail, htail⟩ := exists_toList_intercalate_cons (fieldForm lead form first)
        (others.map (fieldForm lead form))
      rw [List.map_cons, htail, List.append_assoc, skipBlanks_fieldForm hlead]
      exact fun _ hclosed => absurd (List.cons.inj hclosed).1 (by decide)

end Joined

/-- The empty table is read back. -/
theorem readsAs_emptyTable : ReadsAs "\x7b\x7d" (.table []) := by
  have hfield : ∀ field ∈ ([] : List (String × Document)), ReadsAs (leaf field.2) field.2 :=
    fun _ hfield => absurd hfield List.not_mem_nil
  exact readsAs_table leaf blank_empty blank_empty hfield

/-! ### The pretty form -/

/-- The forms of the items of a list, each behind a line break. -/
theorem prettyItems_eq_map (level : Nat) (items : List Document) :
    prettyItems level items = items.map (fun d => newline level ++ prettyAt level d) := by
  induction items with
  | nil => rfl
  | cons d others ih => rw [prettyItems, ih, List.map_cons]

/-- The forms of the fields of a table, each behind a line break and with a blank behind its colon.
-/
theorem prettyFields_eq_map (level : Nat) (fields : List (String × Document)) :
    prettyFields level fields =
      fields.map (fieldForm (newline level) fun d => " " ++ prettyAt level d) := by
  have hcolon : ": " = ":" ++ " " := rfl
  induction fields with
  | nil => rfl
  | cons field others ih =>
      rw [prettyFields, ih, List.map_cons, fieldForm, hcolon]
      simp only [String.append_assoc]

/-- **A document is read as its pretty form says**, on every level. -/
theorem Plain.readsAs_prettyAt {d : Document} (h : Plain d) (level : Nat) :
    ReadsAs (prettyAt level d) d := by
  induction h generalizing level with
  | null => exact readsAs_null
  | boolean b => exact readsAs_boolean b
  | integer hn => exact readsAs_integer hn
  | text s => exact readsAs_text s
  | @list items hitems ih =>
      have hitem : ∀ d ∈ items, ReadsAs (newline (level + 1) ++ prettyAt (level + 1) d) d :=
        fun d hd => (ih d hd (level + 1)).lead (blank_newline _)
      cases items with
      | nil => exact readsAs_list blank_empty hitem
      | cons first others =>
          rw [prettyAt, prettyItems_eq_map]
          exact readsAs_list (blank_newline level) hitem
  | @table fields hfields ih =>
      have hfield : ∀ field ∈ fields, ReadsAs (" " ++ prettyAt (level + 1) field.2) field.2 :=
        fun field hfield => (ih field hfield (level + 1)).lead blank_space
      cases fields with
      | nil => exact readsAs_emptyTable
      | cons first others =>
          rw [prettyAt, prettyFields_eq_map]
          exact readsAs_table _ (blank_newline _) (blank_newline level) hfield

/-- A text that is a form of a document is read as the document. -/
theorem ReadsAs.read? {form : String} {d : Document} (h : ReadsAs form d) :
    read? form = some d := by
  have hlength : form.length ≤ 2 * form.toList.length + 1 := by
    rw [String.length_toList]
    omega
  have hvalue := h.reads _ [] endsNumber_nil hlength
  rw [List.append_nil] at hvalue
  rw [Json.read?, hvalue]
  rfl

/-- **What is written is read back.** -/
theorem read?_pretty {d : Document} (h : Plain d) : read? (pretty d) = some d :=
  (h.readsAs_prettyAt 0).read?

end Dashboard.Json
