import Dashboard.Document.Toml.Writer
import Dashboard.Proofs.Document.Scanning

/-!
# What Is Written on a Line of TOML Is Read Back

A header and a field are written on one line each. This module follows the scanners of a line
over what was written: a key is read back with its quotes and escapes, a value with a word, a
text or digits that no other kind of value could have taken, and a line up to its end. What a
line says is then put into the tables in the making, which is for these to accept.

Lines are counted while they are read. A text is taken by no more of them than it has
characters, so the length of the whole text is enough.

## Main results

* `takes_shortText`, `takes_dottedKey` — texts and keys are read back.
* `Scalar.exists_readsBack` — so are numbers, words and texts as values.
* `advances_value`, `advances_header` — what a line does to the tables in the making.
* `Advances.run_lines`, `read?_of_run` — all lines of a text are taken.
-/

namespace Dashboard.Toml

open Text (Scanner Stops)
open Text.Scanner

/-! ### Texts -/

/-- Four hexadecimal digits are taken as the character with that number. -/
theorem takes_numbered {digits : List Char} {c : Char} (hlength : digits.length = 4)
    (hcode : natOfHex? digits = some c.toNat) (rest : List Char) :
    Takes (numbered 4) (digits ++ rest) c rest := by
  have htake : (digits ++ rest).take 4 = digits := by rw [← hlength, List.take_left]
  have hdrop : (digits ++ rest).drop 4 = rest := by rw [← hlength, List.drop_left]
  refine (takes_get _).bind ?_
  dsimp only
  rw [htake, hcode]
  dsimp only
  rw [if_pos ⟨hlength, c.valid⟩, hdrop, Char.ofNat_toNat]
  rfl

/-- A character that stands for itself in a text. -/
theorem takes_lineText_plain {c : Char} {n : Nat} {text chars rest : List Char}
    (hquote : c ≠ '"') (hbackslash : c ≠ '\\') (hc : isPrintable c = true)
    (h : Takes (lineText '"' true n) text chars rest) :
    Takes (lineText '"' true (n + 1)) (c :: text) (c :: chars) rest := by
  refine (takes_satisfying hc text).bind ?_
  rw [if_neg hquote, if_neg (by simp [hbackslash])]
  exact h.bind (takes_pure _ _)

/-- A character that stands behind a backslash in a text. -/
theorem takes_lineText_escape {c : Char} {n : Nat} (escaped : List Char)
    {text chars rest : List Char} (hc : Takes escape (escaped ++ text) c text)
    (h : Takes (lineText '"' true n) text chars rest) :
    Takes (lineText '"' true (n + 1)) ('\\' :: (escaped ++ text)) (c :: chars) rest := by
  refine (takes_satisfying (by decide) _).bind ?_
  rw [if_neg (by decide), if_pos (by decide)]
  exact hc.bind (h.bind (takes_pure _ _))

/-- A character is read back from its form. -/
theorem takes_lineText_escapeChar {c : Char} {n : Nat} {text chars rest : List Char}
    (h : Takes (lineText '"' true n) text chars rest) :
    Takes (lineText '"' true (n + 1)) (escapeChar c ++ text) (c :: chars) rest := by
  unfold escapeChar
  split
  · exact takes_lineText_escape ['"'] rfl h
  · exact takes_lineText_escape ['\\'] rfl h
  · exact takes_lineText_escape ['n'] rfl h
  · exact takes_lineText_escape ['r'] rfl h
  · exact takes_lineText_escape ['t'] rfl h
  · exact takes_lineText_escape ['b'] rfl h
  · exact takes_lineText_escape ['f'] rfl h
  · next hquote hbackslash _ _ _ _ _ =>
    split
    · next hc => exact takes_lineText_plain hquote hbackslash hc h
    · next hc =>
      simp only [isPrintable, Bool.or_eq_true, Bool.and_eq_true, decide_eq_true_eq,
        bne_iff_ne] at hc
      obtain ⟨-, hlength, hcode⟩ := natOfHex?_fourDigits c.toNat (by omega)
      exact takes_lineText_escape ('u' :: fourDigits _)
        ((takes_satisfying (p := fun _ => true) rfl _).bind (takes_numbered hlength hcode text)) h

/-- A text is read back up to its closing quote. -/
theorem takes_lineText (chars : List Char) {n : Nat} (hn : chars.length < n) (rest : List Char) :
    Takes (lineText '"' true n) (chars.flatMap escapeChar ++ '"' :: rest) chars rest := by
  induction chars generalizing n with
  | nil =>
      obtain ⟨n, rfl⟩ : ∃ k, n = k + 1 := ⟨n - 1, by omega⟩
      exact (takes_satisfying (by decide) rest).bind (takes_pure [] rest)
  | cons c chars ih =>
      obtain ⟨n, rfl⟩ : ∃ k, n = k + 1 := ⟨n - 1, by omega⟩
      rw [List.flatMap_cons, List.append_assoc]
      exact takes_lineText_escapeChar (ih (by simpa using hn))

/-- The form of a character is not empty and does not begin with a quote. -/
theorem exists_escapeChar_eq_cons (c : Char) : ∃ e more, escapeChar c = e :: more ∧ e ≠ '"' := by
  unfold escapeChar
  split
  case h_8 hquote _ _ _ _ _ _ =>
    split
    · exact ⟨c, [], rfl, hquote⟩
    · exact ⟨'\\', _, rfl, by decide⟩
  all_goals exact ⟨'\\', _, rfl, by decide⟩

/-- A text has a form that is at least as long. -/
theorem length_le_length_flatMap_escapeChar (chars : List Char) :
    chars.length ≤ (chars.flatMap escapeChar).length := by
  induction chars with
  | nil => exact Nat.le_refl 0
  | cons c chars ih =>
      obtain ⟨e, more, hc, -⟩ := exists_escapeChar_eq_cons c
      rw [List.flatMap_cons, List.length_append, List.length_cons, hc, List.length_cons]
      omega

/-- The characters of a text between quotes, and what follows them. -/
theorem toList_quoted_append (s : String) (rest : List Char) :
    (quoted s).toList ++ rest = '"' :: (s.toList.flatMap escapeChar ++ '"' :: rest) := by
  simp [quoted]

/-- **A text is read back from its form.** -/
theorem takes_shortText (s : String) (rest : List Char) :
    Takes shortText ((quoted s).toList ++ rest) s rest := by
  rw [toList_quoted_append]
  have hlength := length_le_length_flatMap_escapeChar s.toList
  refine (takes_get _).bind (Takes.orElse ?_)
  refine (takes_char '"' _).bind ((takes_lineText s.toList ?_ rest).bind ?_)
  · simp only [List.length_cons, List.length_append]
    omega
  · rw [String.ofList_toList]
    exact takes_pure s rest

/-- A text without a quote in front is no text on a line. -/
theorem refuses_shortText {text : List Char} (hquote : ∀ rest, text ≠ '"' :: rest)
    (happostrophe : ∀ rest, text ≠ '\'' :: rest) : Refuses shortText text :=
  (takes_get text).bind_refuses
    ((refuses_char hquote).bind.orElse_refuses (refuses_char happostrophe).bind)

/-! ### Keys -/

/-- A character that a key begins with. -/
def BeginsKey (c : Char) : Prop :=
  isKeyChar c = true ∨ c = '"'

/-- A key does not begin with a blank. -/
theorem BeginsKey.isBlank {c : Char} (h : BeginsKey c) : isBlank c = false := by
  refine Bool.eq_false_iff.mpr fun hblank => ?_
  simp only [Toml.isBlank, Bool.or_eq_true, beq_iff_eq] at hblank
  rcases hblank with rfl | rfl <;> rcases h with h | h <;> cases h

/-- A part of a key stands for itself or between quotes. -/
theorem keyText_eq (name : String) :
    (∃ c more, name.toList = c :: more ∧ (∀ d ∈ c :: more, isKeyChar d = true) ∧
      keyText name = name) ∨ keyText name = quoted name := by
  unfold keyText
  split
  · next h =>
    obtain ⟨hne, hchars⟩ := Bool.and_eq_true_iff.mp h
    rw [List.all_eq_true] at hchars
    cases hname : name.toList with
    | nil =>
        rw [String.toList_eq_nil_iff] at hname
        rw [hname] at hne
        cases hne
    | cons c more => exact .inl ⟨c, more, rfl, hname ▸ hchars, rfl⟩
  · exact .inr rfl

/-- The form of a key has a first character. -/
theorem exists_toList_keyText (name : String) :
    ∃ c more, (keyText name).toList = c :: more ∧ BeginsKey c := by
  obtain ⟨c, more, hname, hchars, htext⟩ | htext := keyText_eq name
  · exact ⟨c, more, by rw [htext, hname], .inl (hchars c List.mem_cons_self)⟩
  · exact ⟨'"', _, by rw [htext, ← List.append_nil (quoted name).toList, toList_quoted_append],
      .inr rfl⟩

/-- A part of a key is read back. -/
theorem takes_simpleKey (name : String) {rest : List Char} (hrest : Stops isKeyChar rest) :
    Takes simpleKey ((keyText name).toList ++ rest) name rest := by
  obtain ⟨c, more, hname, hchars, htext⟩ | htext := keyText_eq name
  · rw [htext, hname]
    have hc := hchars c List.mem_cons_self
    refine (refuses_shortText ?_ ?_).orElse ?_
    · rintro _ ⟨⟩
      cases hc
    · rintro _ ⟨⟩
      cases hc
    · refine (takes_takeWhile_of_stops hchars hrest).bind ?_
      rw [List.isEmpty_cons, if_neg Bool.false_ne_true, ← hname, String.ofList_toList]
      exact takes_pure name rest
  · rw [htext]
    exact (takes_shortText name rest).orElse

/-- Where something shows there are no blanks to take. -/
theorem takes_blanks {c : Char} (h : isBlank c = false) (rest : List Char) :
    Takes blanks (c :: rest) () (c :: rest) := by
  show Takes (skipWhile isBlank) ([] ++ c :: rest) () (c :: rest)
  exact takes_skipWhile_of_stops nofun (Text.stops_cons h)

/-- There are no blanks in front of a key. -/
theorem takes_blanks_keyText (name : String) (rest : List Char) :
    Takes blanks ((keyText name).toList ++ rest) () ((keyText name).toList ++ rest) := by
  obtain ⟨c, more, htext, hc⟩ := exists_toList_keyText name
  rw [htext]
  exact takes_blanks hc.isBlank (more ++ rest)

/-- The form of a dotted key: its parts in front of the last one, and the last one. -/
def dottedText (path : List String) (name : String) : String :=
  ".".intercalate ((path ++ [name]).map keyText)

/-- A key without a path is written alone. -/
theorem dottedText_nil (name : String) : dottedText [] name = keyText name :=
  String.intercalate_singleton

/-- A key with a path is written behind the first key of the path and a dot. -/
theorem toList_dottedText_cons (first : String) (path : List String) (name : String)
    (rest : List Char) :
    (dottedText (first :: path) name).toList ++ rest =
      (keyText first).toList ++ '.' :: ((dottedText path name).toList ++ rest) := by
  rw [dottedText, List.cons_append, List.map_cons,
    String.intercalate_cons_of_ne_nil (by simp), ← dottedText]
  simp

/-- The form of a key with a path has a first character. -/
theorem exists_toList_dottedText (path : List String) (name : String) :
    ∃ c more, (dottedText path name).toList = c :: more ∧ BeginsKey c := by
  cases path with
  | nil =>
      rw [dottedText_nil]
      exact exists_toList_keyText name
  | cons first path =>
      obtain ⟨c, more, htext, hc⟩ := exists_toList_keyText first
      have hcons := toList_dottedText_cons first path name []
      rw [List.append_nil, htext] at hcons
      exact ⟨c, _, hcons, hc⟩

/-- **A key is read back**, with the blanks behind it. -/
theorem takes_dottedKey (path : List String) (name : String) {n : Nat} (hn : path.length < n)
    {rest after : List Char} (hrest : Stops isKeyChar rest) (hafter : Takes blanks rest () after)
    (hdot : after.head? ≠ some '.') :
    Takes (dottedKey n) ((dottedText path name).toList ++ rest) (path, name) after := by
  induction path generalizing n with
  | nil =>
      obtain ⟨n, rfl⟩ : ∃ k, n = k + 1 := ⟨n - 1, by omega⟩
      rw [dottedText_nil]
      refine (takes_blanks_keyText name rest).bind
        ((takes_simpleKey name hrest).bind (hafter.bind ?_))
      refine (refuses_char fun more hmore => ?_).bind.orElse ((takes_ahead '.' after).bind ?_)
      · rw [hmore] at hdot
        exact hdot rfl
      · rw [if_neg (by simpa using hdot)]
        exact takes_pure _ after
  | cons first path ih =>
      obtain ⟨n, rfl⟩ : ∃ k, n = k + 1 := ⟨n - 1, by omega⟩
      have hpath := ih (n := n) (by simpa using hn)
      rw [toList_dottedText_cons]
      refine (takes_blanks_keyText first _).bind
        ((takes_simpleKey first (Text.stops_cons rfl)).bind ?_)
      refine (takes_blanks rfl _).bind (Takes.orElse ?_)
      exact (takes_char '.' _).bind (hpath.bind (takes_pure _ after))

/-! ### Numbers -/

section Numbers

variable {n : Nat} {rest : List Char}

/-- A line of digits goes on with a digit or ends. -/
theorem digits_append_ne_cons {run : List Char} (hrun : ∀ d ∈ run, Text.isDigit d = true)
    {c : Char} {more : List Char} (hc : Text.isDigit c = false) (hbreak : c ≠ '\n') :
    run ++ '\n' :: rest ≠ c :: more := by
  cases run with
  | nil =>
      rintro ⟨⟩
      exact hbreak rfl
  | cons d others =>
      rintro ⟨⟩
      rw [hrun c List.mem_cons_self] at hc
      cases hc

/-- The same behind the first digit of a number. -/
theorem toDigits_append_ne_cons_cons {a c : Char} {more : List Char} (hc : c.isDigit = false)
    (hbreak : c ≠ '\n') : Nat.toDigits 10 n ++ '\n' :: rest ≠ a :: c :: more := by
  obtain ⟨first, others, hdigits, -⟩ := exists_toDigits_eq_cons n
  have hothers : ∀ d ∈ others, Text.isDigit d = true := fun d hd =>
    isDigit_of_mem_toDigits (n := n) d (by rw [hdigits]; exact List.mem_cons_of_mem _ hd)
  rw [hdigits]
  exact fun h => digits_append_ne_cons hothers hc hbreak (List.cons.inj h).2

/-- At most some of the digits of a line are taken. -/
theorem run_digits (width : Nat) (rest : List Char) {run : List Char}
    (hrun : ∀ c ∈ run, Text.isDigit c = true) :
    (digits width).run (run ++ '\n' :: rest) =
      if (run.take width).isEmpty then none
      else some (run.take width, run.drop width ++ '\n' :: rest) := by
  have hstops : Stops Text.isDigit (('\n' :: rest).take (width - run.length)) := by
    cases width - run.length with
    | zero => exact nofun
    | succ k => exact Text.stops_cons rfl
  have htaken : ((run ++ '\n' :: rest).take width).takeWhile Text.isDigit = run.take width := by
    rw [List.take_append]
    exact Text.takeWhile_of_stops (fun c hc => hrun c (List.mem_of_mem_take hc)) hstops
  have hleft : (run ++ '\n' :: rest).drop (run.take width).length =
      run.drop width ++ '\n' :: rest := by
    rw [List.length_take]
    by_cases hwidth : width ≤ run.length
    · rw [Nat.min_eq_left hwidth, List.drop_append_of_le_length hwidth]
    · rw [Nat.min_eq_right (by omega), List.drop_left, List.drop_eq_nil_of_le (by omega),
        List.nil_append]
  show (if (((run ++ '\n' :: rest).take width).takeWhile Text.isDigit).isEmpty then _ else _) = _
  rw [htaken, hleft]

/-- Digits at the end of a line are not followed by a mark. -/
theorem refuses_fixed_char {width low high : Nat} {c : Char} {α : Type} {f : Nat → Scanner α}
    {run : List Char} (hrun : ∀ d ∈ run, Text.isDigit d = true) (hc : Text.isDigit c = false)
    (hbreak : c ≠ '\n') :
    Refuses (do let n ← fixed width low high; char c; f n) (run ++ '\n' :: rest) := by
  have hdigits := run_digits width rest hrun
  have hmark : ∀ more, run.drop width ++ '\n' :: rest ≠ c :: more := fun more =>
    digits_append_ne_cons (fun d hd => hrun d (List.mem_of_mem_drop hd)) hc hbreak
  split at hdigits
  · exact Refuses.bind (Refuses.bind hdigits)
  · by_cases hfixed : (run.take width).length = width ∧
        low ≤ Decimal.natOfDigits (run.take width) ∧ Decimal.natOfDigits (run.take width) ≤ high
    · have hnumber : Takes (fixed width low high) (run ++ '\n' :: rest)
          (Decimal.natOfDigits (run.take width)) (run.drop width ++ '\n' :: rest) := by
        refine Takes.bind hdigits ?_
        dsimp only
        rw [if_pos hfixed]
        exact takes_pure _ _
      exact hnumber.bind_refuses (refuses_char hmark).bind
    · refine Refuses.bind (Takes.bind_refuses hdigits ?_)
      dsimp only
      rw [if_neg hfixed]
      exact refuses_failure _

/-- At the end of a line there are no more digits, nor an underscore in front of one. -/
theorem refuses_groupedWithin (k : Nat) :
    Refuses (groupedWithin Text.isDigit k) ('\n' :: rest) := by
  cases k with
  | zero => exact refuses_failure _
  | succ k => exact (refuses_satisfying (Text.stops_cons rfl)).bind

/-- Digits up to the end of a line are taken. -/
theorem takes_groupedWithin {first : Char} {others : List Char} {k : Nat}
    (hk : others.length < k) (hdigits : ∀ d ∈ first :: others, Text.isDigit d = true) :
    Takes (groupedWithin Text.isDigit k) (first :: others ++ '\n' :: rest) (first :: others)
      ('\n' :: rest) := by
  induction others generalizing first k with
  | nil =>
      obtain ⟨k, rfl⟩ : ∃ m, k = m + 1 := ⟨k - 1, by omega⟩
      refine (takes_satisfying (hdigits first List.mem_cons_self) _).bind ?_
      refine Refuses.orElse ?_ (takes_pure _ _)
      exact (refuses_char (by rintro _ ⟨⟩)).optional.bind_refuses (refuses_groupedWithin k).bind
  | cons second others ih =>
      obtain ⟨k, rfl⟩ : ∃ m, k = m + 1 := ⟨k - 1, by omega⟩
      refine (takes_satisfying (hdigits first List.mem_cons_self) _).bind (Takes.orElse ?_)
      have hothers : ∀ d ∈ second :: others, Text.isDigit d = true :=
        fun d hd => hdigits d (List.mem_cons_of_mem _ hd)
      refine (refuses_char ?_).optional.bind
        ((ih (by simpa using hk) hothers).bind (takes_pure _ _))
      rintro _ ⟨⟩
      cases hothers _ List.mem_cons_self

/-- Digits up to the end of a line are taken as one group. -/
theorem takes_grouped {run : List Char} (hne : run ≠ [])
    (hrun : ∀ d ∈ run, Text.isDigit d = true) :
    Takes (grouped Text.isDigit) (run ++ '\n' :: rest) run ('\n' :: rest) := by
  obtain ⟨first, others, rfl⟩ := List.exists_cons_of_ne_nil hne
  refine (takes_get _).bind (takes_groupedWithin ?_ hrun)
  simp only [List.cons_append, List.length_cons, List.length_append]
  omega

/-- The digits of a number have no sign in front. -/
theorem takes_sign : Takes sign (Nat.toDigits 10 n ++ rest) [] (Nat.toDigits 10 n ++ rest) := by
  refine (refuses_satisfying fun c hc => ?_).optional.bind (takes_pure _ _)
  obtain ⟨more, hmore⟩ := List.head?_eq_some_iff.mp hc
  refine Bool.eq_false_iff.mpr fun hmark => ?_
  simp only [Bool.or_eq_true, beq_iff_eq] at hmark
  rcases hmark with rfl | rfl
  · exact toDigits_append_ne_cons rfl hmore
  · exact toDigits_append_ne_cons rfl hmore

/-- The digits of a number are taken up to the end of the line. -/
theorem takes_wholeDigits :
    Takes wholeDigits (Nat.toDigits 10 n ++ '\n' :: rest) (Nat.toDigits 10 n) ('\n' :: rest) := by
  refine (takes_ahead '0' _).bind ?_
  split
  · next hzero =>
    obtain rfl : n = 0 := by
      rw [← head?_toDigits_eq_zero_iff]
      obtain ⟨first, others, hdigits, -⟩ := exists_toDigits_eq_cons n
      rw [hdigits] at hzero ⊢
      exact beq_iff_eq.mp hzero
    exact (takes_char '0' _).bind (takes_pure _ _)
  · exact takes_grouped Nat.toDigits_ne_nil isDigit_of_mem_toDigits

/-- The digits of a number do not begin like a number of another base. -/
theorem refuses_based {mark : Char} {base : Nat} (hmark : mark.isDigit = false)
    (hbreak : mark ≠ '\n') :
    Refuses (based (String.ofList ['0', mark]) base) (Nat.toDigits 10 n ++ '\n' :: rest) :=
  (refuses_word fun more => by
    rw [String.toList_ofList]
    exact toDigits_append_ne_cons_cons hmark hbreak).bind

/-- The digits of a number that fits are taken as this number. -/
theorem takes_wholeNumber (h : fits n = true) :
    Takes wholeNumber (Nat.toDigits 10 n ++ '\n' :: rest) (.integer n) ('\n' :: rest) := by
  refine Takes.bind ?_ (takes_pure _ _)
  refine (refuses_based rfl (by decide)).orElse ((refuses_based rfl (by decide)).orElse
    ((refuses_based rfl (by decide)).orElse ?_))
  refine takes_sign.bind (takes_wholeDigits.bind ?_)
  have hsign : ¬ ([] : List Char) = ['-'] := List.cons_ne_nil _ _ |>.symm
  dsimp only
  rw [Decimal.natOfDigits_toDigits, if_neg hsign, if_pos h]
  exact takes_pure _ _

/-- The digits of a number are no fraction. -/
theorem refuses_realNumber : Refuses realNumber (Nat.toDigits 10 n ++ '\n' :: rest) := by
  refine takes_sign.bind_refuses (Refuses.orElse_refuses ?_ (Refuses.orElse_refuses ?_ ?_))
  · refine takes_wholeDigits.bind_refuses (Refuses.bind (Refuses.orElse_refuses ?_ ?_))
    · exact (refuses_satisfying (Text.stops_cons rfl)).bind
    · exact Refuses.bind (refuses_char (by rintro _ ⟨⟩)).bind
  · exact (refuses_word fun more => toDigits_append_ne_cons rfl).bind
  · exact (refuses_word fun more => toDigits_append_ne_cons rfl).bind

/-- The digits of a number are no moment. -/
theorem refuses_moment : Refuses moment (Nat.toDigits 10 n ++ '\n' :: rest) := by
  refine Refuses.bind (Refuses.orElse_refuses (Refuses.bind ?_) ?_)
  · exact refuses_fixed_char isDigit_of_mem_toDigits rfl (by decide)
  · exact refuses_fixed_char isDigit_of_mem_toDigits rfl (by decide)

end Numbers

/-! ### Values -/

/-- Documents that stand on the line of their key and are read back. -/
inductive Scalar : Document → Prop
  | boolean (b : Bool) : Scalar (.boolean b)
  | integer {n : Nat} : fits n = true → Scalar (.integer n)
  | text (s : String) : Scalar (.text s)

/-- A document is read back from a form at the end of a line, which begins with no blank. -/
structure ReadsBack (form : List Char) (d : Document) : Prop where
  shows : ∀ rest, Takes blanks (form ++ '\n' :: rest) () (form ++ '\n' :: rest)
  taken : ∀ rest, Takes scalar (form ++ '\n' :: rest) d ('\n' :: rest)

/-- A text without three quotes in front is no text of several lines. -/
theorem refuses_longText {text : List Char} (hquotes : ∀ rest, text ≠ '"' :: '"' :: '"' :: rest)
    (happostrophe : ∀ rest, text ≠ '\'' :: rest) : Refuses longText text :=
  (takes_get text).bind_refuses ((refuses_word hquotes).bind.orElse_refuses
    (refuses_word fun rest => happostrophe ('\'' :: '\'' :: rest)).bind)

/-- A text is read back from its form on a line. An empty one is not taken for the quotes of a text
of several lines, because its second quote is the last character of its line. -/
theorem readsBack_quoted (s : String) : ReadsBack (quoted s).toList (.text s) := by
  constructor
  · intro rest
    rw [toList_quoted_append]
    exact takes_blanks rfl _
  · intro rest
    refine Refuses.orElse (Refuses.bind (refuses_longText ?_ ?_)) (Takes.orElse ?_)
    · intro more h
      rw [toList_quoted_append] at h
      cases hs : s.toList with
      | nil =>
          rw [hs] at h
          exact absurd (List.cons.inj (List.cons.inj (List.cons.inj h).2).2).1 (by decide)
      | cons c others =>
          obtain ⟨e, escaped, hescaped, he⟩ := exists_escapeChar_eq_cons c
          rw [hs, List.flatMap_cons, hescaped] at h
          exact he (List.cons.inj (List.cons.inj h).2).1
    · intro more h
      rw [toList_quoted_append] at h
      exact absurd (List.cons.inj h).1 (by decide)
    · exact (takes_shortText s _).bind (takes_pure _ _)

/-- A number that fits is read back from its digits. Texts, words, dates and fractions are tried
before, and each of them refuses the digits. -/
theorem readsBack_toDigits {n : Nat} (h : fits n = true) :
    ReadsBack (Nat.toDigits 10 n) (.integer n) := by
  constructor
  · intro rest
    obtain ⟨first, others, hdigits, hfirst⟩ := exists_toDigits_eq_cons n
    have hshows : isBlank first = false := by
      refine Bool.eq_false_iff.mpr fun hblank => ?_
      simp only [isBlank, Bool.or_eq_true, beq_iff_eq] at hblank
      rcases hblank with rfl | rfl <;> cases hfirst
    rw [hdigits]
    exact takes_blanks hshows _
  · intro rest
    refine Refuses.orElse (Refuses.bind (refuses_longText ?_ ?_)) ?_
    · exact fun more => toDigits_append_ne_cons rfl
    · exact fun more => toDigits_append_ne_cons rfl
    · refine Refuses.orElse (Refuses.bind (refuses_shortText ?_ ?_)) ?_
      · exact fun more => toDigits_append_ne_cons rfl
      · exact fun more => toDigits_append_ne_cons rfl
      · refine (refuses_word fun more => toDigits_append_ne_cons rfl).bind.orElse ?_
        refine (refuses_word fun more => toDigits_append_ne_cons rfl).bind.orElse ?_
        exact refuses_moment.orElse (refuses_realNumber.orElse (takes_wholeNumber h))

/-- **Numbers of 63 bits, words and texts have forms that are read back.** -/
theorem Scalar.exists_readsBack {d : Document} (h : Scalar d) :
    ∃ form, inline d = .ok form ∧ ReadsBack form.toList d := by
  cases h with
  | boolean b =>
      cases b with
      | false => exact ⟨"false", rfl, fun rest => rfl, fun rest => rfl⟩
      | true => exact ⟨"true", rfl, fun rest => rfl, fun rest => rfl⟩
  | @integer n hn =>
      refine ⟨toString (n : Int), by rw [inline, if_pos hn], ?_⟩
      rw [show toString (n : Int) = toString n from rfl, Nat.toString_eq_ofList_toDigits,
        String.toList_ofList]
      exact readsBack_toDigits hn
  | text s => exact ⟨_, rfl, readsBack_quoted s⟩

/-! ### Lines -/

/-- The end of a line is taken. -/
theorem takes_lineEnd (rest : List Char) : Takes lineEnd ('\n' :: rest) () rest :=
  rfl

/-- **A line with a value is read back.** -/
theorem takes_valueLine {progress : Progress} {root : Entries} {name : String} {form : List Char}
    {d : Document} (h : ReadsBack form d)
    (hput : descend false progress.header (put [] name d) .header progress.root = some root)
    (rest : List Char) :
    Takes (valueLine progress)
      ((keyText name).toList ++ ' ' :: '=' :: ' ' :: (form ++ '\n' :: rest))
      ⟨root, progress.header⟩ rest := by
  have hkey : Takes key ((keyText name).toList ++ ' ' :: '=' :: ' ' :: (form ++ '\n' :: rest))
      ([], name) ('=' :: ' ' :: (form ++ '\n' :: rest)) := by
    rw [← dottedText_nil]
    exact takes_dottedKey [] name (by decide) (Text.stops_cons rfl) rfl (by simp)
  have hblanks : Takes blanks (' ' :: (form ++ '\n' :: rest)) () (form ++ '\n' :: rest) :=
    h.shows rest
  have hvalue : Takes (value depthLimit) (form ++ '\n' :: rest) d ('\n' :: rest) :=
    Takes.orElse (h.taken rest)
  refine Takes.bind (hkey.bind ((takes_char '=' _).bind (hblanks.bind
    (hvalue.bind (takes_pure _ _))))) ((takes_lineEnd rest).bind ?_)
  rw [hput]
  exact takes_pure _ rest

/-- **A line with a header is read back.** Behind a single bracket a key begins, so the header is
none of a list of tables. -/
theorem takes_headerLine {progress : Progress} {root : Entries} {path : List String}
    {name : String} (hdepth : path.length < depthLimit)
    (hopen : openTable path name .header progress.root = some root) (rest : List Char) :
    Takes (headerLine progress) ('[' :: ((dottedText path name).toList ++ ']' :: '\n' :: rest))
      ⟨root, path ++ [name]⟩ rest := by
  have hkey : Takes key ((dottedText path name).toList ++ ']' :: '\n' :: rest) (path, name)
      (']' :: '\n' :: rest) :=
    takes_dottedKey path name hdepth (Text.stops_cons rfl) (takes_blanks rfl _) (by simp)
  refine Refuses.orElse (Refuses.bind (refuses_word ?_)) ?_
  · obtain ⟨c, more, htext, hc⟩ := exists_toList_dottedText path name
    rw [htext]
    rintro _ ⟨⟩
    rcases hc with h | h <;> cases h
  · refine (takes_char '[' _).bind (hkey.bind ((takes_char ']' _).bind
      ((takes_lineEnd rest).bind ?_)))
    rw [hopen]
    exact takes_pure _ rest

/-! ### Several lines -/

/-- A text is taken line by line and leads from one progress to another, whatever follows. -/
def Advances (text : List Char) (progress next : Progress) : Prop :=
  ∃ k ≤ text.length, ∀ n rest,
    (lines (n + k) progress).run (text ++ rest) = (lines n next).run rest

/-- Without text there is no progress. -/
theorem advances_nil (progress : Progress) : Advances [] progress progress :=
  ⟨0, Nat.le_refl 0, fun _ _ => rfl⟩

/-- Progress on one text and then on another. -/
theorem Advances.append {text more : List Char} {first second third : Progress}
    (h : Advances text first second) (hmore : Advances more second third) :
    Advances (text ++ more) first third := by
  obtain ⟨k, hk, hrun⟩ := h
  obtain ⟨m, hm, hrun'⟩ := hmore
  refine ⟨m + k, by rw [List.length_append]; omega, fun n rest => ?_⟩
  rw [← Nat.add_assoc, List.append_assoc, hrun, hrun']

/-- A single line leads on. -/
theorem advances_of_run {c : Char} {text : List Char} {progress next : Progress}
    (h : ∀ n rest, (lines (n + 1) progress).run (c :: text ++ rest) = (lines n next).run rest) :
    Advances (c :: text) progress next :=
  ⟨1, by simp, h⟩

/-- A line that shows nothing leads on. -/
theorem advances_break (progress : Progress) : Advances ['\n'] progress progress :=
  advances_of_run fun _ _ => rfl

/-- The kind of a line follows from what it begins with. -/
theorem run_lines_cons {n : Nat} {progress : Progress} {c : Char} {text : List Char}
    (hc : isBlank c = false) :
    (lines (n + 1) progress).run (c :: text) =
      (if c = '[' then headerLine progress >>= lines n
        else if c = '#' ∨ c = '\n' ∨ c = '\r' then lineEnd >>= fun _ => lines n progress
        else valueLine progress >>= lines n).run (c :: text) :=
  (takes_blanks hc text).run_bind.trans (takes_get (c :: text)).run_bind

/-- A header opens its table. -/
theorem advances_header {progress : Progress} {root : Entries} (path : List String)
    (name : String) (hdepth : path.length < depthLimit)
    (hopen : openTable path name .header progress.root = some root) :
    Advances ('[' :: ((dottedText path name).toList ++ [']', '\n'])) progress
      ⟨root, path ++ [name]⟩ := by
  refine advances_of_run fun n rest => ?_
  have hline := takes_headerLine hdepth hopen rest
  rw [List.cons_append, List.append_assoc, run_lines_cons rfl, if_pos rfl]
  exact hline.run_bind

/-- A line with a key and a value enters the value. -/
theorem advances_value {progress : Progress} {root : Entries} (name : String) {form : List Char}
    {d : Document} (h : ReadsBack form d)
    (hput : descend false progress.header (put [] name d) .header progress.root = some root) :
    Advances ((keyText name).toList ++ ' ' :: '=' :: ' ' :: (form ++ ['\n'])) progress
      ⟨root, progress.header⟩ := by
  obtain ⟨c, more, htext, hc⟩ := exists_toList_keyText name
  rw [htext, List.cons_append]
  refine advances_of_run fun n rest => ?_
  have hline := takes_valueLine h hput rest
  rw [htext, List.cons_append] at hline
  have hheader : c ≠ '[' := by
    rintro rfl
    rcases hc with h | h <;> cases h
  have hnone : ¬ (c = '#' ∨ c = '\n' ∨ c = '\r') := by
    rintro (rfl | rfl | rfl) <;> rcases hc with h | h <;> cases h
  rw [List.cons_append, run_lines_cons hc.isBlank, if_neg hheader, if_neg hnone]
  simp only [List.append_assoc, List.cons_append, List.nil_append]
  exact hline.run_bind

/-- **All lines of a text are taken.** -/
theorem Advances.run_lines {text : List Char} {progress next : Progress}
    (h : Advances text progress next) :
    (lines (text.length + 1) progress).run text = some (next, []) := by
  obtain ⟨k, hk, hrun⟩ := h
  obtain ⟨n, hn⟩ : ∃ n, text.length + 1 = n + 1 + k := ⟨text.length - k, by omega⟩
  have hall := hrun (n + 1) []
  rw [List.append_nil] at hall
  rw [hn, hall]
  rfl

/-- A text that begins with a byte order mark is not taken line by line. -/
theorem run_lines_mark (n : Nat) (progress : Progress) (text : List Char) :
    (lines (n + 1) progress).run ('\uFEFF' :: text) = none := by
  rw [run_lines_cons rfl, if_neg (by decide), if_neg (by decide)]
  refine Refuses.bind (Refuses.bind (Refuses.bind ?_))
  refine (takes_blanks rfl text).bind_refuses (Refuses.bind (Refuses.orElse_refuses ?_ ?_))
  · exact refuses_shortText (by rintro _ ⟨⟩) (by rintro _ ⟨⟩)
  · exact Takes.bind_refuses (a := []) rfl (refuses_failure _)

/-- What the lines of a text lead to is what the text spells. -/
theorem read?_of_run {text : String} {entries : Entries} {header : List String}
    (h : (lines (text.toList.length + 1) ⟨[], []⟩).run text.toList = some (⟨entries, header⟩, [])) :
    read? text = some (.table (fieldsOf entries)) := by
  unfold read?
  split
  · next rest hmark =>
    rw [hmark, run_lines_mark] at h
    cases h
  · dsimp only
    rw [h]

end Dashboard.Toml
