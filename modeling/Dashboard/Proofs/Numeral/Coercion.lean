import Dashboard.Proofs.Numeral.Literal

/-!
# Texts as Numbers

A text that takes part in arithmetic stands for a number if it is blank, a word for infinity, a
hexadecimal number that fits in 64 bits or a decimal literal, blanks around it left out; every
other text is undefined. That is the law, and a text is read by it with one exception: a plus
sign between the mark and the digits of a hexadecimal number is passed over.

## Main results

* `trim_eq_iff` — what trimming leaves of a text.
* `natOfHex?_eq_some_iff` — the reader of hexadecimal digits takes exactly those.
* `existsUnique_reads` — the law gives every text exactly one number.
* `toNumber_text` — the number that a text is read as, and the exception.
-/

namespace Dashboard.Numeral

open Decimal (IsDigitOf Spells SpellsLiteral)
open Double (Nearest)

/-! ### The law -/

/-- What is left of a text without the blanks around it. -/
structure Trimmed (text core : List Char) : Prop where
  around : ∃ before behind, text = before ++ (core ++ behind) ∧
    ∀ c ∈ before ++ behind, Text.isBlank c = true
  first : Text.Stops Text.isBlank core
  last : Text.Stops Text.isBlank core.reverse

/-- One or more hexadecimal digits, and the number below `2 ^ 64` that they spell. -/
structure SpellsHex (digits : List Char) (n : ℕ) : Prop where
  nonempty : digits ≠ []
  spells : Spells 16 digits n
  fits : n < 2 ^ 64

/-- The mark of a hexadecimal number, behind a zero. -/
def IsMark (c : Char) : Prop :=
  c = 'x' ∨ c = 'X'

/-- The number that a text stands for, if it stands for one. -/
inductive Denotes : List Char → Float → Prop
  | blank : Denotes [] 0.0
  | infinity {core : List Char} :
      core = "Infinity".toList ∨ core = "+Infinity".toList → Denotes core (1.0 / 0.0)
  | negativeInfinity : Denotes "-Infinity".toList (-1.0 / 0.0)
  | hexadecimal {mark : Char} {digits : List Char} {n : ℕ} {x : Float} :
      IsMark mark → SpellsHex digits n → Nearest n x → Denotes ('0' :: mark :: digits) x
  | decimal {core : List Char} {l : Decimal.Literal} {x : Float} :
      SpellsLiteral core l → Nearest l.magnitude x → Denotes core (if l.negative then -x else x)

/-- A text is **read** as the number it stands for, and as undefined if it stands for none. -/
def Reads (core : List Char) (v : Float) : Prop :=
  Denotes core v ∨ (∀ x, ¬ Denotes core x) ∧ v = Double.undefined

/-- A plus sign between the mark and the digits of a hexadecimal number. -/
inductive PlusBehindMark : List Char → ℕ → Prop
  | plus {mark : Char} {digits : List Char} {n : ℕ} :
      IsMark mark → SpellsHex digits n → PlusBehindMark ('0' :: mark :: '+' :: digits) n

/-! ### Blanks -/

variable {text core digits rest : List Char} {c mark : Char} {d n : ℕ} {v x : Float}

/-- **What trimming leaves of a text.** -/
theorem trim_eq_iff : Text.trim text = core ↔ Trimmed text core := by
  constructor
  · rintro rfl
    set front := text.dropWhile Text.isBlank with hfront
    set behind := front.reverse.takeWhile Text.isBlank with hbehind
    have hcore : Text.trim text = (front.reverse.dropWhile Text.isBlank).reverse := rfl
    have hsplit : front = Text.trim text ++ behind.reverse := by
      rw [hcore, ← List.reverse_append, hbehind, List.takeWhile_append_dropWhile,
        List.reverse_reverse]
    refine ⟨⟨text.takeWhile Text.isBlank, behind.reverse, ?_, ?_⟩, ?_, ?_⟩
    · rw [← hsplit, hfront, List.takeWhile_append_dropWhile]
    · refine List.forall_mem_append.mpr ⟨fun c hc => List.mem_takeWhile_imp hc, fun c hc => ?_⟩
      exact List.mem_takeWhile_imp (List.mem_reverse.mp hc)
    · intro c hc
      refine Text.stops_dropWhile Text.isBlank text c ?_
      rw [← hfront, hsplit, List.head?_append, hc]
      rfl
    · rw [hcore, List.reverse_reverse]
      exact Text.stops_dropWhile _ _
  · rintro ⟨⟨before, behind, rfl, hblank⟩, hfirst, hlast⟩
    obtain ⟨hbefore, hbehind⟩ := List.forall_mem_append.mp hblank
    have hbehind' : ∀ c ∈ behind.reverse, Text.isBlank c = true :=
      fun c hc => hbehind c (List.mem_reverse.mp hc)
    rw [Text.trim, Text.trimStart_append_of_blank _ hbefore]
    rcases eq_or_ne core [] with rfl | hne
    · have hdrop : Text.trimStart behind = [] := by
        simpa [Text.trimStart] using hbehind
      rw [List.nil_append, hdrop]
      rfl
    · have hstops : Text.Stops Text.isBlank (core ++ behind) := by
        obtain ⟨c, more, rfl⟩ := List.exists_cons_of_ne_nil hne
        exact hfirst
      have hfront : Text.trimStart (core ++ behind) = core ++ behind := hstops.dropWhile
      have hback : Text.trimStart core.reverse = core.reverse := hlast.dropWhile
      rw [hfront, List.reverse_append, Text.trimStart_append_of_blank _ hbehind', hback,
        List.reverse_reverse]

/-! ### Hexadecimal numbers -/

/-- The reader of hexadecimal digits takes exactly these. -/
theorem hexDigit?_eq_some_iff : hexDigit? c = some d ↔ IsDigitOf 16 d c := by
  constructor
  · intro h
    rw [hexDigit?] at h
    split at h
    · next hrange =>
      cases h
      exact Decimal.of_mem_range hrange.1 hrange.2 (by decide)
    · split at h
      · next hrange =>
        cases h
        exact Decimal.of_mem_range (P := fun k => IsDigitOf 16 (k + 10)) hrange.1 hrange.2
          (by decide)
      · split at h
        · next hrange =>
          cases h
          exact Decimal.of_mem_range (P := fun k => IsDigitOf 16 (k + 10)) hrange.1 hrange.2
            (by decide)
        · cases h
  · rintro ⟨hd, h | h⟩
    all_goals
      interval_cases d
      all_goals
        cases h
        decide

/-- **The reader of hexadecimal digits takes exactly those.** -/
theorem natOfHex?_eq_some_iff : natOfHex? digits = some n ↔ digits ≠ [] ∧ Spells 16 digits n := by
  have hfold : digits.foldlM (fun n c => (hexDigit? c).map (16 * n + ·)) 0 = some n ↔
      Spells 16 digits n := by
    induction digits using List.reverseRecOn generalizing n with
    | nil =>
        rw [Decimal.spells_nil_iff]
        simp [eq_comm]
    | append_singleton text c ih =>
        simp only [List.foldlM_append, List.foldlM_cons, List.foldlM_nil, Option.bind_eq_bind,
          Option.bind_eq_some_iff, ih, Option.map_eq_some_iff, hexDigit?_eq_some_iff,
          Option.pure_def, Option.some_inj, Decimal.spells_snoc_iff]
        constructor
        · rintro ⟨k, hrun, _, ⟨d, hdigit, rfl⟩, rfl⟩
          exact ⟨k, d, hrun, hdigit, rfl⟩
        · rintro ⟨k, d, hrun, hdigit, rfl⟩
          exact ⟨k, hrun, _, ⟨d, hdigit, rfl⟩, rfl⟩
  rw [natOfHex?]
  split
  · next hempty => simp [List.isEmpty_iff.mp hempty]
  · next hempty => rw [hfold, ne_eq, ← List.isEmpty_iff, and_iff_right hempty]

/-- Hexadecimal digits spell one number only. -/
theorem SpellsHex.unique {k : ℕ} (h : SpellsHex digits n) (hk : SpellsHex digits k) : n = k :=
  Option.some.inj ((natOfHex?_eq_some_iff.mpr ⟨h.nonempty, h.spells⟩).symm.trans
    (natOfHex?_eq_some_iff.mpr ⟨hk.nonempty, hk.spells⟩))

/-- A plus sign is no hexadecimal digit. -/
theorem not_spellsHex_plus (digits : List Char) (n : ℕ) : ¬ SpellsHex ('+' :: digits) n := by
  rintro ⟨-, hspells, -⟩
  have h := natOfHex?_eq_some_iff.mpr ⟨List.cons_ne_nil '+' digits, hspells⟩
  cases h

/-- The digits of a hexadecimal number are behind a plus sign, if there is one. -/
def BehindPlus (text digits : List Char) : Prop :=
  text = '+' :: digits ∨ text = digits ∧ ∀ rest, text ≠ '+' :: rest

/-- Every text has a part behind its plus sign, or is that part itself. -/
theorem exists_behindPlus (text : List Char) : ∃ digits, BehindPlus text digits := by
  by_cases hplus : ∃ digits, text = '+' :: digits
  · exact hplus.imp fun _ => .inl
  · exact ⟨text, .inr ⟨rfl, not_exists.mp hplus⟩⟩

/-- A hexadecimal number is what the digits behind its plus sign denote. -/
theorem hexNumber_eq (h : BehindPlus text digits) :
    hexNumber text =
      ((natOfHex? digits).filter fun n => n < UInt64.size).elim Double.undefined Float.ofNat := by
  rcases h with rfl | ⟨rfl, hplus⟩
  on_goal 1 => rw [hexNumber.eq_1]
  on_goal 2 => rw [hexNumber.eq_2 text hplus]
  all_goals
    split
    · next n hn =>
      by_cases hfits : n < UInt64.size
      all_goals simp [hn, Option.filter, hfits]
    · next hn => rw [hn, Option.filter_none, Option.elim_none]

/-- **The reader of hexadecimal numbers** finds the number of the digits, and nothing else. -/
theorem hexNumber_spec (h : BehindPlus text digits) :
    (∃ n, SpellsHex digits n ∧ Nearest n (hexNumber text)) ∨
      (∀ n, ¬ SpellsHex digits n) ∧ hexNumber text = Double.undefined := by
  have hfilter (n : ℕ) : (natOfHex? digits).filter (fun n => n < UInt64.size) = some n ↔
      SpellsHex digits n := by
    rw [Option.filter_eq_some_iff, natOfHex?_eq_some_iff, decide_eq_true_eq]
    exact ⟨fun ⟨⟨hne, hspells⟩, hfits⟩ => ⟨hne, hspells, hfits⟩,
      fun ⟨hne, hspells, hfits⟩ => ⟨⟨hne, hspells⟩, hfits⟩⟩
  rw [hexNumber_eq h]
  cases hread : (natOfHex? digits).filter fun n => n < UInt64.size with
  | none =>
      refine .inr ⟨fun n hn => ?_, rfl⟩
      have hsome := (hfilter n).mpr hn
      rw [hread] at hsome
      cases hsome
  | some n => exact .inl ⟨n, (hfilter n).mp hread, Double.nearest_ofNat n⟩

/-! ### What texts stand for -/

/-- A text with the mark of a hexadecimal number is no decimal literal. -/
theorem literal?_marked (hmark : IsMark mark) (rest : List Char) :
    Decimal.literal? ('0' :: mark :: rest) = none := by
  rcases hmark with rfl | rfl
  all_goals rfl

/-- A marked text stands for its hexadecimal number only. -/
theorem denotes_marked_iff (hmark : IsMark mark) :
    Denotes ('0' :: mark :: rest) x ↔ ∃ n, SpellsHex rest n ∧ Nearest n x := by
  constructor
  · intro h
    generalize hcore : '0' :: mark :: rest = core at h
    cases h with
    | blank => cases hcore
    | infinity hword =>
        rcases hword with rfl | rfl
        all_goals cases hcore
    | negativeInfinity => cases hcore
    | hexadecimal _ hspells hnear =>
        cases hcore
        exact ⟨_, hspells, hnear⟩
    | decimal hspells =>
        have hsome := Decimal.literal?_eq_some_iff.mpr hspells
        rw [← hcore, literal?_marked hmark] at hsome
        cases hsome
  · rintro ⟨n, hspells, hnear⟩
    exact .hexadecimal hmark hspells hnear

/-- A literal stands for its own number only. -/
theorem denotes_literal_iff {l : Decimal.Literal} (hread : Decimal.literal? core = some l) :
    Denotes core x ↔ ∃ y, Nearest l.magnitude y ∧ x = if l.negative then -y else y := by
  constructor
  · intro h
    cases h with
    | blank => cases hread
    | infinity hword =>
        rcases hword with rfl | rfl
        all_goals cases hread
    | negativeInfinity => cases hread
    | hexadecimal hmark =>
        rw [literal?_marked hmark] at hread
        cases hread
    | decimal hspells hnear =>
        have hsome := Decimal.literal?_eq_some_iff.mpr hspells
        obtain rfl := Option.some.inj (hread.symm.trans hsome)
        exact ⟨_, hnear, rfl⟩
  · rintro ⟨y, hnear, rfl⟩
    exact .decimal (Decimal.literal?_eq_some_iff.mp hread) hnear

/-- The number of a blank text and of the words for infinity. -/
def word? (core : List Char) : Option Float :=
  if core = [] then some 0.0
  else if core = "Infinity".toList ∨ core = "+Infinity".toList then some (1.0 / 0.0)
  else if core = "-Infinity".toList then some (-1.0 / 0.0)
  else none

/-- A text that is neither a literal nor marked stands for the number of a blank or a word only. -/
theorem denotes_word_iff (hread : Decimal.literal? core = none)
    (hmark : ∀ mark rest, IsMark mark → core ≠ '0' :: mark :: rest) :
    Denotes core x ↔ word? core = some x := by
  constructor
  · intro h
    cases h with
    | blank => rfl
    | infinity hword =>
        rcases hword with rfl | rfl
        all_goals rfl
    | negativeInfinity => rfl
    | hexadecimal h => exact absurd rfl (hmark _ _ h)
    | decimal hspells =>
        have hsome := Decimal.literal?_eq_some_iff.mpr hspells
        rw [hread] at hsome
        cases hsome
  · intro h
    rw [word?] at h
    split at h
    · next hblank =>
      cases h
      rw [hblank]
      exact .blank
    · split at h
      · next hword =>
        cases h
        exact .infinity hword
      · split at h
        · next hword =>
          cases h
          rw [hword]
          exact .negativeInfinity
        · cases h

/-- **A text stands for one number at most.** -/
theorem Denotes.unique (h : Denotes core v) (h' : Denotes core x) : v = x := by
  by_cases hmark : ∃ mark rest, IsMark mark ∧ core = '0' :: mark :: rest
  · obtain ⟨mark, rest, hmark, rfl⟩ := hmark
    obtain ⟨n, hn, hnear⟩ := (denotes_marked_iff hmark).mp h
    obtain ⟨k, hk, hnear'⟩ := (denotes_marked_iff hmark).mp h'
    obtain rfl := hn.unique hk
    exact hnear.unique n.cast_nonneg hnear'
  · have hmark' : ∀ mark rest, IsMark mark → core ≠ '0' :: mark :: rest :=
      fun mark rest h heq => hmark ⟨mark, rest, h, heq⟩
    cases hread : Decimal.literal? core with
    | none =>
        rw [denotes_word_iff hread hmark'] at h h'
        exact Option.some.inj (h.symm.trans h')
    | some l =>
        obtain ⟨y, hnear, rfl⟩ := (denotes_literal_iff hread).mp h
        obtain ⟨z, hnear', rfl⟩ := (denotes_literal_iff hread).mp h'
        rw [hnear.unique l.magnitude_nonneg hnear']

/-- **The law gives every text exactly one number.** -/
theorem existsUnique_reads (core : List Char) : ∃! v, Reads core v := by
  by_cases h : ∃ x, Denotes core x
  · obtain ⟨x, hx⟩ := h
    refine ⟨x, .inl hx, ?_⟩
    rintro v (hv | ⟨hnone, -⟩)
    · exact hv.unique hx
    · exact absurd hx (hnone x)
  · refine ⟨Double.undefined, .inr ⟨not_exists.mp h, rfl⟩, ?_⟩
    rintro v (hv | ⟨-, hv⟩)
    · exact absurd ⟨v, hv⟩ h
    · exact hv

/-! ### What texts are read as -/

/-- What is nearest to a number is not undefined. -/
theorem ne_undefined_of_nearest {q : ℚ} (h : Nearest q x) : x ≠ Double.undefined := by
  rintro rfl
  rw [Nearest] at h
  split at h
  · obtain ⟨v, hv, -⟩ := h
    cases hv
  · exact absurd h (by decide)

/-- **A marked text** is read as the law says, but for a plus sign behind its mark. -/
theorem reads_hexNumber (hmark : IsMark mark) (rest : List Char) :
    (Reads ('0' :: mark :: rest) (hexNumber rest) ↔ ∀ n, ¬ PlusBehindMark ('0' :: mark :: rest) n) ∧
      ∀ n, PlusBehindMark ('0' :: mark :: rest) n → Nearest n (hexNumber rest) := by
  obtain ⟨digits, hdigits⟩ := exists_behindPlus rest
  have hspec := hexNumber_spec hdigits
  rcases hdigits with rfl | ⟨rfl, hplus⟩
  · have hnone (x : Float) : ¬ Denotes ('0' :: mark :: '+' :: digits) x := by
      rw [denotes_marked_iff hmark]
      rintro ⟨n, hn, -⟩
      exact not_spellsHex_plus digits n hn
    rcases hspec with ⟨n, hn, hnear⟩ | ⟨hfail, hundefined⟩
    · refine ⟨iff_of_false ?_ fun h => h n (.plus hmark hn), ?_⟩
      · rintro (h | ⟨-, h⟩)
        · exact hnone _ h
        · exact ne_undefined_of_nearest hnear h
      · rintro _ ⟨-, hk⟩
        exact hn.unique hk ▸ hnear
    · refine ⟨iff_of_true (.inr ⟨hnone, hundefined⟩) ?_, ?_⟩
      · rintro n ⟨-, hn⟩
        exact hfail n hn
      · rintro n ⟨-, hn⟩
        exact absurd hn (hfail n)
  · have hnot (n : ℕ) : ¬ PlusBehindMark ('0' :: mark :: rest) n := by
      intro h
      generalize hcore : '0' :: mark :: rest = core at h
      cases h with
      | plus =>
          cases hcore
          exact hplus _ rfl
    refine ⟨iff_of_true ?_ hnot, fun n hn => absurd hn (hnot n)⟩
    rcases hspec with hread | ⟨hfail, hundefined⟩
    · exact .inl ((denotes_marked_iff hmark).mpr hread)
    · refine .inr ⟨fun x hx => ?_, hundefined⟩
      obtain ⟨n, hn, -⟩ := (denotes_marked_iff hmark).mp hx
      exact hfail n hn

/-- **A text that is not marked** is read as the law says. -/
theorem reads_literal (hmark : ∀ mark rest, IsMark mark → core ≠ '0' :: mark :: rest)
    (hword : word? core = none) :
    Reads core ((Decimal.ofLiteral? core).getD Double.undefined) := by
  rw [Decimal.ofLiteral?]
  cases hread : Decimal.literal? core with
  | none =>
      refine .inr ⟨fun x h => ?_, rfl⟩
      rw [denotes_word_iff hread hmark, hword] at h
      cases h
  | some l => exact .inl ((denotes_literal_iff hread).mpr l.exists_nearest_toDouble)

/-- A text that is read as the law says, and is not marked, has no plus sign behind its mark. -/
theorem reads_iff_of_unmarked (hmark : ∀ mark rest, IsMark mark → core ≠ '0' :: mark :: rest)
    (h : Reads core v) :
    (Reads core v ↔ ∀ n, ¬ PlusBehindMark core n) ∧ ∀ n, PlusBehindMark core n → Nearest n v := by
  have hnot (n : ℕ) : ¬ PlusBehindMark core n := by
    rintro ⟨hplus, -⟩
    exact hmark _ _ hplus rfl
  exact ⟨iff_of_true h hnot, fun n hn => absurd hn (hnot n)⟩

/-- **The number that a text is read as**: it is the one that the law gives, unless a plus sign is
between the mark and the digits of a hexadecimal number, which is passed over. -/
theorem toNumber_text (s : String) :
    ∃ core, Trimmed s.toList core ∧ (∃! v, Reads core v) ∧
      (Reads core (Value.text s).toNumber ↔ ∀ n, ¬ PlusBehindMark core n) ∧
      ∀ n, PlusBehindMark core n → Nearest n (Value.text s).toNumber := by
  refine ⟨Text.trim s.toList, trim_eq_iff.mp rfl, existsUnique_reads _, ?_⟩
  rw [Value.toNumber, numericText]
  generalize Text.trim s.toList = core
  split
  · exact reads_iff_of_unmarked (fun _ _ _ => List.cons_ne_nil _ _ |>.symm) (.inl .blank)
  · exact reads_hexNumber (.inl rfl) _
  · exact reads_hexNumber (.inr rfl) _
  · next hblank hx hX =>
    have hmark : ∀ mark rest, IsMark mark → core ≠ '0' :: mark :: rest := by
      rintro _ rest (rfl | rfl)
      · exact hx rest
      · exact hX rest
    refine reads_iff_of_unmarked hmark ?_
    split
    · next hword => exact .inl (.infinity hword)
    · next hword =>
      split
      · next hnegative =>
        rw [hnegative]
        exact .inl .negativeInfinity
      · next hnegative =>
        refine reads_literal hmark ?_
        rw [word?, if_neg hblank, if_neg hword, if_neg hnegative]

/-- The law makes no number of a plus sign behind the mark; the reader makes sixteen of it. -/
theorem toNumber_plus_behind_mark :
    (Value.text "0x+10").toNumber = 16.0 ∧
      ∀ core, Trimmed "0x+10".toList core → ¬ Reads core (Value.text "0x+10").toNumber := by
  refine ⟨by decide +kernel, fun core hcore hreads => ?_⟩
  obtain rfl : "0x+10".toList = core := trim_eq_iff.mpr hcore
  have hdigits : SpellsHex "10".toList 16 := by
    obtain ⟨hne, hspells⟩ := natOfHex?_eq_some_iff.mp (rfl : natOfHex? "10".toList = some 16)
    exact ⟨hne, hspells, by norm_num⟩
  exact (reads_hexNumber (.inl rfl) "+10".toList).1.mp hreads 16 (.plus (.inl rfl) hdigits)

end Dashboard.Numeral
