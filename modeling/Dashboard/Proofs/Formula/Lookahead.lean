import Dashboard.Proofs.Document.Digits
import Dashboard.Proofs.Formula.Mark

/-!
# How Far the Scanner Looks

The scanner looks a few characters past the end of a token before it ends the token there: one
for an operator or a name, up to three for a number, whose exponent needs a digit behind its
letter and sign. All that these characters may do is to end the token.

So a token stays the same if the text behind it is **curtailed**: if it agrees with what was there
up to a place where it ends or goes on with a blank. Each kind of token has one lemma for that,
which splits the text behind the token's first character into the piece that the token takes and
what is left.

## Main results

* `Curtails.prefix` — what is visible in front of a curtailed text was there before.
* `exponentLength_cases`, `exponentLength_append` — which exponents a number takes.
* `exists_piece_of_lexeme` — a token takes a piece of the text, whatever curtails the rest of it.
* `lexeme_curtail` — the same for a piece that is known.
-/

namespace Dashboard.Formula

open Text (isBlank isDigit isLetter byteLength Stops)

/-! ### Runs of characters -/

/-- Every text is a run of characters with a property and what the run stops at. -/
theorem exists_run (p : Char → Bool) (text : List Char) :
    ∃ run rest, text = run ++ rest ∧ (∀ c ∈ run, p c = true) ∧ Stops p rest := by
  exact ⟨_, _, (List.takeWhile_append_dropWhile (p := p)).symm,
    List.all_eq_true.mp List.all_takeWhile, Text.stops_dropWhile p text⟩

/-- A run that the text begins with is not empty. -/
theorem exists_run_cons {p : Char → Bool} {first : Char} (h : p first = true) (text : List Char) :
    ∃ run rest, first :: text = run ++ rest ∧ run ≠ [] ∧ (∀ c ∈ run, p c = true) ∧ Stops p rest := by
  obtain ⟨run, rest, rfl, hrun, hrest⟩ := exists_run p text
  exact ⟨first :: run, rest, rfl, by simp, List.forall_mem_cons.mpr ⟨h, hrun⟩, hrest⟩

/-! ### Curtailed texts -/

/-- A text **curtails** another one if it agrees with it up to a place where it ends or goes on
with a blank. -/
def Curtails (left left' : List Char) : Prop :=
  ∃ kept more, kept <+: left ∧ left' = kept ++ more ∧ ∀ c ∈ more.head?, isBlank c = true

/-- A text curtails itself. -/
theorem curtails_self (left : List Char) : Curtails left left :=
  ⟨left, [], List.prefix_rfl, (List.append_nil left).symm, nofun⟩

/-- Nothing at all curtails a text, and so does what begins with a blank. -/
theorem curtails_of_blank (left : List Char) {more : List Char}
    (h : ∀ c ∈ more.head?, isBlank c = true) : Curtails left more :=
  ⟨[], more, List.nil_prefix, rfl, h⟩

/-- What stands in front of both does not matter. -/
theorem Curtails.append {left left' : List Char} (h : Curtails left left') (read : List Char) :
    Curtails (read ++ left) (read ++ left') := by
  obtain ⟨kept, more, hkept, rfl, hmore⟩ := h
  exact ⟨read ++ kept, more, (List.prefix_append_right_inj read).mpr hkept, by simp, hmore⟩

/-- What a curtailed text begins with is visible only if the text began with it before. -/
theorem Curtails.prefix {left left' start : List Char} (h : Curtails left left')
    (hstart : start <+: left') (hvisible : ∀ c ∈ start, isBlank c = false) : start <+: left := by
  obtain ⟨kept, more, hkept, rfl, hmore⟩ := h
  refine List.IsPrefix.trans ?_ hkept
  rcases List.prefix_or_prefix_of_prefix hstart (List.prefix_append kept more) with h | ⟨others, rfl⟩
  · exact h
  · cases others with
    | nil => simp
    | cons c others =>
        obtain ⟨rest, rfl⟩ := (List.prefix_append_right_inj kept).mp hstart
        have hblank := hmore c rfl
        rw [hvisible c (by simp)] at hblank
        cases hblank

/-- Characters that are not blank do not go on in a curtailed text if they did not before. -/
theorem Curtails.stops {left left' : List Char} (h : Curtails left left') {p : Char → Bool}
    (hp : ∀ c, isBlank c = true → p c = false) (hleft : Stops p left) : Stops p left' := by
  intro c hc
  cases hblank : isBlank c with
  | true => exact hp c hblank
  | false =>
      have hprefix : [c] <+: left' := by
        obtain ⟨rest, rfl⟩ := List.head?_eq_some_iff.mp hc
        exact ⟨rest, rfl⟩
      obtain ⟨rest, rfl⟩ := h.prefix hprefix (by simpa using hblank)
      exact hleft c rfl

/-! ### Blanks end every token -/

/-- The codes of the blank characters. -/
def blankCodes : List Nat :=
  [9, 10, 11, 12, 13, 32, 0x85, 0xA0, 0x1680, 0x2000, 0x2001, 0x2002, 0x2003, 0x2004, 0x2005,
    0x2006, 0x2007, 0x2008, 0x2009, 0x200A, 0x2028, 0x2029, 0x202F, 0x205F, 0x3000]

/-- Every blank has one of the codes. -/
theorem toNat_mem_blankCodes {c : Char} (h : isBlank c = true) : c.toNat ∈ blankCodes := by
  simp only [isBlank, Bool.or_eq_true, Bool.and_eq_true, decide_eq_true_eq, beq_iff_eq] at h
  simp only [blankCodes, List.mem_cons, List.not_mem_nil, or_false]
  omega

/-- A property of characters that no blank has is checked on their codes. -/
theorem not_of_isBlank {p : Char → Bool} (hp : ∀ n ∈ blankCodes, p (Char.ofNat n) = false) (c : Char)
    (h : isBlank c = true) : p c = false := by
  have hcode := hp c.toNat (toNat_mem_blankCodes h)
  rwa [Char.ofNat_toNat] at hcode

/-- A blank is no part of a name. -/
theorem isNameChar_of_isBlank : ∀ c, isBlank c = true → isNameChar c = false :=
  not_of_isBlank (by decide +kernel)

/-- A blank is no digit. -/
theorem isDigit_of_isBlank : ∀ c, isBlank c = true → isDigit c = false :=
  not_of_isBlank (by decide +kernel)

/-- A blank is no part of a number. -/
theorem isNumberChar_of_isBlank : ∀ c, isBlank c = true → isNumberChar c = false :=
  not_of_isBlank (by decide +kernel)

/-! ### Numbers -/

/-- The **exponent** of a number: its letter, an optional sign and at least one digit. -/
def IsExponent (exponent : List Char) : Prop :=
  ∃ letter sign digits, exponent = letter :: (sign ++ digits) ∧ (letter = 'e' ∨ letter = 'E') ∧
    (sign = [] ∨ sign = ['+'] ∨ sign = ['-']) ∧ digits ≠ [] ∧ ∀ d ∈ digits, isDigit d = true

/-- An exponent without a sign is its letter and the run of digits behind it. -/
theorem exponentLength_unsigned {letter d : Char} (hletter : letter = 'e' ∨ letter = 'E')
    (hd : isDigit d = true) (more : List Char) :
    exponentLength (letter :: d :: more) = 1 + ((d :: more).takeWhile isDigit).length := by
  have hsign : ¬ (d = '+' ∨ d = '-') := by rintro (rfl | rfl) <;> cases hd
  cases more <;> simp [exponentLength, hletter, hsign, hd]

/-- An exponent with a sign is its letter, the sign and the run of digits behind it. -/
theorem exponentLength_signed {letter s d : Char} (hletter : letter = 'e' ∨ letter = 'E')
    (hs : s = '+' ∨ s = '-') (hd : isDigit d = true) (more : List Char) :
    exponentLength (letter :: s :: d :: more) = 2 + ((d :: more).takeWhile isDigit).length := by
  simp [exponentLength, hletter, hs, hd]

/-- An exponent takes all digits that follow. -/
theorem exponentLength_append {exponent : List Char} (h : IsExponent exponent)
    (more : List Char) :
    exponentLength (exponent ++ more) = exponent.length + (more.takeWhile isDigit).length := by
  obtain ⟨letter, sign, digits, rfl, hletter, hsign, hne, hdigits⟩ := h
  obtain ⟨d, digits, rfl⟩ := List.exists_cons_of_ne_nil hne
  have hd : isDigit d = true := hdigits d (by simp)
  have hrun : ((d :: (digits ++ more)).takeWhile isDigit).length
      = digits.length + 1 + (more.takeWhile isDigit).length := by
    rw [← List.cons_append, List.takeWhile_append_of_pos hdigits, List.length_append,
      List.length_cons]
  rcases hsign with rfl | rfl | rfl
  · simp [exponentLength_unsigned hletter hd, hrun]
    omega
  · simp [exponentLength_signed hletter (.inl rfl) hd, hrun]
    omega
  · simp [exponentLength_signed hletter (.inr rfl) hd, hrun]
    omega

/-- A text has no exponent in front, or it splits behind all digits of its exponent. -/
theorem exponentLength_cases (text : List Char) :
    exponentLength text = 0 ∨
      ∃ exponent more, text = exponent ++ more ∧ IsExponent exponent ∧ Stops isDigit more := by
  fun_cases exponentLength text with
  | case2 e hletter s d rest hs hd =>
      obtain ⟨digits, more, hsplit, hne, hdigits, hmore⟩ := exists_run_cons hd rest
      refine .inr ⟨e :: s :: digits, more, by simp [hsplit], ⟨e, [s], digits, rfl, hletter, ?_, hne,
        hdigits⟩, hmore⟩
      simpa using hs
  | case4 e hletter s d rest hs hd =>
      obtain ⟨digits, more, hsplit, hne, hdigits, hmore⟩ := exists_run_cons hd (d :: rest)
      exact .inr ⟨e :: digits, more, by simp [hsplit], ⟨e, [], digits, rfl, hletter, .inl rfl, hne,
        hdigits⟩, hmore⟩
  | case6 e hletter d hd =>
      refine .inr ⟨[e, d], [], rfl, ⟨e, [], [d], rfl, hletter, .inl rfl, by simp, ?_⟩, nofun⟩
      simpa using hd
  | _ => exact .inl rfl

/-- No exponent is in front of a curtailed text unless there was one before. -/
theorem exponentLength_eq_zero_of_curtails {left left' : List Char} (h : Curtails left left')
    (hleft : exponentLength left = 0) : exponentLength left' = 0 := by
  rcases exponentLength_cases left' with hzero | ⟨exponent, more, rfl, hexponent, -⟩
  · exact hzero
  · have hvisible : ∀ c ∈ exponent, isBlank c = false := by
      obtain ⟨letter, sign, digits, rfl, hletter, hsign, -, hdigits⟩ := hexponent
      intro c hc
      rw [List.mem_cons, List.mem_append] at hc
      rcases hc with rfl | hc | hc
      · rcases hletter with rfl | rfl <;> rfl
      · rcases hsign with rfl | rfl | rfl <;> simp at hc <;> subst hc <;> rfl
      · exact Text.isBlank_of_isDigit (hdigits c hc)
    obtain ⟨rest, rfl⟩ := h.prefix (List.prefix_append exponent more) hvisible
    rw [exponentLength_append hexponent] at hleft
    obtain ⟨letter, sign, digits, rfl, -⟩ := hexponent
    simp at hleft

/-- A run of digits and points with an exponent or without one, in front of a text. -/
theorem numberLength_append {run : List Char} (hrun : ∀ c ∈ run, isNumberChar c = true)
    {rest : List Char} (hrest : Stops isNumberChar rest) :
    numberLength (run ++ rest) = run.length + exponentLength rest := by
  rw [numberLength, Text.takeWhile_of_stops hrun hrest, Text.dropWhile_of_stops hrun hrest]

/-- **A number ends at the same place** when what follows it is curtailed. -/
theorem exists_piece_of_number (rest : List Char) :
    ∃ piece left, rest = piece ++ left ∧
      ∀ left', Curtails left left' → numberLength (piece ++ left') = piece.length := by
  obtain ⟨run, tail, rfl, hrun, htail⟩ := exists_run isNumberChar rest
  rcases exponentLength_cases tail with hzero | ⟨exponent, more, rfl, hexponent, hmore⟩
  · refine ⟨run, tail, rfl, fun left' h => ?_⟩
    rw [numberLength_append hrun (h.stops isNumberChar_of_isBlank htail),
      exponentLength_eq_zero_of_curtails h hzero, Nat.add_zero]
  · refine ⟨run ++ exponent, more, by simp, fun left' h => ?_⟩
    have hletter : Stops isNumberChar (exponent ++ left') := by
      obtain ⟨letter, sign, digits, rfl, -⟩ := hexponent
      exact htail
    rw [List.append_assoc, numberLength_append hrun hletter, exponentLength_append hexponent,
      (h.stops isDigit_of_isBlank hmore).takeWhile, List.length_append, List.length_nil,
      Nat.add_zero]

/-! ### Every token -/

variable {offset : Nat} {first : Char} {rest : List Char} {l : Lexeme}

/-- A character that neither is a backslash at the end of a text nor begins an escape is no
backslash. -/
theorem ne_of_not_escape {c : Char} (hlone : c = '\\' → rest = [] → False)
    (hescape : ∀ d more, c = '\\' → rest = d :: more → False) : c ≠ '\\' := by
  rintro rfl
  cases rest with
  | nil => exact hlone rfl rfl
  | cons d more => exact hescape d more rfl rfl

/-- What is not an escape in a quoted text is the last quote or stands for itself. -/
theorem quotedText_cons (start : Nat) (quote : Char) (offset : Nat) {c : Char} (hc : c ≠ '\\')
    (rest : List Char) :
    quotedText start quote offset (c :: rest) =
      if c = quote then .ok ([], 1)
      else (quotedText start quote (offset + c.utf8Size) rest).map fun quoted =>
        (c :: quoted.1, quoted.2 + 1) := by
  rw [quotedText]
  · split
    · rfl
    · cases quotedText start quote (offset + c.utf8Size) rest <;> rfl
  · exact fun h _ => hc h
  · exact fun _ _ h _ => hc h

/-- A quoted text ends at its last quote. -/
theorem exists_piece_of_quotedText {start : Nat} {quote : Char} {value : List Char}
    {length : Nat} (h : quotedText start quote offset rest = .ok (value, length)) :
    ∃ piece left, rest = piece ++ left ∧ length = piece.length ∧
      ∀ left', quotedText start quote offset (piece ++ left') = .ok (value, length) := by
  fun_induction quotedText start quote offset rest generalizing value length with
  | case1 => cases h
  | case2 => cases h
  | case3 => cases h
  | case4 offset c rest d hescape ih =>
      obtain ⟨⟨value, length⟩, hrest, h⟩ := Grammar.bind_eq_ok.mp h
      cases h
      obtain ⟨piece, left, rfl, rfl, hpiece⟩ := ih hrest
      refine ⟨'\\' :: c :: piece, left, rfl, rfl, fun left' => ?_⟩
      rw [List.cons_append, List.cons_append, quotedText, hescape]
      exact Grammar.bind_eq_ok.mpr ⟨_, hpiece left', rfl⟩
  | case5 offset rest hlone hescape =>
      cases h
      refine ⟨[quote], rest, rfl, rfl, fun left' => ?_⟩
      rw [List.singleton_append, quotedText_cons _ _ _ (ne_of_not_escape hlone hescape), if_pos rfl]
  | case6 offset c rest hlone hescape hquote ih =>
      obtain ⟨⟨value, length⟩, hrest, h⟩ := Grammar.bind_eq_ok.mp h
      cases h
      obtain ⟨piece, left, rfl, rfl, hpiece⟩ := ih hrest
      refine ⟨c :: piece, left, rfl, rfl, fun left' => ?_⟩
      rw [List.cons_append, quotedText_cons _ _ _ (ne_of_not_escape hlone hescape), if_neg hquote,
        hpiece left']
      rfl

/-- A name ends at the first character that no name has. -/
theorem exists_piece_of_name (first : Char) (rest : List Char) :
    ∃ piece left, rest = piece ++ left ∧
      ∀ left', Curtails left left' → nameLexeme first (piece ++ left') =
        ⟨.name (String.ofList (first :: piece)), piece.length⟩ := by
  obtain ⟨run, left, rfl, hrun, hleft⟩ := exists_run isNameChar rest
  refine ⟨run, left, rfl, fun left' h => ?_⟩
  rw [nameLexeme, Text.takeWhile_of_stops hrun (h.stops isNameChar_of_isBlank hleft)]

/-- No operator has a blank as its second character. -/
theorem isBlank_of_compound? {op : Compound} (h : compound? first = some op) :
    ∀ pair ∈ op.pairs, isBlank pair.1 = false := by
  rw [compound?] at h
  repeat' split at h
  all_goals cases h
  all_goals simp
  all_goals decide

/-- An operator that goes on looks at its second character only. -/
theorem Compound.lexeme_cons (offset : Nat) {op : Compound} {pair : Char × Token.Kind}
    {rest : List Char} (h : (op.pairs.find? fun pair => rest.head? = some pair.1) = some pair) :
    op.lexeme offset rest = .ok ⟨pair.2, 1⟩ := by
  rw [Compound.lexeme, h]

/-- An operator that does not go on stands alone, whatever follows. -/
theorem Compound.lexeme_alone (offset : Nat) {op : Compound} {rest : List Char}
    (h : ∀ pair ∈ op.pairs, rest.head? ≠ some pair.1) :
    op.lexeme offset rest =
      (op.alone.mapError fun half => ⟨offset, .halfOperator half.1 half.2⟩).map (⟨·, 0⟩) := by
  have hnone : (op.pairs.find? fun pair => rest.head? = some pair.1) = none := by simpa using h
  rw [Compound.lexeme, hnone]
  cases op.alone with
  | error half => rfl
  | ok kind => rfl

/-- An operator takes its second character with it. -/
theorem exists_piece_of_compound {op : Compound} (hop : compound? first = some op)
    (h : op.lexeme offset rest = .ok l) :
    ∃ piece left, rest = piece ++ left ∧ l.more = piece.length ∧
      ∀ left', Curtails left left' → op.lexeme offset (piece ++ left') = .ok l := by
  cases hfind : op.pairs.find? fun pair => rest.head? = some pair.1 with
  | some pair =>
      have hhead : rest.head? = some pair.1 := by simpa using List.find?_some hfind
      obtain ⟨more, rfl⟩ := List.head?_eq_some_iff.mp hhead
      rw [Compound.lexeme_cons offset hfind] at h
      cases h
      exact ⟨[pair.1], more, rfl, rfl, fun left' _ => Compound.lexeme_cons offset hfind⟩
  | none =>
      have hnone : ∀ pair ∈ op.pairs, rest.head? ≠ some pair.1 := by simpa using hfind
      rw [Compound.lexeme_alone offset hnone] at h
      refine ⟨[], rest, rfl, ?_, fun left' hleft => ?_⟩
      · cases halone : op.alone with
        | error half => rw [halone] at h; cases h
        | ok kind => rw [halone] at h; cases h; rfl
      · rw [List.nil_append, ← h]
        refine Compound.lexeme_alone offset fun pair hpair hhead => ?_
        obtain ⟨more, rfl⟩ := List.head?_eq_some_iff.mp hhead
        obtain ⟨dropped, rfl⟩ := hleft.prefix (List.prefix_append [pair.1] more)
          (by simpa using isBlank_of_compound? hop pair hpair)
        exact hnone pair hpair rfl

/-- The number that begins with a character is one with a digit or with a point and a digit. -/
theorem exists_piece_of_numberLexeme (h : numberLexeme offset first rest = .ok l) :
    ∃ piece left, rest = piece ++ left ∧ l.more = piece.length ∧
      (first = '.' → piece ≠ []) ∧
      ∀ left', Curtails left left' → numberLexeme offset first (piece ++ left') = .ok l := by
  obtain ⟨piece, left, rfl, hpiece⟩ := exists_piece_of_number rest
  have hself := hpiece left (curtails_self left)
  simp only [numberLexeme, hself, List.take_left] at h
  cases hvalue : Decimal.ofLiteral? (first :: piece) with
  | none => rw [hvalue] at h; cases h
  | some value =>
      rw [hvalue] at h
      cases h
      refine ⟨piece, left, rfl, rfl, ?_, fun left' hleft => ?_⟩
      · rintro rfl rfl
        cases hvalue
      · simp only [numberLexeme, hpiece left' hleft, List.take_left, hvalue]

/-- A token takes a piece of the text, whatever curtails the rest of it. -/
theorem exists_piece_of_lexeme (h : lexeme offset first rest = .ok l) :
    ∃ piece left, rest = piece ++ left ∧ l.more = piece.length ∧
      ∀ left', Curtails left left' → lexeme offset first (piece ++ left') = .ok l := by
  simp only [lexeme] at h ⊢
  cases hsymbol : symbol? first with
  | some kind =>
      rw [hsymbol] at h
      cases h
      exact ⟨[], rest, rfl, rfl, fun _ _ => rfl⟩
  | none =>
      rw [hsymbol] at h
      cases hcompound : compound? first with
      | some op =>
          rw [hcompound] at h
          exact exists_piece_of_compound hcompound h
      | none =>
          rw [hcompound] at h
          dsimp only at h ⊢
          split at h
          · next hquote =>
            rw [textLexeme] at h
            obtain ⟨⟨value, length⟩, hquoted, h⟩ := Grammar.bind_eq_ok.mp h
            cases h
            obtain ⟨piece, left, rfl, rfl, hpiece⟩ := exists_piece_of_quotedText hquoted
            refine ⟨piece, left, rfl, rfl, fun left' _ => ?_⟩
            rw [if_pos hquote, textLexeme]
            exact Grammar.bind_eq_ok.mpr ⟨_, hpiece left', rfl⟩
          · next hquote =>
            simp only [if_neg hquote]
            split at h
            · next hnumber =>
              obtain ⟨piece, left, rfl, hmore, hpoint, hpiece⟩ := exists_piece_of_numberLexeme h
              refine ⟨piece, left, rfl, hmore, fun left' hleft => ?_⟩
              rw [if_pos]
              · exact hpiece left' hleft
              · by_cases hdot : first = '.'
                · obtain ⟨d, piece, rfl⟩ := List.exists_cons_of_ne_nil (hpoint hdot)
                  exact hnumber
                · simpa [hdot] using hnumber
            · next hnumber =>
              split at h
              · next hname =>
                cases h
                obtain ⟨piece, left, rfl, hpiece⟩ := exists_piece_of_name first rest
                have hdot : first ≠ '.' := by
                  rintro rfl
                  cases hname
                rw [hpiece left (curtails_self left)]
                refine ⟨piece, left, rfl, rfl, fun left' hleft => ?_⟩
                rw [if_neg (by simpa [hdot] using hnumber), if_pos hname, hpiece left' hleft]
              · cases h

/-- **A token is the same in front of every curtailed text**, and anywhere in the source. -/
theorem lexeme_curtail {offset' : Nat} {kind : Token.Kind} {piece left left' : List Char}
    (h : lexeme offset first (piece ++ left) = .ok ⟨kind, piece.length⟩)
    (hleft : Curtails left left') :
    lexeme offset' first (piece ++ left') = .ok ⟨kind, piece.length⟩ := by
  obtain ⟨piece', left'', hsplit, hlength, hpiece⟩ := exists_piece_of_lexeme h
  obtain ⟨rfl, rfl⟩ := List.append_inj hsplit hlength
  exact ((lexeme_inStep offset offset' first _).ok_iff _).mp (hpiece left' hleft)

end Dashboard.Formula
