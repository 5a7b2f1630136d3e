import Dashboard.Proofs.Formula.Lockstep

/-!
# The Mark of a Formula

In the simplified dialect a formula may have a mark in front, an equals sign. The reader drops
it as a token, so blanks may stand around it, and two equals signs without a blank between
them are no mark but an operator.

A text is read the same wherever it stands in its source. So a text behind an equals sign is
read with the sign just as it is read without it, unless it has a mark of its own: the reader
drops one mark, and no expression begins with another.

## Main results

* `scan_inStep` — the tokens of a text are the same wherever it stands, but for their places.
* `Derives.begins` — what a phrase can begin with.
* `spelled_cons_mark_iff` — when a text that is put behind an equals sign spells a formula.
-/

namespace Dashboard.Formula

/-! ### Scanning anywhere -/

/-- The value of a quoted text does not depend on where it stands. -/
theorem quotedText_inStep (start start' : Nat) (quote : Char) (offset offset' : Nat)
    (text : List Char) :
    Agree (· = ·) (quotedText start quote offset text) (quotedText start' quote offset' text) := by
  fun_induction quotedText start quote offset text generalizing offset' with
  | case1 => trivial
  | case2 => trivial
  | case3 offset c rest hescape =>
      rw [quotedText, hescape]
      trivial
  | case4 offset c rest d hescape ih =>
      rw [quotedText, hescape]
      refine (ih _).bind ?_
      rintro ⟨value, length⟩ - - - rfl
      rfl
  | case5 offset rest hlone hescape =>
      rw [quotedText, if_pos rfl]
      · rfl
      · exact hlone
      · exact hescape
  | case6 offset c rest hlone hescape hquote ih =>
      rw [quotedText, if_neg hquote]
      · refine (ih _).bind ?_
        rintro ⟨value, length⟩ - - - rfl
        rfl
      · exact hlone
      · exact hescape

/-- Nor does any other token. -/
theorem lexeme_inStep (offset offset' : Nat) (first : Char) (rest : List Char) :
    Agree (· = ·) (lexeme offset first rest) (lexeme offset' first rest) := by
  rw [lexeme, lexeme]
  split
  · rfl
  · split
    · next op _ =>
      rw [Compound.lexeme, Compound.lexeme]
      split
      · rfl
      · split
        · rfl
        · trivial
    · split
      · refine (quotedText_inStep _ _ _ _ _ _).bind ?_
        rintro ⟨value, length⟩ - - - rfl
        rfl
      · split
        · rw [numberLexeme, numberLexeme]
          split
          · rfl
          · trivial
        · split
          · rfl
          · trivial

/-- A visible character begins a token, and what is left is scanned behind it. -/
theorem scan_visible (offset : Nat) {first : Char} (rest : List Char)
    (h : Text.isBlank first = false) :
    scan offset (first :: rest) = do
      let l ← lexeme offset first rest
      let stop := offset + first.utf8Size + Text.byteLength (rest.take l.more)
      let tokens ← scan stop (rest.drop l.more)
      return ⟨l.kind, ⟨offset, stop⟩⟩ :: tokens := by
  rw [scan, if_neg (by rw [h]; exact Bool.false_ne_true)]
  cases lexeme offset first rest with
  | error fault => rfl
  | ok l =>
      dsimp only
      cases hscan : scan (offset + first.utf8Size + Text.byteLength (rest.take l.more))
        (rest.drop l.more) with
      | error fault => simp [bind, Except.bind, hscan]
      | ok tokens => simp [bind, Except.bind, hscan, pure, Except.pure]

/-- What is scanned of a text with a visible character in front. -/
theorem scan_visible_eq_ok {offset : Nat} {first : Char} {rest : List Char} {tokens : List Token}
    (hfirst : Text.isBlank first = false) :
    scan offset (first :: rest) = .ok tokens ↔
      ∃ l stop others, lexeme offset first rest = .ok l ∧
        stop = offset + first.utf8Size + Text.byteLength (rest.take l.more) ∧
        scan stop (rest.drop l.more) = .ok others ∧
        tokens = ⟨l.kind, ⟨offset, stop⟩⟩ :: others := by
  rw [scan_visible _ _ hfirst]
  constructor
  · intro h
    obtain ⟨l, hl, h⟩ := Grammar.bind_eq_ok.mp h
    obtain ⟨others, hothers, h⟩ := Grammar.bind_eq_ok.mp h
    cases h
    exact ⟨l, _, others, hl, rfl, hothers, rfl⟩
  · rintro ⟨l, _, others, hl, rfl, hothers, rfl⟩
    exact Grammar.bind_eq_ok.mpr ⟨l, hl, Grammar.bind_eq_ok.mpr ⟨others, hothers, rfl⟩⟩

/-- **The tokens of a text are the same wherever it stands**, but for their places. -/
theorem scan_inStep (offset offset' : Nat) (text : List Char) :
    Agree (Shadows []) (scan offset text) (scan offset' text) := by
  match text with
  | [] =>
      rw [scan_nil, scan_nil]
      exact .nil
  | first :: rest =>
      cases hfirst : Text.isBlank first with
      | true =>
          rw [scan_blank _ _ hfirst, scan_blank _ _ hfirst]
          exact scan_inStep _ _ rest
      | false =>
          rw [scan_visible _ _ hfirst, scan_visible _ _ hfirst]
          refine (lexeme_inStep offset offset' first rest).bind ?_
          rintro l _ - - rfl
          refine (scan_inStep _ _ (rest.drop l.more)).bind ?_
          intro tokens tokens' _ _ htokens
          exact .cons (.inl rfl) htokens
termination_by text.length
decreasing_by all_goals simp only [List.length_cons, List.length_drop]; omega

/-- A text **spells** a formula, wherever it stands. -/
def Spelled (options : Options) (text : List Char) (f : Formula) : Prop :=
  ∃ offset sourceEnd tokens, scan offset text = .ok tokens ∧
    ofTokens options sourceEnd tokens = .ok f

variable {options : Options} {text : List Char} {f : Formula}

/-- It does not matter where a text stands. -/
theorem spelled_iff (offset sourceEnd : Nat) :
    Spelled options text f ↔
      ∃ tokens, scan offset text = .ok tokens ∧ ofTokens options sourceEnd tokens = .ok f := by
  refine ⟨?_, fun ⟨tokens, hscan, hread⟩ => ⟨offset, sourceEnd, tokens, hscan, hread⟩⟩
  rintro ⟨offset', sourceEnd', tokens, hscan, hread⟩
  have hagree : Agree (· = ·) (scan offset' text >>= ofTokens options sourceEnd')
      (scan offset text >>= ofTokens options sourceEnd) :=
    (scan_inStep offset' offset text).bind fun _ _ _ _ htokens => ofTokens_inStep htokens
  rw [hscan] at hagree
  exact Grammar.bind_eq_ok.mp ((hagree.ok_iff f).mp hread)

/-- A source text is read as the formula that it spells. -/
theorem ofSource_eq_ok_iff {source : String} :
    ofSource options source = .ok f ↔ Spelled options source.toList f := by
  rw [spelled_iff 0 (Text.byteLength source.toList), ← Grammar.bind_eq_ok, ofSource, parse,
    tokenize]
  cases scan 0 source.toList >>= ofTokens options (Text.byteLength source.toList) with
  | error fault =>
      constructor
      · rintro ⟨⟩
      · rintro ⟨⟩
  | ok f' =>
      constructor
      · rintro ⟨⟩
        rfl
      · rintro ⟨⟩
        rfl

/-! ### What a phrase begins with -/

/-- The words that an operand can begin with. -/
theorem startsOperand_of_keyword? {kind : Token.Kind} {word : Keyword}
    (h : kind.keyword? = some word) (hword : word = .if ∨ word = .true ∨ word = .false) :
    kind.startsOperand = true := by
  cases kind with
  | name value =>
      have hvalue : Keyword.ofName? value = some word := h
      rw [Token.Kind.startsOperand, hvalue]
      rcases hword with rfl | rfl | rfl <;> rfl
  | _ => cases h

/-- The tokens that a phrase can begin with: a sign, or what an operand can begin with. -/
def Token.Kind.StartsPhrase (kind : Token.Kind) : Prop :=
  kind = .minus ∨ kind = .plus ∨ kind.startsOperand = true

/-- What begins with a phrase begins as the phrase does. -/
theorem startsPhrase_append {left right : List Token.Kind} (hne : left ≠ [])
    (h : ∀ kind ∈ left.head?, kind.StartsPhrase) :
    ∀ kind ∈ (left ++ right).head?, kind.StartsPhrase := by
  cases left with
  | nil => exact absurd rfl hne
  | cons kind rest => exact h

/-- **What a phrase begins with** is a sign, or what an operand can begin with. -/
theorem Derives.begins {dialect : Dialect} {stratum : Stratum} {kinds : List Token.Kind}
    {next : Option Token.Kind} {e : Expr} (h : Derives dialect stratum kinds next e) :
    ∀ kind ∈ kinds.head?, kind.StartsPhrase := by
  induction h with
  | ofConditional _ ih => exact ih
  | ofOr _ ih => exact ih
  | ofBranching _ ih => exact ih
  | ofWithin _ ih => exact ih
  | ofSign _ ih => exact ih
  | ofSuffix _ ih => exact ih
  | ofOperand _ ih => exact ih
  | branchingOperand _ _ ih => exact ih
  -- begun by a phrase
  | assign _ htarget _ ih _ => exact startsPhrase_append htarget.ne_nil ih
  | choice htest _ _ ih _ => exact startsPhrase_append htest.ne_nil ih
  | alternative htest _ _ ih _ _ => exact startsPhrase_append htest.ne_nil ih
  | joined _ hleft _ _ ih _ => exact startsPhrase_append hleft.ne_nil ih
  | power hbase _ ih _ => exact startsPhrase_append hbase.ne_nil ih
  | squared hoperand ih => exact startsPhrase_append hoperand.ne_nil ih
  | percent hoperand _ ih => exact startsPhrase_append hoperand.ne_nil ih
  | furtherArgument hopening _ ih _ => exact startsPhrase_append hopening.ne_nil ih
  | call hopening _ ih => exact startsPhrase_append hopening.ne_nil ih
  -- begun by a token
  | branch hif => rintro _ ⟨⟩; exact .inr (.inr (startsOperand_of_keyword? hif (.inl rfl)))
  | branchElse hif => rintro _ ⟨⟩; exact .inr (.inr (startsOperand_of_keyword? hif (.inl rfl)))
  | minus => rintro _ ⟨⟩; exact .inl rfl
  | plus => rintro _ ⟨⟩; exact .inr (.inl rfl)
  | number => rintro _ ⟨⟩; exact .inr (.inr rfl)
  | text => rintro _ ⟨⟩; exact .inr (.inr rfl)
  | true h => rintro _ ⟨⟩; exact .inr (.inr (startsOperand_of_keyword? h (.inr (.inl rfl))))
  | false h => rintro _ ⟨⟩; exact .inr (.inr (startsOperand_of_keyword? h (.inr (.inr rfl))))
  | symbol h => rintro _ ⟨⟩; exact .inr (.inr (startsOperand_name h))
  | parentheses => rintro _ ⟨⟩; exact .inr (.inr rfl)
  | brackets => rintro _ ⟨⟩; exact .inr (.inr rfl)
  | firstArgument h => rintro _ ⟨⟩; exact .inr (.inr (startsOperand_name h))
  | emptyCall h => rintro _ ⟨⟩; exact .inr (.inr (startsOperand_name h))

/-- A formula begins with a phrase. -/
theorem DerivesFormula.begins {dialect : Dialect} {kinds : List Token.Kind} {es : List Expr}
    (h : DerivesFormula dialect kinds es) : ∀ kind ∈ kinds.head?, kind.StartsPhrase := by
  cases h with
  | single hderives => exact hderives.begins
  | trailing _ hderives => exact startsPhrase_append hderives.ne_nil hderives.begins
  | statement _ hderives => exact startsPhrase_append hderives.ne_nil hderives.begins

/-- What is left behind the mark does not begin with one, nor with the sign of equality. -/
theorem not_startsPhrase_of_mark {kind : Token.Kind} (h : kind = .assign ∨ kind = .equal) :
    ¬ kind.StartsPhrase := by
  rcases h with rfl | rfl
  · rintro (h | h | h) <;> cases h
  · rintro (h | h | h) <;> cases h

/-! ### Marks -/

/-- A text is **marked** if there is an equals sign in front, behind blanks, that is not the
first of two. -/
def Marked (text : List Char) : Prop :=
  ∃ rest, Text.trimStart text = '=' :: rest ∧ rest.head? ≠ some '='

/-- Two equals signs are the sign of equality. -/
theorem lexeme_equal (offset : Nat) (rest : List Char) :
    lexeme offset '=' ('=' :: rest) = .ok ⟨.equal, 1⟩ := by
  rfl

/-- An equals sign that is not the first of two is a mark. -/
theorem lexeme_mark (offset : Nat) {rest : List Char} (h : rest.head? ≠ some '=') :
    lexeme offset '=' rest = .ok ⟨.assign, 0⟩ := by
  have hnone : ([('=', Token.Kind.equal)].find? fun pair => rest.head? = some pair.1) = none := by
    simpa using h
  show Compound.lexeme offset ⟨[('=', .equal)], .ok .assign⟩ rest = _
  rw [Compound.lexeme, hnone]

/-- The equals sign is none of the tokens that are one character whatever follows. -/
theorem symbol?_ne_assign (first : Char) : symbol? first ≠ some .assign := by
  fun_cases symbol? first
  all_goals exact nofun

/-- No other operator is a mark. -/
theorem not_assign_of_compound? {first : Char} {op : Compound} (h : compound? first = some op)
    (hfirst : first ≠ '=') :
    (∀ pair ∈ op.pairs, pair.2 ≠ .assign) ∧ op.alone ≠ .ok .assign := by
  rw [compound?, if_neg hfirst] at h
  repeat' split at h
  all_goals cases h
  all_goals simp

/-- Every token but the mark begins with another character. -/
theorem kind_ne_assign_of_lexeme {offset : Nat} {first : Char} {rest : List Char} {l : Lexeme}
    (h : lexeme offset first rest = .ok l) (hfirst : first ≠ '=') : l.kind ≠ .assign := by
  rw [lexeme] at h
  split at h
  · next kind hkind =>
    cases h
    rintro rfl
    exact symbol?_ne_assign first hkind
  · split at h
    · next op hop =>
      obtain ⟨hpairs, halone⟩ := not_assign_of_compound? hop hfirst
      rw [Compound.lexeme] at h
      split at h
      · next kind hfind =>
        cases h
        exact hpairs _ (List.mem_of_find?_eq_some hfind)
      · split at h
        · next kind hkind =>
          cases h
          rintro rfl
          exact halone hkind
        · cases h
    · split at h
      · obtain ⟨⟨value, length⟩, -, h⟩ := Grammar.bind_eq_ok.mp h
        cases h
        exact nofun
      · split at h
        · rw [numberLexeme] at h
          split at h
          · cases h
            exact nofun
          · cases h
        · split at h
          · cases h
            exact nofun
          · cases h

/-- Blanks in front of a text only move its tokens. -/
theorem exists_scan_trimStart (offset : Nat) (text : List Char) :
    ∃ offset', scan offset text = scan offset' (Text.trimStart text) := by
  induction text generalizing offset with
  | nil => exact ⟨offset, rfl⟩
  | cons first rest ih =>
      rw [Text.trimStart, List.dropWhile_cons]
      split
      · next hfirst =>
        rw [scan_blank _ _ hfirst]
        exact ih _
      · exact ⟨offset, rfl⟩

/-- **The first token of a text is a mark just if the text is marked.** -/
theorem marked_iff_of_scan {offset : Nat} {tokens : List Token}
    (h : scan offset text = .ok tokens) :
    Marked text ↔ ∃ span rest, tokens = ⟨.assign, span⟩ :: rest := by
  obtain ⟨offset, htrim⟩ := exists_scan_trimStart offset text
  rw [htrim] at h
  rw [Marked]
  have hvisible : ∀ first ∈ (Text.trimStart text).head?, Text.isBlank first = false := by
    intro first hfirst
    have := List.head?_dropWhile_not Text.isBlank text
    rw [Text.trimStart] at hfirst
    rw [hfirst] at this
    simpa using this
  cases htext : Text.trimStart text with
  | nil =>
      rw [htext, scan_nil] at h
      cases h
      constructor
      · rintro ⟨_, ⟨⟩, -⟩
      · rintro ⟨_, _, ⟨⟩⟩
  | cons first rest =>
      rw [htext] at h hvisible
      obtain ⟨l, stop, others, hl, -, -, rfl⟩ := (scan_visible_eq_ok (hvisible first rfl)).mp h
      constructor
      · rintro ⟨rest, ⟨⟩, hrest⟩
        rw [lexeme_mark _ hrest] at hl
        cases hl
        exact ⟨_, _, rfl⟩
      · rintro ⟨span, more, hmark⟩
        obtain ⟨hhead, -⟩ := List.cons.inj hmark
        have hkind : l.kind = .assign := congrArg Token.kind hhead
        obtain rfl : first = '=' :=
          Decidable.byContradiction fun hfirst => kind_ne_assign_of_lexeme hl hfirst hkind
        refine ⟨rest, rfl, fun hequal => ?_⟩
        obtain ⟨more, rfl⟩ := List.head?_eq_some_iff.mp hequal
        rw [lexeme_equal] at hl
        cases hl
        cases hkind

/-! ### Behind an equals sign -/

/-- The statements of a formula begin with neither a mark nor the sign of equality. -/
theorem ofTokens_ne_ok_of_mark {sourceEnd : Nat} {kind : Token.Kind} {span : Span}
    {rest tokens : List Token} (hdrop : dropMark options.dialect tokens = ⟨kind, span⟩ :: rest)
    (h : kind = .assign ∨ kind = .equal) : ofTokens options sourceEnd tokens ≠ .ok f := by
  intro hread
  have hbegins := (derivesFormula_of_ofTokens hread).2.begins
  rw [hdrop] at hbegins
  exact not_startsPhrase_of_mark h (hbegins _ rfl)

/-- Only the tokens behind the mark matter. -/
theorem ofTokens_congr {sourceEnd : Nat} {tokens tokens' : List Token}
    (h : dropMark options.dialect tokens = dropMark options.dialect tokens') :
    ofTokens options sourceEnd tokens = ofTokens options sourceEnd tokens' := by
  rw [ofTokens, ofTokens, h]

/-- A text that begins with the sign of equality spells no formula. -/
theorem not_spelled_equal (text : List Char) : ¬ Spelled options ('=' :: '=' :: text) f := by
  rintro ⟨offset, sourceEnd, tokens, hscan, hread⟩
  obtain ⟨l, stop, others, hl, -, -, rfl⟩ := (scan_visible_eq_ok rfl).mp hscan
  rw [lexeme_equal] at hl
  cases hl
  refine ofTokens_ne_ok_of_mark (dropMark_of_notNext ?_) (.inr rfl) hread
  rintro span rest ⟨⟩

/-- The tokens of a text behind a mark. -/
theorem scan_cons_mark {offset : Nat} {tokens : List Token} (htext : text.head? ≠ some '=') :
    scan offset ('=' :: text) = .ok tokens ↔
      ∃ others, scan (offset + 1) text = .ok others ∧
        tokens = ⟨.assign, ⟨offset, offset + 1⟩⟩ :: others := by
  rw [scan_visible_eq_ok rfl]
  constructor
  · rintro ⟨l, stop, others, hl, rfl, hothers, rfl⟩
    rw [lexeme_mark _ htext] at hl
    cases hl
    exact ⟨others, hothers, rfl⟩
  · rintro ⟨others, hothers, rfl⟩
    exact ⟨⟨.assign, 0⟩, offset + 1, others, lexeme_mark _ htext, rfl, hothers, rfl⟩

/-- **A text behind an equals sign** spells what it spells without it, unless it is marked itself.
Then it spells nothing: two equals signs together are the sign of equality, which no formula begins
with, and of two marks that stand apart only the first one is dropped. -/
theorem spelled_cons_mark_iff (hdialect : options.dialect = .simplified) :
    Spelled options ('=' :: text) f ↔ Spelled options text f ∧ ¬ Marked text := by
  by_cases hequal : text.head? = some '='
  · obtain ⟨rest, rfl⟩ := List.head?_eq_some_iff.mp hequal
    refine iff_of_false (not_spelled_equal rest) ?_
    rintro ⟨hspelled, hmarked⟩
    have hrest : rest.head? = some '=' :=
      Decidable.byContradiction fun hrest => hmarked ⟨rest, rfl, hrest⟩
    obtain ⟨more, rfl⟩ := List.head?_eq_some_iff.mp hrest
    exact not_spelled_equal more hspelled
  · rw [spelled_iff 0 0, spelled_iff 1 0]
    simp only [scan_cons_mark hequal]
    have hread : ∀ {span : Span} {tokens : List Token}, ¬ Marked text →
        scan 1 text = .ok tokens →
        ofTokens options 0 (⟨.assign, span⟩ :: tokens) = ofTokens options 0 tokens := by
      intro span tokens hunmarked hscan
      have hnot : NotNext .assign tokens := fun span rest hrest =>
        hunmarked ((marked_iff_of_scan hscan).mpr ⟨span, rest, hrest⟩)
      refine ofTokens_congr ?_
      rw [dropMark_of_notNext hnot, hdialect]
      rfl
    constructor
    · rintro ⟨_, ⟨tokens, hscan, rfl⟩, hformula⟩
      have hunmarked : ¬ Marked text := by
        rw [marked_iff_of_scan hscan]
        rintro ⟨span, rest, rfl⟩
        exact ofTokens_ne_ok_of_mark (by rw [hdialect]; rfl) (.inl rfl) hformula
      exact ⟨⟨tokens, hscan, (hread hunmarked hscan).symm.trans hformula⟩, hunmarked⟩
    · rintro ⟨⟨tokens, hscan, hformula⟩, hunmarked⟩
      exact ⟨_, ⟨tokens, hscan, rfl⟩, (hread hunmarked hscan).trans hformula⟩

end Dashboard.Formula
