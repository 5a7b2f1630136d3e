import Dashboard.Proofs.Formula.Enclosing
import Mathlib

/-!
# Signs and Words

Some operators of the grammar have a sign and a word. A word is a name to those who split a
text into tokens, so every rule has to look out for it, and so has the rule that takes a percent
sign for a suffix unless an operand begins behind it. Which of the two is written makes no
difference: **respelled** tokens are read as the same formula, or not at all.

A conditional has a spelling in signs and one in words. They are not interchangeable token by
token, since a conditional in words may stand where one in signs may not, and reaches further.
But with its parts in parentheses a conditional is read as the same tree in both spellings. The
parts are read two levels further in than the conditional, so this takes two levels more than
the parts do by themselves.

## Main results

* `ofTokens_respelled` — respelled tokens are read as the same formula.
* `Completes.enclosable` — what is a whole expression can be read in parentheses.
* `conditional_inWords`, `conditional_inSigns` — a conditional of such parts in both spellings.
* `spellings_interchangeable` — both kinds of spellings taken together.
-/

namespace Dashboard.Formula

open Grammar

/-! ### Operators -/

/-- The sign of an operator that has a word. -/
def Keyword.sign? : Keyword → Option Token.Kind
  | .and => some .bothAnd
  | .or => some .eitherOr
  | .equals => some .equal
  | _ => none

/-- The same token, or the word in place of the sign of an operator, in any mixture of upper
and lower case, or the sign in place of such a word. -/
inductive Token.Kind.Respells : Token.Kind → Token.Kind → Prop
  | same (kind : Token.Kind) : Respells kind kind
  | toWord {word : Keyword} {sign : Token.Kind} {name : String} : word.sign? = some sign →
      name.toList.map Char.toLower = word.spelling.toList → Respells sign (.name name)
  | toSign {word : Keyword} {sign : Token.Kind} {name : String} : word.sign? = some sign →
      name.toList.map Char.toLower = word.spelling.toList → Respells (.name name) sign

/-- Both spellings of an operator are those of its word. -/
theorem worded?_of_sign? {word : Keyword} {sign : Token.Kind} {name : String}
    (hsign : word.sign? = some sign)
    (hname : name.toList.map Char.toLower = word.spelling.toList) :
    sign.worded? = some word ∧ (Token.Kind.name name).worded? = some word := by
  have hword := Keyword.ofName?_eq_some_iff.mpr hname
  cases word <;> cases hsign
  all_goals exact ⟨rfl, by rw [Token.Kind.worded?, hword]; rfl⟩

/-- No rule tells the spellings of an operator apart. -/
theorem Token.Kind.Respells.alike {kind kind' : Token.Kind} (h : kind.Respells kind') :
    kind.Alike kind' := by
  cases h with
  | same => exact .inl rfl
  | toWord hsign hname =>
      obtain ⟨hworded, hworded'⟩ := worded?_of_sign? hsign hname
      exact .inr ⟨_, hworded, hworded'⟩
  | toSign hsign hname =>
      obtain ⟨hworded, hworded'⟩ := worded?_of_sign? hsign hname
      exact .inr ⟨_, hworded', hworded⟩

/-- **Respelled tokens**, wherever they stand. -/
def Respelled : List Token → List Token → Prop :=
  List.Forall₂ fun t t' => t.kind.Respells t'.kind

/-- Respelled tokens shadow the tokens, with nothing behind. -/
theorem Respelled.shadows {ts ts' : List Token} (h : Respelled ts ts') : Shadows [] ts ts' := by
  induction h with
  | nil => exact .nil
  | cons hkind _ ih => exact .cons hkind.alike ih

/-- **Respelled tokens are read as the same formula**, or not at all. -/
theorem ofTokens_respelled {options : Options} {sourceEnd sourceEnd' : Nat} {ts ts' : List Token}
    (h : Respelled ts ts') (f : Formula) :
    ofTokens options sourceEnd ts = .ok f ↔ ofTokens options sourceEnd' ts' = .ok f :=
  (ofTokens_inStep h.shadows).ok_iff f

/-- Tokens that differ in their places only are respelled. -/
theorem respelled_of_map_kind_eq {ts ts' : List Token}
    (h : ts.map Token.kind = ts'.map Token.kind) : Respelled ts ts' := by
  have hkinds : List.Forall₂ Token.Kind.Respells (ts.map Token.kind) (ts'.map Token.kind) := by
    rw [h]
    exact List.forall₂_same.mpr fun kind _ => .same kind
  rwa [List.forall₂_map_left_iff, List.forall₂_map_right_iff] at hkinds

/-! ### Parts of a conditional -/

/-- The tokens are a whole expression, if the bound on nesting is large enough. -/
def Completes (dialect : Dialect) (kinds : List Token.Kind) (e : Expr) : Prop :=
  ∃ limit sourceEnd ts, ts.map Token.kind = kinds ∧
    expressionWithin ⟨⟨dialect, limit⟩, sourceEnd⟩ limit ts = .ok (e, [])

/-- The tokens of some kinds, without their places. -/
def unplaced (kinds : List Token.Kind) : List Token :=
  kinds.map fun kind => ⟨kind, ⟨0, 0⟩⟩

/-- Tokens without a place keep their kinds. -/
@[simp] theorem map_kind_unplaced (kinds : List Token.Kind) :
    (unplaced kinds).map Token.kind = kinds := by
  rw [unplaced, List.map_map]
  exact List.map_id kinds

/-- In parentheses the tokens are an operand, whatever follows, with at least so many levels. -/
def Enclosable (dialect : Dialect) (kinds : List Token.Kind) (e : Expr) (limit : Nat) : Prop :=
  ∀ (scope : Scope) (budget : Nat) (rest : List Token), scope.options.dialect = dialect →
    limit ≤ budget →
    primary scope (innerAt scope budget) (unplaced (parenthesized kinds) ++ rest) = .ok (e, rest)

/-- A larger limit encloses as well. -/
theorem Enclosable.mono {dialect : Dialect} {kinds : List Token.Kind} {e : Expr}
    {limit limit' : Nat} (h : Enclosable dialect kinds e limit) (hle : limit ≤ limit') :
    Enclosable dialect kinds e limit' :=
  fun scope budget rest hdialect hbudget => h scope budget rest hdialect (Nat.le_trans hle hbudget)

/-- A whole expression is one wherever its tokens stand. -/
theorem expressionWithin_unplaced {scope : Scope} {limit : Nat} {ts : List Token} {e : Expr}
    (h : expressionWithin scope limit ts = .ok (e, [])) :
    expressionWithin scope limit (unplaced (ts.map Token.kind)) = .ok (e, []) := by
  have hplaces : Respelled ts (unplaced (ts.map Token.kind)) :=
    respelled_of_map_kind_eq (map_kind_unplaced _).symm
  have hagree : Agree (SameResult []) (expressionWithin scope limit ts)
      (expressionWithin scope limit (unplaced (ts.map Token.kind))) :=
    expressionWithin_inStep sealed_nil rfl limit hplaces.shadows
  rw [h] at hagree
  cases hread : expressionWithin scope limit (unplaced (ts.map Token.kind)) with
  | error fault =>
      rw [hread] at hagree
      exact hagree.elim
  | ok r =>
      rw [hread] at hagree
      obtain ⟨heq, hrest⟩ := hagree
      obtain ⟨e', rest⟩ := r
      obtain rfl : e = e' := heq
      cases hrest
      rfl

/-- **What is a whole expression can be read in parentheses.** -/
theorem Completes.enclosable {dialect : Dialect} {kinds : List Token.Kind} {e : Expr}
    (h : Completes dialect kinds e) : ∃ limit, Enclosable dialect kinds e limit := by
  obtain ⟨limit, sourceEnd, ts, rfl, hread⟩ := h
  refine ⟨limit, fun scope budget rest hdialect hbudget => ?_⟩
  have hinside : expression scope (innerAt scope budget)
      (unplaced (ts.map Token.kind) ++ ⟨.rightParen, ⟨0, 0⟩⟩ :: rest) =
        .ok (e, ⟨.rightParen, ⟨0, 0⟩⟩ :: rest) :=
    expressionWithin_carries ⟨⟨0, 0⟩, rest, rfl⟩ hdialect hbudget _ _
      (expressionWithin_unplaced hread)
  have htokens : unplaced (parenthesized (ts.map Token.kind)) ++ rest =
      ⟨.leftParen, ⟨0, 0⟩⟩ ::
        (unplaced (ts.map Token.kind) ++ ⟨.rightParen, ⟨0, 0⟩⟩ :: rest) := by
    simp [unplaced, parenthesized]
  rw [htokens, primary]
  dsimp only
  rw [hinside]
  rfl

/-- So can a second branch, if there is one. -/
theorem exists_enclosable {dialect : Dialect} {other : Option (List Token.Kind)} {o : Option Expr}
    (h : Option.Rel (Completes dialect) other o) :
    ∃ enough, ∀ limit, enough ≤ limit →
      Option.Rel (fun kinds e => Enclosable dialect kinds e limit) other o := by
  cases h with
  | none => exact ⟨0, fun _ _ => .none⟩
  | some he =>
      obtain ⟨enough, he⟩ := he.enclosable
      exact ⟨enough, fun _ hle => .some (he.mono hle)⟩

section Enclosable

variable {dialect : Dialect} {kinds : List Token.Kind} {e : Expr} {limit : Nat}
  (h : Enclosable dialect kinds e limit) {scope : Scope} {budget : Nat} {rest : List Token}
  (hdialect : scope.options.dialect = dialect)

include h hdialect

/-- An operand in parentheses is an operand of every tier if no operator follows. -/
theorem Enclosable.joined_eq (hbudget : limit ≤ budget) (hends : EndsOperators rest)
    (tiers : List Tier) :
    joined scope (innerAt scope budget) tiers (unplaced (parenthesized kinds) ++ rest) =
      .ok (e, rest) := by
  induction tiers with
  | nil =>
      exact power_eq_of_signed hends.caret
        (signed_eq_of_suffixes rfl (h scope budget rest hdialect hbudget)
          (suffixes_of_suffix?_eq_none hends.suffix))
  | cons tier tighter ih =>
      rw [joined, ih, ok_bind]
      exact chain_of_noJoint (hends.joint tier)

/-- It is an expression by itself if nothing follows that continues it, with a level more. -/
theorem Enclosable.expression_eq (hbudget : limit < budget) (hends : EndsExpression rest) :
    expression scope (innerAt scope budget) (unplaced (parenthesized kinds) ++ rest) =
      .ok (e, rest) := by
  obtain ⟨below, rfl⟩ : ∃ below, budget = below + 1 := ⟨budget - 1, by omega⟩
  rw [expression, nested_innerAt]
  have hif : nextKeyword? (unplaced (parenthesized kinds) ++ rest) ≠ some .if :=
    (Option.some_ne_none Keyword.if).symm
  refine assignment_eq_of_conditional ?_ hends.assign
  exact conditional_eq_of_joined hif hends.question
    (h.joined_eq hdialect (Nat.le_of_lt_succ hbudget) hends.toEndsOperators Tier.all)

end Enclosable

/-! ### The two spellings of a conditional -/

/-- Names of the keywords of a conditional, in any mixture of upper and lower case. -/
structure Wording where
  ifWord : String
  thenWord : String
  elseWord : String
  isIf : ifWord.toList.map Char.toLower = Keyword.if.spelling.toList
  isThen : thenWord.toList.map Char.toLower = Keyword.then.spelling.toList
  isElse : elseWord.toList.map Char.toLower = Keyword.else.spelling.toList

/-- The first word of a wording is the keyword `if`. -/
theorem Wording.ofName?_ifWord (w : Wording) : Keyword.ofName? w.ifWord = some .if :=
  Keyword.ofName?_eq_some_iff.mpr w.isIf

/-- The second word is the keyword `then`. -/
theorem Wording.ofName?_thenWord (w : Wording) : Keyword.ofName? w.thenWord = some .then :=
  Keyword.ofName?_eq_some_iff.mpr w.isThen

/-- The third word is the keyword `else`. -/
theorem Wording.ofName?_elseWord (w : Wording) : Keyword.ofName? w.elseWord = some .else :=
  Keyword.ofName?_eq_some_iff.mpr w.isElse

/-- The second branch of a conditional in parentheses, behind its mark. -/
def otherwise (mark : Token.Kind) : Option (List Token.Kind) → List Token.Kind
  | none => []
  | some kinds => mark :: parenthesized kinds

/-- A conditional in words, with its parts in parentheses. -/
def inWords (w : Wording) (test consequent : List Token.Kind)
    (other : Option (List Token.Kind)) : List Token.Kind :=
  .name w.ifWord :: (parenthesized test ++
    .name w.thenWord :: (parenthesized consequent ++ otherwise (.name w.elseWord) other))

/-- A conditional in signs, with its parts in parentheses. -/
def inSigns (test consequent : List Token.Kind) (other : Option (List Token.Kind)) :
    List Token.Kind :=
  parenthesized test ++ .question :: (parenthesized consequent ++ otherwise .colon other)

/-- The keywords between the parts of a conditional continue no expression. -/
theorem endsExpression_keyword {name : String} (span : Span) (more : List Token)
    (h : Keyword.ofName? name = some .then ∨ Keyword.ofName? name = some .else) :
    EndsExpression (⟨.name name, span⟩ :: more) := by
  refine ⟨⟨⟨?_, rfl, nofun⟩, ?_⟩, nofun, nofun⟩
  · rintro _ ⟨⟩
    rcases h with h | h <;> rw [Token.Kind.startsOperand, h]
  · rintro tier _ ⟨⟩
    have hkeyword : (Token.Kind.name name).keyword? = Keyword.ofName? name := rfl
    have hsign : ((Token.Kind.name name == .eitherOr) = false) ∧
        ((Token.Kind.name name == .bothAnd) = false) := ⟨rfl, rfl⟩
    rcases h with h | h <;> cases tier <;> simp [Tier.joint?, hkeyword, h, hsign]

/-- A keyword that was expected is taken. -/
theorem expectKeyword_name {scope : Scope} {name : String} {keyword : Keyword}
    (h : Keyword.ofName? name = some keyword) (span : Span) (more : List Token) :
    scope.expectKeyword keyword (⟨.name name, span⟩ :: more) = .ok more :=
  if_pos h

/-- What is read as a conditional to the end is read as an expression, with a level more. -/
theorem expression_of_conditional {scope : Scope} {budget : Nat} {ts : List Token} {e : Expr}
    (h : conditional scope (innerAt scope budget) ts = .ok (e, [])) :
    expression scope (innerAt scope (budget + 1)) ts = .ok (e, []) := by
  rw [expression, nested_innerAt]
  show assignment scope (innerAt scope budget) ts = .ok (e, [])
  rw [← List.append_nil ts] at h ⊢
  exact assignment_eq_of_conditional h endsExpression_nil.assign

section Conditional

variable {dialect : Dialect} {test consequent : List Token.Kind}
  {other : Option (List Token.Kind)} {t c : Expr} {o : Option Expr} {limit : Nat}
  (ht : Enclosable dialect test t limit) (hc : Enclosable dialect consequent c limit)
  (ho : Option.Rel (fun kinds e => Enclosable dialect kinds e limit) other o)
  {scope : Scope} {budget : Nat} (hdialect : scope.options.dialect = dialect)
  (hbudget : limit < budget)

/-- In front of the second branch nothing continues the first one. -/
theorem endsExpression_otherwise {mark : Token.Kind}
    (hmark : ∀ more, EndsExpression (⟨mark, ⟨0, 0⟩⟩ :: more)) :
    EndsExpression (unplaced (otherwise mark other)) := by
  cases other with
  | none => exact endsExpression_nil
  | some kinds => exact hmark _

include ho hdialect hbudget

/-- A second branch is read if there is one. -/
theorem alternate_otherwise (mark : Token.Kind) :
    alternate scope (innerAt scope budget) other.isSome (unplaced (otherwise mark other)) =
      .ok (o, []) := by
  cases ho with
  | none => rfl
  | @some kinds e he =>
      have hread : expression scope (innerAt scope budget)
          (unplaced (parenthesized kinds) ++ []) = .ok (e, []) :=
        he.expression_eq hdialect hbudget endsExpression_nil
      rw [List.append_nil] at hread
      rw [Option.isSome_some, alternate, if_pos rfl]
      show (expression scope (innerAt scope budget) (unplaced (parenthesized kinds)) >>= _) = _
      rw [hread]
      rfl

include ht hc

/-- A conditional in words is read with a level more than its parts need. -/
theorem conditional_inWords (w : Wording) :
    conditional scope (innerAt scope budget) (unplaced (inWords w test consequent other)) =
      .ok (.conditional t c o, []) := by
  have htokens : unplaced (inWords w test consequent other) =
      ⟨.name w.ifWord, ⟨0, 0⟩⟩ :: (unplaced (parenthesized test) ++
        ⟨.name w.thenWord, ⟨0, 0⟩⟩ :: (unplaced (parenthesized consequent) ++
          unplaced (otherwise (.name w.elseWord) other))) := by
    simp [unplaced, inWords]
  have hthen : ∀ more, EndsExpression (⟨.name w.thenWord, ⟨0, 0⟩⟩ :: more) :=
    fun more => endsExpression_keyword ⟨0, 0⟩ more (.inl w.ofName?_thenWord)
  have helse : ∀ more, EndsExpression (⟨.name w.elseWord, ⟨0, 0⟩⟩ :: more) :=
    fun more => endsExpression_keyword ⟨0, 0⟩ more (.inr w.ofName?_elseWord)
  have hpresent : (nextKeyword? (unplaced (otherwise (.name w.elseWord) other)) ==
      some Keyword.else) = other.isSome := by
    cases other with
    | none => rfl
    | some kinds => exact beq_iff_eq.mpr w.ofName?_elseWord
  have hif : nextKeyword? (unplaced (inWords w test consequent other)) = some .if := by
    rw [htokens]
    exact w.ofName?_ifWord
  rw [conditional, if_pos hif, htokens, branching, expectKeyword_name w.ofName?_ifWord, ok_bind,
    ht.expression_eq hdialect hbudget (hthen _), ok_bind]
  dsimp only
  rw [expectKeyword_name w.ofName?_thenWord, ok_bind,
    hc.expression_eq hdialect hbudget (endsExpression_otherwise helse), ok_bind]
  dsimp only
  rw [hpresent, alternate_otherwise ho hdialect hbudget]
  rfl

/-- So is a conditional in signs. -/
theorem conditional_inSigns :
    conditional scope (innerAt scope budget) (unplaced (inSigns test consequent other)) =
      .ok (.conditional t c o, []) := by
  have htokens : unplaced (inSigns test consequent other) =
      unplaced (parenthesized test) ++ ⟨.question, ⟨0, 0⟩⟩ ::
        (unplaced (parenthesized consequent) ++ unplaced (otherwise .colon other)) := by
    simp [unplaced, inSigns]
  have hcolon : ∀ more, EndsExpression (⟨.colon, ⟨0, 0⟩⟩ :: more) :=
    fun more => endsExpression_cons ⟨0, 0⟩ more (.inr (.inr (.inr rfl)))
  have hpresent : ((unplaced (otherwise .colon other)).head?.any fun t => t.kind == .colon) =
      other.isSome := by
    cases other <;> rfl
  have hif : nextKeyword? (unplaced (inSigns test consequent other)) ≠ some .if := nofun
  rw [conditional, if_neg hif, htokens,
    ht.joined_eq hdialect (Nat.le_of_lt hbudget) (endsOperators_cons _ _ (.inr (.inl rfl))),
    ok_bind]
  dsimp only
  rw [hc.expression_eq hdialect hbudget (endsExpression_otherwise hcolon), ok_bind]
  dsimp only
  rw [hpresent, alternate_otherwise ho hdialect hbudget]
  rfl

end Conditional

/-! ### Formulas -/

/-- What is read as an expression to the end is a formula, if no mark stands in front. -/
theorem ofTokens_of_expression {dialect : Dialect} {maxDepth sourceEnd : Nat} {ts : List Token}
    {e : Expr} (hne : ts ≠ []) (hmark : NotNext .assign ts)
    (h : expression ⟨⟨dialect, maxDepth⟩, sourceEnd⟩
      (innerAt ⟨⟨dialect, maxDepth⟩, sourceEnd⟩ maxDepth) ts = .ok (e, [])) :
    ofTokens ⟨dialect, maxDepth⟩ sourceEnd ts = .ok ⟨dialect, [e]⟩ := by
  have hdrop : dropMark dialect ts = ts := dropMark_of_notNext hmark
  rw [ofTokens_of_ne_nil (by rwa [hdrop]), hdrop]
  cases ts with
  | nil => exact absurd rfl hne
  | cons t more =>
      rw [List.length_cons, Grammar.statements, expressionWithin_eq, h]
      rfl

/-- What is read as a conditional is a formula wherever its tokens stand, with a level more. -/
theorem ofTokens_of_conditional {dialect : Dialect} {kinds : List Token.Kind} {e : Expr}
    {budget sourceEnd : Nat} {ts : List Token} (hkinds : ts.map Token.kind = kinds)
    (hne : unplaced kinds ≠ []) (hmark : NotNext .assign (unplaced kinds))
    (h : ∀ scope : Scope, scope.options.dialect = dialect →
      conditional scope (innerAt scope budget) (unplaced kinds) = .ok (e, [])) :
    ofTokens ⟨dialect, budget + 1⟩ sourceEnd ts = .ok ⟨dialect, [e]⟩ := by
  have hplaces : Respelled ts (unplaced kinds) :=
    respelled_of_map_kind_eq (hkinds.trans (map_kind_unplaced kinds).symm)
  have hread : ofTokens ⟨dialect, budget + 1⟩ sourceEnd (unplaced kinds) = .ok ⟨dialect, [e]⟩ :=
    ofTokens_of_expression hne hmark (expression_of_conditional (h _ rfl))
  exact (ofTokens_respelled hplaces ⟨dialect, [e]⟩).mpr hread

/-- Parts in parentheses are a conditional in either spelling. -/
theorem ofTokens_of_enclosable {dialect : Dialect} {test consequent : List Token.Kind}
    {other : Option (List Token.Kind)} {t c : Expr} {o : Option Expr} {limit : Nat}
    (ht : Enclosable dialect test t limit) (hc : Enclosable dialect consequent c limit)
    (ho : Option.Rel (fun kinds e => Enclosable dialect kinds e limit) other o)
    {maxDepth : Nat} (hdepth : limit + 2 ≤ maxDepth) (w : Wording) (sourceEnd : Nat)
    {ts : List Token} (hts : ts.map Token.kind = inWords w test consequent other ∨
      ts.map Token.kind = inSigns test consequent other) :
    ofTokens ⟨dialect, maxDepth⟩ sourceEnd ts = .ok ⟨dialect, [.conditional t c o]⟩ := by
  obtain ⟨budget, rfl⟩ : ∃ budget, maxDepth = budget + 1 := ⟨maxDepth - 1, by omega⟩
  have hbudget : limit < budget := by omega
  rcases hts with hts | hts
  · exact ofTokens_of_conditional hts nofun nofun
      fun scope hdialect => conditional_inWords ht hc ho hdialect hbudget w
  · exact ofTokens_of_conditional hts nofun nofun
      fun scope hdialect => conditional_inSigns ht hc ho hdialect hbudget

/-- **Operators and conditionals are interchangeable in their two spellings.** Respelled tokens are
accepted under the same bound on nesting, and as the same formula. If the parts of a conditional are
whole expressions, it has the same tree in words and in signs, with a second branch and without one,
as soon as the bound is large enough: a level more than every part needs for the conditional, and
one for the formula. -/
theorem spellings_interchangeable :
    (∀ (options : Options) (sourceEnd sourceEnd' : Nat) (ts ts' : List Token), Respelled ts ts' →
      ∀ f, ofTokens options sourceEnd ts = .ok f ↔ ofTokens options sourceEnd' ts' = .ok f) ∧
    ∀ (dialect : Dialect) (test consequent : List Token.Kind) (other : Option (List Token.Kind))
      (t c : Expr) (o : Option Expr), Completes dialect test t → Completes dialect consequent c →
      Option.Rel (Completes dialect) other o →
      ∃ enough, ∀ maxDepth, enough ≤ maxDepth → ∀ (w : Wording) (sourceEnd : Nat)
        (ts : List Token), ts.map Token.kind = inWords w test consequent other ∨
          ts.map Token.kind = inSigns test consequent other →
        ofTokens ⟨dialect, maxDepth⟩ sourceEnd ts = .ok ⟨dialect, [.conditional t c o]⟩ := by
  refine ⟨fun _ _ _ _ _ h => ofTokens_respelled h, ?_⟩
  intro dialect test consequent other t c o ht hc ho
  obtain ⟨testLimit, ht⟩ := ht.enclosable
  obtain ⟨consequentLimit, hc⟩ := hc.enclosable
  obtain ⟨otherLimit, ho⟩ := exists_enclosable ho
  refine ⟨max testLimit (max consequentLimit otherLimit) + 2, ?_⟩
  intro maxDepth hdepth w sourceEnd ts hts
  exact ofTokens_of_enclosable (ht.mono (by omega)) (hc.mono (by omega)) (ho _ (by omega)) hdepth
    w sourceEnd hts

/-- The keywords of a conditional in lower case. -/
def Wording.lower : Wording where
  ifWord := "if"
  thenWord := "then"
  elseWord := "else"
  isIf := by decide
  isThen := by decide
  isElse := by decide

/-- In `x% AND y` and `x% && y` the percent sign is a suffix, as no operand begins behind it, and
`if (a = b) then (c)` and `(a = b) ? (c)` assign a symbol in the test. -/
theorem spellings_interchangeable_suffix :
    (∀ kind ∈ [Token.Kind.bothAnd, .name "AND"],
      ofTokens ⟨.simplified, 3⟩ 0 (unplaced [.name "x", .percent, kind, .name "y"]) =
        .ok ⟨.simplified, [.logical .and (.unary .percent (.symbol "x")) (.symbol "y")]⟩) ∧
    ∃ maxDepth, ∀ kinds ∈ [inWords .lower [.name "a", .assign, .name "b"] [.name "c"] none,
        inSigns [.name "a", .assign, .name "b"] [.name "c"] none],
      ofTokens ⟨.legacy, maxDepth⟩ 0 (unplaced kinds) = .ok ⟨.legacy,
        [.conditional (.assignment "a" (.symbol "b")) (.symbol "c") none]⟩ := by
  obtain ⟨hoperators, hconditionals⟩ := spellings_interchangeable
  have hsign : ofTokens ⟨.simplified, 3⟩ 0
      (unplaced [.name "x", .percent, .bothAnd, .name "y"]) =
        .ok ⟨.simplified, [.logical .and (.unary .percent (.symbol "x")) (.symbol "y")]⟩ := rfl
  constructor
  · intro kind hkind
    refine (hoperators _ 0 0 _ _ ?_ _).mp hsign
    refine .cons (.same _) (.cons (.same _) (.cons ?_ (.cons (.same _) .nil)))
    rcases List.mem_pair.mp hkind with rfl | rfl
    · exact .same _
    · exact .toWord (rfl : Keyword.sign? .and = _) (by decide)
  · have htest : Completes .legacy [.name "a", .assign, .name "b"]
        (.assignment "a" (.symbol "b")) :=
      ⟨3, 0, unplaced [.name "a", .assign, .name "b"], rfl, rfl⟩
    have hconsequent : Completes .legacy [.name "c"] (.symbol "c") :=
      ⟨3, 0, unplaced [.name "c"], rfl, rfl⟩
    obtain ⟨enough, hread⟩ := hconditionals .legacy _ _ _ _ _ _ htest hconsequent .none
    refine ⟨enough, fun kinds hkinds => hread enough (Nat.le_refl _) .lower 0 _ ?_⟩
    rw [map_kind_unplaced]
    exact List.mem_pair.mp hkinds

end Dashboard.Formula
