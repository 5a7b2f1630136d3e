import Dashboard.Proofs.Formula.Height
import Dashboard.Proofs.Formula.RoundTrip
import Mathlib

/-!
# Towers

The bound on the height of a formula is attained. A **tower** is built from the inside out:
what stands is put in brackets, and then each rule that goes on from a left operand spends
the whole budget of its level on top of it: squares first, then a power, then the operators
of the six tiers from the tightest to the loosest, and last a conditional. The brackets are
the only part that is read further in, so a level of the budget buys all of this once more.

A tower is given by its words. A word is a token with a text that is read as that token if a
blank follows, so a list of words with blanks between them is read as their tokens.

## Main results

* `Word.scan_spaced` — words with blanks between them are read as their tokens.
* `Tower.reads_words` — the words of a tower are read as the tower with just its budget.
* `height_admitted` — how high the statements of a formula can be under a bound on nesting,
  and that a bound greater than one does not bound the height.
-/

namespace Dashboard.Formula

open Grammar

/-! ### Words -/

/-- A kind of token with a text that is read as a token of that kind if a blank follows. -/
structure Word where
  kind : Token.Kind
  first : Char
  more : List Char
  visible : Text.isBlank first = false
  lexeme_eq : ∀ offset rest, lexeme offset first (more ++ ' ' :: rest) = .ok ⟨kind, more.length⟩

namespace Word

/-- The text of several words, with a blank behind each. -/
def spaced : List Word → List Char
  | [] => []
  | w :: rest => w.first :: (w.more ++ ' ' :: spaced rest)

/-- **Words with blanks between them are read as their tokens.** -/
theorem scan_spaced (offset : Nat) (ws : List Word) :
    ∃ ts, scan offset (spaced ws) = .ok ts ∧ ts.map Token.kind = ws.map kind := by
  induction ws generalizing offset with
  | nil => exact ⟨[], scan_nil offset, rfl⟩
  | cons w rest ih =>
      let stop := offset + w.first.utf8Size + Text.byteLength w.more
      obtain ⟨ts, hts, hkinds⟩ := ih (stop + ' '.utf8Size)
      refine ⟨⟨w.kind, ⟨offset, stop⟩⟩ :: ts, ?_, ?_⟩
      · have hblank : Text.isBlank ' ' = true := by decide
        have htake : (w.more ++ ' ' :: spaced rest).take w.more.length = w.more := List.take_left
        have hdrop : (w.more ++ ' ' :: spaced rest).drop w.more.length = ' ' :: spaced rest :=
          List.drop_left
        rw [spaced, scan, w.visible, w.lexeme_eq]
        dsimp only
        rw [htake, hdrop, scan_blank _ _ hblank, hts]
        rfl
      · rw [List.map_cons, List.map_cons, hkinds]

/-- The source text of several words. -/
def source (ws : List Word) : String :=
  String.ofList (spaced ws)

/-- The source text of some words is read as their tokens. -/
theorem tokenize_source (ws : List Word) :
    ∃ ts, tokenize (source ws) = .ok ts ∧ ts.map Token.kind = ws.map kind := by
  rw [tokenize, source, String.toList_ofList]
  exact scan_spaced 0 ws

end Word

/-! ### The parts of a tower -/

namespace Tower

/-- The symbol that every other operand of a tower is. -/
def leaf : Expr := .symbol "x"

def leafWord : Word := ⟨.name "x", 'x', [], by decide, fun _ _ => rfl⟩

/-- The symbol is not a keyword. -/
theorem ofName?_leaf : Keyword.ofName? "x" = none := by decide

def openWord : Word := ⟨.leftBracket, '[', [], by decide, fun _ _ => rfl⟩

def closeWord : Word := ⟨.rightBracket, ']', [], by decide, fun _ _ => rfl⟩

def squareWord : Word := ⟨.squared, '²', [], by decide, fun _ _ => rfl⟩

def caretWord : Word := ⟨.caret, '^', [], by decide, fun _ _ => rfl⟩

def questionWord : Word := ⟨.question, '?', [], by decide, fun _ _ => rfl⟩

/-- An operator of each tier. -/
def jointOf : Tier → Joint
  | .or => .logical .or
  | .and => .logical .and
  | .equality => .binary .eq
  | .relational => .binary .lt
  | .additive => .binary .add
  | .multiplicative => .binary .mul

/-- The word for the operator of a tier. -/
def jointWord : Tier → Word
  | .or => ⟨.eitherOr, '|', ['|'], by decide, fun _ _ => rfl⟩
  | .and => ⟨.bothAnd, '&', ['&'], by decide, fun _ _ => rfl⟩
  | .equality => ⟨.equal, '=', ['='], by decide, fun _ _ => rfl⟩
  | .relational => ⟨.less, '<', [], by decide, fun _ _ => rfl⟩
  | .additive => ⟨.plus, '+', [], by decide, fun _ _ => rfl⟩
  | .multiplicative => ⟨.star, '*', [], by decide, fun _ _ => rfl⟩

/-- The word of a tier is its operator. -/
theorem joint?_jointWord (t : Tier) : t.joint? (jointWord t).kind = some (jointOf t) := by
  cases t <;> rfl

/-- An operator ends what stands to its left. -/
theorem ends_jointWord (t : Tier) (span : Span) (more : List Token) :
    (Level.tier t).Ends (⟨(jointWord t).kind, span⟩ :: more) := by
  cases t with
  | or => exact ends_logical .or span more
  | and => exact ends_logical .and span more
  | equality =>
      have htier : BinaryOp.eq.tier? = some .equality := rfl
      exact ends_binary htier span nofun
  | relational =>
      have htier : BinaryOp.lt.tier? = some .relational := rfl
      exact ends_binary htier span nofun
  | additive =>
      have htier : BinaryOp.add.tier? = some .additive := rfl
      exact ends_binary htier span nofun
  | multiplicative =>
      have htier : BinaryOp.mul.tier? = some .multiplicative := rfl
      exact ends_binary htier span nofun

/-- A tree squared a number of times. -/
def squared (k : Nat) (e : Expr) : Expr :=
  (Expr.unary .square)^[k] e

/-- A tree with a number of operators of a tier on top of it. -/
def chained (t : Tier) (k : Nat) (e : Expr) : Expr :=
  (fun left => (jointOf t).join left leaf)^[k] e

def chainWords (t : Tier) : Nat → List Word
  | 0 => []
  | k + 1 => jointWord t :: leafWord :: chainWords t k

/-- A tree with a number of operators of each of several tiers on top of it, those of the
first tier last. -/
def chainedAll : List Tier → Nat → Expr → Expr
  | [], _, e => e
  | t :: tighter, k, e => chained t k (chainedAll tighter k e)

def chainAllWords : List Tier → Nat → List Word → List Word
  | [], _, base => base
  | t :: tighter, k, base => chainAllWords tighter k base ++ chainWords t k

/-- What a tower is a conditional on top of. -/
def storey (k : Nat) (e : Expr) : Expr :=
  chainedAll Tier.all k (.binary .pow (squared k (.unary .abs e)) leaf)

/-- The tower for a budget. -/
def tree : Nat → Expr
  | 0 => leaf
  | n + 1 => .conditional (storey (n + 1) (tree n)) leaf none

/-- The words of a power of squares of what stands in brackets. -/
def powerWords (k : Nat) (inside : List Word) : List Word :=
  openWord :: (inside ++ closeWord :: (List.replicate k squareWord ++ [caretWord, leafWord]))

/-- The words of the tower for a budget. -/
def words : Nat → List Word
  | 0 => [leafWord]
  | n + 1 => chainAllWords Tier.all (n + 1) (powerWords (n + 1) (words n)) ++
      [questionWord, leafWord]

/-! ### The height of a tower -/

/-- Every square is one node more. -/
theorem height_squared (k : Nat) (e : Expr) : (squared k e).height = e.height + k := by
  induction k generalizing e with
  | zero => rfl
  | succ k ih =>
      show (squared k (.unary .square e)).height = _
      rw [ih, Expr.height]
      omega

/-- Every operator of a chain is one node more. -/
theorem height_chained (t : Tier) (k : Nat) (e : Expr) :
    (chained t k e).height = e.height + k := by
  induction k generalizing e with
  | zero => rfl
  | succ k ih =>
      have hpos := e.height_pos
      have hleaf : leaf.height = 1 := rfl
      show (chained t k ((jointOf t).join e leaf)).height = _
      rw [ih, Joint.height_join, hleaf]
      omega

/-- Every tier puts as many nodes on top. -/
theorem height_chainedAll (tiers : List Tier) (k : Nat) (e : Expr) :
    (chainedAll tiers k e).height = e.height + tiers.length * k := by
  induction tiers with
  | nil => rw [chainedAll, List.length_nil, Nat.zero_mul, Nat.add_zero]
  | cons t tighter ih =>
      rw [chainedAll, height_chained, ih, List.length_cons, Nat.succ_mul, Nat.add_assoc]

/-- **A tower is as high as its budget admits.** -/
theorem height_tree (n : Nat) : (tree n).height = heightWithin n := by
  induction n with
  | zero => rfl
  | succ n ih =>
      have hleaf : leaf.height = 1 := rfl
      have htiers : Tier.all.length = 6 := rfl
      rw [tree, storey, Expr.height, height_chainedAll, Expr.height, height_squared,
        Expr.height, ih, hleaf, htiers, heightWithin]
      omega

/-! ### Reading a tower -/

variable {scope : Scope}

/-- A rule reads the tree off all tokens of the kinds of the words, wherever they stand in a
source, and leaves what follows them if that is fit to end them. -/
def ReadAs (rule : Rule) (ws : List Word) (e : Expr) (ends : List Token → Prop) : Prop :=
  ∀ ts rest, ts.map Token.kind = ws.map Word.kind → ends rest → rule (ts ++ rest) = .ok (e, rest)

/-- Squares are read with a level of the budget for each. -/
theorem reads_squares (k : Nat) (e : Expr) :
    ReadAs (suffixes scope (innerAt scope k) e) (List.replicate k squareWord) (squared k e)
      fun rest => suffix? rest = none := by
  induction k generalizing e with
  | zero =>
      intro ts rest hts hends
      obtain rfl := List.map_eq_nil_iff.mp hts
      exact suffixes_of_suffix?_eq_none hends
  | succ k ih =>
      intro ts rest hts hends
      obtain ⟨span, more, rfl, hmore⟩ := map_kind_eq_cons hts
      have hsuffix : suffix? (⟨.squared, span⟩ :: (more ++ rest)) = some .square := rfl
      show suffixes scope _ e (⟨.squared, span⟩ :: (more ++ rest)) = _
      rw [suffixes, hsuffix]
      dsimp only
      rw [nested_innerAt]
      exact ih (.unary .square e) more rest hmore hends

/-- The symbol is read as a chain of any tiers, whatever the budget. -/
theorem joined_leaf {inner : Option (Unit → Inner)} {rest : List Token} (span : Span)
    (hends : EndsPower rest) (tiers : List Tier) (hjoints : ∀ t ∈ tiers, NoJoint t rest) :
    joined scope inner tiers (⟨.name "x", span⟩ :: rest) = .ok (leaf, rest) := by
  induction tiers with
  | nil =>
      have hprimary : primary scope inner (⟨.name "x", span⟩ :: rest) = .ok (leaf, rest) :=
        primary_eq_symbol ofName?_leaf span hends.operand
      have hsuffixes : suffixes scope inner leaf rest = .ok (leaf, rest) :=
        suffixes_of_suffix?_eq_none hends.suffix
      exact power_eq_of_signed hends.caret (signed_eq_of_suffixes rfl hprimary hsuffixes)
  | cons t tighter ih =>
      rw [joined, ih fun u hu => hjoints u (List.mem_cons_of_mem _ hu)]
      exact chain_of_noJoint (hjoints t List.mem_cons_self)

/-- The symbol is read as a whole expression, whatever the budget. -/
theorem assignment_leaf {inner : Option (Unit → Inner)} {rest : List Token} (span : Span)
    (hends : EndsExpression rest) :
    assignment scope inner (⟨.name "x", span⟩ :: rest) = .ok (leaf, rest) := by
  have hif : nextKeyword? (⟨.name "x", span⟩ :: rest) ≠ some .if := by
    show Keyword.ofName? "x" ≠ some .if
    rw [ofName?_leaf]
    exact nofun
  have hjoined : joined scope inner Tier.all (⟨.name "x", span⟩ :: rest) = .ok (leaf, rest) :=
    joined_leaf span hends.toEndsPower Tier.all fun t _ => hends.joint t
  have hconditional := conditional_eq_of_joined hif hends.question hjoined
  rw [← List.singleton_append] at hconditional ⊢
  exact assignment_eq_of_conditional hconditional hends.assign

/-- What ends the left operand of an operator is an operator of its tier, or what ends the
whole chain. -/
theorem ends_chainWords {t : Tier} {k : Nat} {ts rest : List Token}
    (hts : ts.map Token.kind = (chainWords t k).map Word.kind)
    (hends : (Level.tier t).Ends rest) : (Level.tier t).Ends (ts ++ rest) := by
  cases k with
  | zero =>
      obtain rfl := List.map_eq_nil_iff.mp hts
      exact hends
  | succ k =>
      obtain ⟨span, more, rfl, -⟩ := map_kind_eq_cons hts
      exact ends_jointWord t span (more ++ rest)

/-- A chain of operators is read with a level of the budget for each. -/
theorem reads_chain (t : Tier) (k : Nat) (e : Expr) :
    ReadAs (chain scope (innerAt scope k) t e) (chainWords t k) (chained t k e)
      fun rest => (Level.tier t).Ends rest ∧ NoJoint t rest := by
  induction k generalizing e with
  | zero =>
      intro ts rest hts hends
      obtain rfl := List.map_eq_nil_iff.mp hts
      exact chain_of_noJoint hends.2
  | succ k ih =>
      intro ts rest hts hends
      obtain ⟨span, others, rfl, hothers⟩ := map_kind_eq_cons hts
      obtain ⟨span', more, rfl, hmore⟩ := map_kind_eq_cons hothers
      obtain ⟨hpower, hjoints⟩ := ends_chainWords hmore hends.1
      have hoperand : joined scope (innerAt scope k) t.tighter
          (⟨.name "x", span'⟩ :: (more ++ rest)) = .ok (leaf, more ++ rest) :=
        joined_leaf span' hpower t.tighter hjoints
      show chain scope _ t e (_ :: ⟨.name "x", span'⟩ :: (more ++ rest)) = _
      rw [chain]
      dsimp only
      rw [joint?_jointWord]
      dsimp only
      rw [nested_innerAt]
      dsimp only [level]
      rw [hoperand]
      exact ih ((jointOf t).join e leaf) more rest hmore hends

/-- Each tier spends its budget on top of what the tighter tiers have read. -/
theorem reads_joined {k : Nat} {base : List Word} {e : Expr}
    (hbase : ReadAs (power scope (innerAt scope k)) base e EndsPower) (tiers : List Tier)
    (htiers : ∀ t tighter, tiers = t :: tighter → tighter = t.tighter) :
    ReadAs (joined scope (innerAt scope k) tiers) (chainAllWords tiers k base)
      (chainedAll tiers k e) fun rest => EndsPower rest ∧ ∀ t ∈ tiers, NoJoint t rest := by
  induction tiers with
  | nil => exact fun ts rest hts hends => hbase ts rest hts hends.1
  | cons t tighter ih =>
      obtain rfl := htiers t tighter rfl
      intro ts rest hts ⟨hpower, hjoints⟩
      rw [chainAllWords, List.map_append] at hts
      obtain ⟨first, second, rfl, hfirst, hsecond⟩ := List.map_eq_append_iff.mp hts
      have hends : (Level.tier t).Ends rest :=
        ⟨hpower, fun u hu => hjoints u (List.mem_cons_of_mem _ hu)⟩
      have hleft := ih (fun u more heq => tighter_of_tighter_cons heq) first (second ++ rest)
        hfirst (ends_chainWords hsecond hends)
      rw [List.append_assoc, joined, hleft]
      exact reads_chain t k _ second rest hsecond ⟨hends, hjoints t List.mem_cons_self⟩

/-- With a level left, an expression is read with one level less. -/
theorem expression_innerAt (n : Nat) (ts : List Token) :
    expression scope (innerAt scope (n + 1)) ts = assignment scope (innerAt scope n) ts :=
  nested_innerAt n Inner.assignment ts

/-- What stands in brackets is read with one level less than the power around it. -/
theorem reads_power {n : Nat} {inside : List Word} {e : Expr}
    (hinside : ReadAs (assignment scope (innerAt scope n)) inside e fun rest =>
      EndsExpression rest ∧ NotNext .colon rest) :
    ReadAs (power scope (innerAt scope (n + 1))) (powerWords (n + 1) inside)
      (.binary .pow (squared (n + 1) (.unary .abs e)) leaf) EndsPower := by
  intro ts rest hts hends
  rw [powerWords, List.map_cons, List.map_append, List.map_cons, List.map_append] at hts
  obtain ⟨left, ts₁, rfl, hts₁⟩ := map_kind_eq_cons hts
  obtain ⟨within, ts₂, rfl, hwithin, hts₂⟩ := List.map_eq_append_iff.mp hts₁
  obtain ⟨right, ts₃, rfl, hts₃⟩ := map_kind_eq_cons hts₂
  obtain ⟨squares, ts₄, rfl, hsquares, hts₄⟩ := List.map_eq_append_iff.mp hts₃
  obtain ⟨caret, ts₅, rfl, hts₅⟩ := map_kind_eq_cons hts₄
  obtain ⟨span, rfl⟩ := map_kind_eq_singleton hts₅
  have hexponent : power scope (innerAt scope n) (⟨.name "x", span⟩ :: rest) =
      .ok (leaf, rest) := joined_leaf span hends [] nofun
  have hsuffixes : suffixes scope (innerAt scope (n + 1)) (.unary .abs e)
      (squares ++ ⟨.caret, caret⟩ :: ⟨.name "x", span⟩ :: rest) =
      .ok (squared (n + 1) (.unary .abs e), ⟨.caret, caret⟩ :: ⟨.name "x", span⟩ :: rest) :=
    reads_squares (n + 1) (.unary .abs e) squares _ hsquares rfl
  have hprimary : primary scope (innerAt scope (n + 1)) (⟨.leftBracket, left⟩ ::
      (within ++ ⟨.rightBracket, right⟩ ::
        (squares ++ ⟨.caret, caret⟩ :: ⟨.name "x", span⟩ :: rest))) =
      .ok (.unary .abs e, squares ++ ⟨.caret, caret⟩ :: ⟨.name "x", span⟩ :: rest) := by
    refine primary_eq_abs left right ?_
    rw [expression_innerAt]
    exact hinside within _ hwithin ⟨endsExpression_cons right _ (.inr (.inl rfl)), nofun⟩
  have hpower := power_eq_of_exponent (signed_eq_of_suffixes rfl hprimary hsuffixes) hexponent
  simpa [openWord, closeWord, caretWord, leafWord] using hpower

/-- The operators of a tower stand behind the power. -/
theorem exists_chainAllWords_eq (tiers : List Tier) (k : Nat) (base : List Word) :
    ∃ more, chainAllWords tiers k base = base ++ more := by
  induction tiers with
  | nil => exact ⟨[], (List.append_nil base).symm⟩
  | cons t tighter ih =>
      obtain ⟨more, hmore⟩ := ih
      exact ⟨more ++ chainWords t k, by rw [chainAllWords, hmore, List.append_assoc]⟩

/-- A tower begins as an operand does. -/
theorem opens_words {n : Nat} {ts : List Token}
    (hts : ts.map Token.kind = (words n).map Word.kind) : Level.operand.Opens ts := by
  cases n with
  | zero =>
      obtain ⟨span, more, rfl, -⟩ := map_kind_eq_cons hts
      have hkeyword : (Token.Kind.name "x").keyword? = none := ofName?_leaf
      exact ⟨_, _, rfl, .inl ⟨startsOperand_name ofName?_leaf, hkeyword ▸ nofun⟩⟩
  | succ n =>
      obtain ⟨more, hmore⟩ :=
        exists_chainAllWords_eq Tier.all (n + 1) (powerWords (n + 1) (words n))
      rw [words, hmore, powerWords] at hts
      obtain ⟨span, others, rfl, -⟩ := map_kind_eq_cons hts
      exact ⟨_, _, rfl, .inl ⟨rfl, nofun⟩⟩

/-- **The words of a tower are read as the tower with just its budget**, by induction on the
budget. -/
theorem reads_words (n : Nat) :
    ReadAs (assignment scope (innerAt scope n)) (words n) (tree n) fun rest =>
      EndsExpression rest ∧ NotNext .colon rest := by
  induction n with
  | zero =>
      intro ts rest hts hends
      obtain ⟨span, rfl⟩ := map_kind_eq_singleton hts
      exact assignment_leaf span hends.1
  | succ n ih =>
      intro ts rest hts ⟨hends, hcolon⟩
      have hif : nextKeyword? (ts ++ rest) ≠ some .if := by
        obtain ⟨t, more, heq, hbegins⟩ := (opens_words hts).append rest
        rw [heq]
        exact hbegins.keyword?_ne
      rw [words, List.map_append] at hts
      obtain ⟨first, second, rfl, hfirst, hsecond⟩ := List.map_eq_append_iff.mp hts
      obtain ⟨question, others, rfl, hothers⟩ := map_kind_eq_cons hsecond
      obtain ⟨span, rfl⟩ := map_kind_eq_singleton hothers
      have hquestion : EndsOperators (⟨.question, question⟩ :: ⟨.name "x", span⟩ :: rest) :=
        endsOperators_cons question _ (.inr (.inl rfl))
      have htest := reads_joined (reads_power ih) Tier.all
        (fun t _ heq => by cases heq; rfl) first _ hfirst
        ⟨hquestion.toEndsPower, fun t _ => hquestion.joint t⟩
      have hconsequent : expression scope (innerAt scope (n + 1)) (⟨.name "x", span⟩ :: rest) =
          .ok (leaf, rest) := by
        rw [expression_innerAt]
        exact assignment_leaf span hends
      refine assignment_eq_of_conditional ?_ hends.assign
      rw [List.append_assoc] at hif ⊢
      exact conditional_eq_of_consequent hif htest hconsequent hcolon

/-- A tower is read with one level more than its budget. -/
theorem parse_source (dialect : Dialect) (n : Nat) :
    parse ⟨dialect, n + 1⟩ (Word.source (words n)) = .ok ⟨dialect, [tree n]⟩ := by
  obtain ⟨ts, htokens, hkinds⟩ := Word.tokenize_source (words n)
  have hopens := opens_words hkinds
  let scope : Scope := ⟨⟨dialect, n + 1⟩, Text.byteLength (Word.source (words n)).toList⟩
  have hread : assignment scope (innerAt scope n) (ts ++ []) = .ok (tree n, []) :=
    reads_words n ts [] hkinds ⟨endsExpression_nil, nofun⟩
  rw [List.append_nil, ← expression_innerAt, ← expressionWithin_eq] at hread
  rw [parse, htokens, ok_bind, ofTokens]
  dsimp only
  rw [dropMark_of_opens hopens]
  obtain ⟨t, more, rfl, -⟩ := hopens
  rw [List.length_cons, Grammar.statements, hread]
  rfl

end Tower

/-! ### What a bound on nesting admits -/

/-- From a bound of two on, trees can be higher than the bound on nesting. -/
theorem lt_heightLimit {maxDepth : Nat} (h : 2 ≤ maxDepth) : maxDepth < heightLimit maxDepth := by
  obtain ⟨n, rfl⟩ : ∃ n, maxDepth = n + 2 := ⟨maxDepth - 2, by omega⟩
  rw [heightLimit_succ, heightWithin]
  omega

/-- **What the bound on nesting admits.** No statement that can be read is higher than the
limit that goes with the bound, which is quadratic in it; if the bound admits any formula, it
admits one of just that height. So the bound itself bounds the height only if it is at most
one. -/
theorem height_admitted (options : Options) :
    (∀ source f, parse options source = .ok f →
      ∀ e ∈ f.statements, e.height ≤ heightLimit options.maxDepth) ∧
    (0 < options.maxDepth → ∃ source f, parse options source = .ok f ∧
      ∃ e ∈ f.statements, e.height = heightLimit options.maxDepth) ∧
    ((∀ source f, parse options source = .ok f →
      ∀ e ∈ f.statements, e.height ≤ options.maxDepth) ↔ options.maxDepth ≤ 1) := by
  have hattained : 0 < options.maxDepth → ∃ source f, parse options source = .ok f ∧
      ∃ e ∈ f.statements, e.height = heightLimit options.maxDepth := by
    intro hpos
    obtain ⟨dialect, maxDepth⟩ := options
    obtain ⟨n, rfl⟩ := Nat.exists_eq_add_one.mpr hpos
    refine ⟨_, _, Tower.parse_source dialect n, Tower.tree n, List.mem_singleton_self _, ?_⟩
    rw [Tower.height_tree, heightLimit_succ]
  refine ⟨fun _ _ => height_le_of_parse, hattained, ?_, ?_⟩
  · intro hbounded
    by_contra hlarge
    have hle : 2 ≤ options.maxDepth := by omega
    obtain ⟨source, f, hparse, e, he, hheight⟩ := hattained (by omega)
    have hlt := lt_heightLimit hle
    have hsmall := hbounded source f hparse e he
    omega
  · intro hsmall source f hparse e he
    have hle := height_le_of_parse hparse e he
    have hlimit : heightLimit options.maxDepth ≤ options.maxDepth := by
      obtain h | h : options.maxDepth = 0 ∨ options.maxDepth = 1 := by omega
      · rw [h]
        decide
      · rw [h]
        decide
    omega

/-- The bound that holds unless another is asked for admits a formula of 14302 levels. -/
theorem height_admitted_default :
    0 < defaultMaxDepth ∧ ∃ source f, parse ⟨.simplified, defaultMaxDepth⟩ source = .ok f ∧
      ∃ e ∈ f.statements, e.height = 14302 := by
  have hlimit : heightLimit defaultMaxDepth = 14302 := by simp [heightLimit, defaultMaxDepth]
  rw [← hlimit]
  exact ⟨by decide, (height_admitted ⟨.simplified, defaultMaxDepth⟩).2.1 (by decide)⟩

/-- With a bound of two, three operands in one chain are refused, but a product as the operand
of a sum is read, and is as high. -/
theorem height_exceeds_depth :
    parse ⟨.simplified, 2⟩ "x*x*x" = .error ⟨4, .nestedTooDeep 2⟩ ∧
      parse ⟨.simplified, 2⟩ "x*x+x" =
        .ok ⟨.simplified, [.binary .add (.binary .mul (.symbol "x") (.symbol "x")) (.symbol "x")]⟩ ∧
      (Expr.binary .add (.binary .mul (.symbol "x") (.symbol "x")) (.symbol "x")).height = 3 := by
  have hchain : tokenize "x*x*x" = .ok [⟨.name "x", ⟨0, 1⟩⟩, ⟨.star, ⟨1, 2⟩⟩,
      ⟨.name "x", ⟨2, 3⟩⟩, ⟨.star, ⟨3, 4⟩⟩, ⟨.name "x", ⟨4, 5⟩⟩] := by cbv
  have hsum : tokenize "x*x+x" = .ok [⟨.name "x", ⟨0, 1⟩⟩, ⟨.star, ⟨1, 2⟩⟩,
      ⟨.name "x", ⟨2, 3⟩⟩, ⟨.plus, ⟨3, 4⟩⟩, ⟨.name "x", ⟨4, 5⟩⟩] := by cbv
  refine ⟨?_, ?_, rfl⟩
  · rw [parse, hchain]
    rfl
  · rw [parse, hsum]
    rfl

end Dashboard.Formula
