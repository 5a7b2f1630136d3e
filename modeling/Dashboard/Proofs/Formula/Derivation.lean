import Dashboard.Formula.Grammar

/-!
# The Grammar as a Relation

This module states the grammar of formulas without a reader: as rules by which tokens derive
a tree. The grammar is **stratified**. From loosest to tightest its strata are assignments,
conditionals, the six tiers of left-grouping operators, powers, signs, suffixes and operands;
what stands in a stratum also stands in the next looser one. A rule that puts two phrases
next to each other says of which strata they are, and this is all there is to precedence and
grouping.

## What follows

A few places of the grammar are decided by the token that follows. So the relation carries
that token along, if there is one, and the rules say what it must not be:

* a percent sign is a suffix only if no operand can begin behind it, and takes a remainder
  only if one begins there;
* a conditional has no second branch only if no mark of one follows, so that such a mark goes
  with the innermost conditional of its spelling;
* a conditional in words that stands as an operand reaches as far as it can;
* a name is a symbol only if no parenthesis follows, and the name of a call otherwise.

## Main results

* `operatorOf_iff` — the operators of the grammar are those that are read.
* `Derives` — what tokens derive, by induction on the rules.
* `DerivesFormula` — the statements that tokens derive.
-/

namespace Dashboard.Formula

open Grammar (Tier Joint)

/-! ### Strata and operators -/

/-- The strata of the grammar, loosest first, and two kinds of phrases beside them. -/
inductive Stratum where
  | assignment
  | conditional
  | tier (tier : Tier)
  | power
  | sign
  | suffix
  | operand
  /-- A conditional that is written with words. -/
  | branching
  /-- A call up to the end of some argument, with its parenthesis still open. -/
  | opening
  deriving DecidableEq, Repr

/-- The stratum of the right operand of an operator. -/
def Stratum.within : Tier → Stratum
  | .or => .tier .and
  | .and => .tier .equality
  | .equality => .tier .relational
  | .relational => .tier .additive
  | .additive => .tier .multiplicative
  | .multiplicative => .power

/-- The operators of each tier and the tokens that spell them. -/
inductive OperatorOf : Tier → Token.Kind → Joint → Prop
  | eitherOr : OperatorOf .or .eitherOr (.logical .or)
  | or {kind : Token.Kind} : kind.keyword? = some .or → OperatorOf .or kind (.logical .or)
  | bothAnd : OperatorOf .and .bothAnd (.logical .and)
  | and {kind : Token.Kind} : kind.keyword? = some .and → OperatorOf .and kind (.logical .and)
  | equal : OperatorOf .equality .equal (.binary .eq)
  | equals {kind : Token.Kind} :
      kind.keyword? = some .equals → OperatorOf .equality kind (.binary .eq)
  | notEqual : OperatorOf .equality .notEqual (.binary .ne)
  | less : OperatorOf .relational .less (.binary .lt)
  | lessEqual : OperatorOf .relational .lessEqual (.binary .le)
  | greater : OperatorOf .relational .greater (.binary .gt)
  | greaterEqual : OperatorOf .relational .greaterEqual (.binary .ge)
  | plus : OperatorOf .additive .plus (.binary .add)
  | minus : OperatorOf .additive .minus (.binary .sub)
  | star : OperatorOf .multiplicative .star (.binary .mul)
  | slash : OperatorOf .multiplicative .slash (.binary .div)
  | percent : OperatorOf .multiplicative .percent (.binary .mod)

/-- The operators of the grammar are those that the rules of a tier look for. -/
theorem operatorOf_iff {tier : Tier} {kind : Token.Kind} {joint : Joint} :
    OperatorOf tier kind joint ↔ tier.joint? kind = some joint := by
  constructor
  · intro h
    cases h with
    | or hkeyword | and hkeyword =>
        rw [Tier.joint?, hkeyword]
        simp
    | @equals kind hkeyword =>
        cases kind with
        | name value =>
            rw [Tier.joint?, hkeyword]
            · rfl
            · exact nofun
            · exact nofun
        | _ => cases hkeyword
    | _ => rfl
  · intro h
    cases tier with
    | or =>
        rw [Tier.joint?, Option.ite_none_right_eq_some] at h
        obtain ⟨hkind, hjoint⟩ := h
        cases hjoint
        rw [Bool.or_eq_true] at hkind
        rcases hkind with hkind | hkind
        · cases kind with
          | eitherOr => exact .eitherOr
          | _ => cases hkind
        · exact .or (beq_iff_eq.mp hkind)
    | and =>
        rw [Tier.joint?, Option.ite_none_right_eq_some] at h
        obtain ⟨hkind, hjoint⟩ := h
        cases hjoint
        rw [Bool.or_eq_true] at hkind
        rcases hkind with hkind | hkind
        · cases kind with
          | bothAnd => exact .bothAnd
          | _ => cases hkind
        · exact .and (beq_iff_eq.mp hkind)
    | equality =>
        cases kind with
        | equal => cases h; exact .equal
        | notEqual => cases h; exact .notEqual
        | name value =>
            rw [Tier.joint?, Option.ite_none_right_eq_some] at h
            · obtain ⟨hkind, hjoint⟩ := h
              cases hjoint
              exact .equals (beq_iff_eq.mp hkind)
            · exact nofun
            · exact nofun
        | _ => cases h
    | relational => cases kind <;> cases h <;> constructor
    | additive => cases kind <;> cases h <;> constructor
    | multiplicative => cases kind <;> cases h <;> constructor

/-! ### What follows -/

/-- The two spellings of a conditional. -/
inductive Spelling where
  /-- With a question mark and a colon. -/
  | signs
  /-- With `if`, `then` and `else`. -/
  | words
  deriving DecidableEq, Repr

/-- Whether a token is the mark of a second branch in a spelling. -/
def Spelling.IsAlternate : Spelling → Token.Kind → Prop
  | .signs, kind => kind = .colon
  | .words, kind => kind.keyword? = some .else

/-- No mark of a second branch follows. -/
def NoAlternate (spelling : Spelling) (next : Option Token.Kind) : Prop :=
  ∀ kind ∈ next, ¬ spelling.IsAlternate kind

/-- The tokens that continue an expression. -/
inductive Token.Kind.Continues : Token.Kind → Prop
  | operator {tier : Tier} {kind : Token.Kind} {joint : Joint} :
      OperatorOf tier kind joint → Continues kind
  | caret : Continues .caret
  | squared : Continues .squared
  | question : Continues .question
  | assign : Continues .assign

/-- Nothing follows that continues an expression. -/
def Closed (next : Option Token.Kind) : Prop :=
  ∀ kind ∈ next, ¬ kind.Continues

/-- Nothing follows that an operand can begin with. -/
def BeginsNothing (next : Option Token.Kind) : Prop :=
  ∀ kind ∈ next, kind.startsOperand = false

/-! ### Derivations -/

/-- **The rules of the grammar**: that some tokens derive a tree as a phrase of a stratum, if
they are followed by a token or by none. -/
inductive Derives (dialect : Dialect) :
    Stratum → List Token.Kind → Option Token.Kind → Expr → Prop
  /-- Assignments group to the right. -/
  | assign {target kinds : List Token.Kind} {next : Option Token.Kind} {name : String}
      {value : Expr} : dialect = .legacy →
      Derives dialect .conditional target (some .assign) (.symbol name) →
      Derives dialect .assignment kinds next value →
      Derives dialect .assignment (target ++ .assign :: kinds) next (.assignment name value)
  | ofConditional {kinds : List Token.Kind} {next : Option Token.Kind} {e : Expr} :
      Derives dialect .conditional kinds next e → Derives dialect .assignment kinds next e
  | choice {left right : List Token.Kind} {next : Option Token.Kind} {test consequent : Expr} :
      Derives dialect (.tier .or) left (some .question) test →
      Derives dialect .assignment right next consequent → NoAlternate .signs next →
      Derives dialect .conditional (left ++ .question :: right) next
        (.conditional test consequent none)
  | alternative {left middle right : List Token.Kind} {next : Option Token.Kind}
      {test consequent alternate : Expr} :
      Derives dialect (.tier .or) left (some .question) test →
      Derives dialect .assignment middle (some .colon) consequent →
      Derives dialect .assignment right next alternate →
      Derives dialect .conditional (left ++ .question :: (middle ++ .colon :: right)) next
        (.conditional test consequent (some alternate))
  | ofOr {kinds : List Token.Kind} {next : Option Token.Kind} {e : Expr} :
      Derives dialect (.tier .or) kinds next e → Derives dialect .conditional kinds next e
  | ofBranching {kinds : List Token.Kind} {next : Option Token.Kind} {e : Expr} :
      Derives dialect .branching kinds next e → Derives dialect .conditional kinds next e
  | branch {ifWord thenWord : Token.Kind} {left right : List Token.Kind}
      {next : Option Token.Kind} {test consequent : Expr} :
      ifWord.keyword? = some .if → thenWord.keyword? = some .then →
      Derives dialect .assignment left (some thenWord) test →
      Derives dialect .assignment right next consequent → NoAlternate .words next →
      Derives dialect .branching (ifWord :: (left ++ thenWord :: right)) next
        (.conditional test consequent none)
  | branchElse {ifWord thenWord elseWord : Token.Kind} {left middle right : List Token.Kind}
      {next : Option Token.Kind} {test consequent alternate : Expr} :
      ifWord.keyword? = some .if → thenWord.keyword? = some .then →
      elseWord.keyword? = some .else →
      Derives dialect .assignment left (some thenWord) test →
      Derives dialect .assignment middle (some elseWord) consequent →
      Derives dialect .assignment right next alternate →
      Derives dialect .branching
        (ifWord :: (left ++ thenWord :: (middle ++ elseWord :: right))) next
        (.conditional test consequent (some alternate))
  /-- Operators of a tier group to the left. A percent sign takes a remainder only if an
  operand begins behind it. -/
  | joined {tier : Tier} {kind : Token.Kind} {joint : Joint} {left right : List Token.Kind}
      {next : Option Token.Kind} {e e' : Expr} : OperatorOf tier kind joint →
      Derives dialect (.tier tier) left (some kind) e →
      Derives dialect (.within tier) right next e' →
      (kind = .percent → right.head?.any Token.Kind.startsOperand = true) →
      Derives dialect (.tier tier) (left ++ kind :: right) next (joint.join e e')
  | ofWithin {tier : Tier} {kinds : List Token.Kind} {next : Option Token.Kind} {e : Expr} :
      Derives dialect (.within tier) kinds next e → Derives dialect (.tier tier) kinds next e
  /-- Powers group to the right. -/
  | power {left right : List Token.Kind} {next : Option Token.Kind} {base exponent : Expr} :
      Derives dialect .sign left (some .caret) base →
      Derives dialect .power right next exponent →
      Derives dialect .power (left ++ .caret :: right) next (.binary .pow base exponent)
  | ofSign {kinds : List Token.Kind} {next : Option Token.Kind} {e : Expr} :
      Derives dialect .sign kinds next e → Derives dialect .power kinds next e
  | minus {kinds : List Token.Kind} {next : Option Token.Kind} {e : Expr} :
      Derives dialect .sign kinds next e →
      Derives dialect .sign (.minus :: kinds) next (.unary .minus e)
  | plus {kinds : List Token.Kind} {next : Option Token.Kind} {e : Expr} :
      Derives dialect .sign kinds next e →
      Derives dialect .sign (.plus :: kinds) next (.unary .plus e)
  | ofSuffix {kinds : List Token.Kind} {next : Option Token.Kind} {e : Expr} :
      Derives dialect .suffix kinds next e → Derives dialect .sign kinds next e
  | squared {kinds : List Token.Kind} {next : Option Token.Kind} {e : Expr} :
      Derives dialect .suffix kinds (some .squared) e →
      Derives dialect .suffix (kinds ++ [.squared]) next (.unary .square e)
  /-- A percent sign is a suffix only if no operand can begin behind it. -/
  | percent {kinds : List Token.Kind} {next : Option Token.Kind} {e : Expr} :
      Derives dialect .suffix kinds (some .percent) e → BeginsNothing next →
      Derives dialect .suffix (kinds ++ [.percent]) next (.unary .percent e)
  | ofOperand {kinds : List Token.Kind} {next : Option Token.Kind} {e : Expr} :
      Derives dialect .operand kinds next e → Derives dialect .suffix kinds next e
  | number (value : Float) {next : Option Token.Kind} :
      Derives dialect .operand [.number value] next (.number value)
  | text (value : String) {next : Option Token.Kind} :
      Derives dialect .operand [.text value] next (.text value)
  | true {kind : Token.Kind} {next : Option Token.Kind} : kind.keyword? = some .true →
      Derives dialect .operand [kind] next (.boolean true)
  | false {kind : Token.Kind} {next : Option Token.Kind} : kind.keyword? = some .false →
      Derives dialect .operand [kind] next (.boolean false)
  | symbol {name : String} {next : Option Token.Kind} : Keyword.ofName? name = none →
      next ≠ some .leftParen → Derives dialect .operand [.name name] next (.symbol name)
  | parentheses {kinds : List Token.Kind} {next : Option Token.Kind} {e : Expr} :
      Derives dialect .assignment kinds (some .rightParen) e →
      Derives dialect .operand (.leftParen :: (kinds ++ [.rightParen])) next e
  | brackets {kinds : List Token.Kind} {next : Option Token.Kind} {e : Expr} :
      Derives dialect .assignment kinds (some .rightBracket) e →
      Derives dialect .operand (.leftBracket :: (kinds ++ [.rightBracket])) next (.unary .abs e)
  /-- A conditional in words that stands as an operand reaches as far as it can. -/
  | branchingOperand {kinds : List Token.Kind} {next : Option Token.Kind} {e : Expr} :
      Derives dialect .branching kinds next e → Closed next →
      Derives dialect .operand kinds next e
  | firstArgument {callee : String} {kinds : List Token.Kind} {next : Option Token.Kind}
      {e : Expr} : Keyword.ofName? callee = none →
      Derives dialect .assignment kinds next e →
      Derives dialect .opening (.name callee :: .leftParen :: kinds) next (.call callee [e])
  | furtherArgument {callee : String} {arguments : List Expr} {left right : List Token.Kind}
      {next : Option Token.Kind} {e : Expr} :
      Derives dialect .opening left (some .comma) (.call callee arguments) →
      Derives dialect .assignment right next e →
      Derives dialect .opening (left ++ .comma :: right) next (.call callee (arguments ++ [e]))
  /-- An accessor has a single text or symbol as its argument. -/
  | call {callee : String} {arguments : List Expr} {kinds : List Token.Kind}
      {next : Option Token.Kind} :
      Derives dialect .opening kinds (some .rightParen) (.call callee arguments) →
      (isAccessor callee = Bool.true → (sourceName? arguments).isSome = Bool.true) →
      Derives dialect .operand (kinds ++ [.rightParen]) next (.call callee arguments)
  | emptyCall {callee : String} {next : Option Token.Kind} : Keyword.ofName? callee = none →
      isAccessor callee = Bool.false →
      Derives dialect .operand [.name callee, .leftParen, .rightParen] next (.call callee [])

/-- The statements that some tokens derive. Only the legacy dialect has several, separated by
semicolons, and admits a semicolon behind the last. -/
inductive DerivesFormula (dialect : Dialect) : List Token.Kind → List Expr → Prop
  | single {kinds : List Token.Kind} {e : Expr} :
      Derives dialect .assignment kinds none e → DerivesFormula dialect kinds [e]
  | trailing {kinds : List Token.Kind} {e : Expr} : dialect = .legacy →
      Derives dialect .assignment kinds (some .semicolon) e →
      DerivesFormula dialect (kinds ++ [.semicolon]) [e]
  | statement {kinds others : List Token.Kind} {e : Expr} {es : List Expr} :
      dialect = .legacy → Derives dialect .assignment kinds (some .semicolon) e →
      DerivesFormula dialect others es →
      DerivesFormula dialect (kinds ++ .semicolon :: others) (e :: es)

end Dashboard.Formula
