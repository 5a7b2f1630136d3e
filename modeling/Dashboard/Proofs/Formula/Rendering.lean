import Dashboard.Formula.Grammar

/-!
# Rendering Formula Trees

A tree is rendered as the tokens that spell it, with parentheses only where they are needed.
Every tree has a **level**, which says how tightly its outermost construct binds, and every
position in a tree requires a level. A tree that binds looser than its position requires is
put in parentheses.

## The table of levels

From loosest to tightest: statements, the six tiers of left-grouping operators, powers,
signs, suffixes, operands. The left operand of an operator of a tier may be of the same tier,
the right one must bind tighter. The base of a power may have a sign in front, its exponent
may be a power. Conditionals and assignments are statements, and no position but that of the
whole formula requires as little as that.

A percent sign in front of a sign would be taken for a suffix. So the right operand of a
remainder is also put in parentheses if it begins with a sign.

## Main results

* `Level.rank_looser` — the levels follow each other without a gap.
* `Level.rank_injective` — no two levels bind equally tightly.
-/

namespace Dashboard.Formula

open Grammar (Tier Joint)

/-! ### Levels -/

/-- How tightly a construct binds. -/
inductive Level where
  | statement
  | tier (tier : Tier)
  | power
  | sign
  | suffix
  | operand
  deriving DecidableEq, Repr

/-- The place of a tier among the levels. -/
def rankOfTier : Tier → Nat
  | .or => 1
  | .and => 2
  | .equality => 3
  | .relational => 4
  | .additive => 5
  | .multiplicative => 6

/-- The place of a level, loosest first. -/
def Level.rank : Level → Nat
  | .statement => 0
  | .tier t => rankOfTier t
  | .power => 7
  | .sign => 8
  | .suffix => 9
  | .operand => 10

/-- The level above all operators of a tier, which a right operand has to have. -/
def rightLevel (t : Tier) : Level :=
  match t.tighter with
  | [] => .power
  | t' :: _ => .tier t'

/-- The next looser level; there is none below a statement. -/
def Level.looser : Level → Level
  | .statement => .statement
  | .tier .or => .statement
  | .tier .and => .tier .or
  | .tier .equality => .tier .and
  | .tier .relational => .tier .equality
  | .tier .additive => .tier .relational
  | .tier .multiplicative => .tier .additive
  | .power => .tier .multiplicative
  | .sign => .power
  | .suffix => .sign
  | .operand => .suffix

/-- The next looser level has the rank before. -/
theorem Level.rank_looser (l : Level) : l.looser.rank = l.rank - 1 := by
  cases l with
  | tier t => cases t <;> rfl
  | _ => rfl

/-- The level at a place. -/
def Level.ofRank : Nat → Level
  | 0 => .statement
  | 1 => .tier .or
  | 2 => .tier .and
  | 3 => .tier .equality
  | 4 => .tier .relational
  | 5 => .tier .additive
  | 6 => .tier .multiplicative
  | 7 => .power
  | 8 => .sign
  | 9 => .suffix
  | _ => .operand

/-- A level is found by its rank. -/
theorem Level.ofRank_rank (l : Level) : ofRank l.rank = l := by
  cases l with
  | tier t => cases t <;> rfl
  | _ => rfl

/-- No two levels have the same place. -/
theorem Level.rank_injective {l l' : Level} (h : l.rank = l'.rank) : l = l' := by
  rw [← l.ofRank_rank, h, l'.ofRank_rank]

/-! ### Operators -/

/-- The tier of an operation on two operands; a power has none. -/
def BinaryOp.tier? : BinaryOp → Option Tier
  | .add | .sub => some .additive
  | .mul | .div | .mod => some .multiplicative
  | .pow => none
  | .eq | .ne => some .equality
  | .lt | .le | .gt | .ge => some .relational

/-- The tier of a short circuit. -/
def LogicalOp.tier : LogicalOp → Tier
  | .and => .and
  | .or => .or

/-- The token of an operation on two operands. -/
def BinaryOp.kind : BinaryOp → Token.Kind
  | .add => .plus
  | .sub => .minus
  | .mul => .star
  | .div => .slash
  | .mod => .percent
  | .pow => .caret
  | .eq => .equal
  | .ne => .notEqual
  | .lt => .less
  | .le => .lessEqual
  | .gt => .greater
  | .ge => .greaterEqual

/-- The token of a short circuit. -/
def LogicalOp.kind : LogicalOp → Token.Kind
  | .and => .bothAnd
  | .or => .eitherOr

/-- Whether a token is a sign when it stands in front of an operand. -/
def Token.Kind.isSign : Token.Kind → Bool
  | .plus | .minus => true
  | _ => false

/-- The level of a tree. -/
def Expr.level : Expr → Level
  | .unary .minus _ | .unary .plus _ => .sign
  | .unary .percent _ | .unary .square _ => .suffix
  | .binary op _ _ =>
    match op.tier? with
    | some t => .tier t
    | none => .power
  | .logical op _ _ => .tier op.tier
  | .conditional .. | .assignment .. => .statement
  | _ => .operand

/-! ### Parentheses -/

/-- A rendering in parentheses. -/
def parenthesized (kinds : List Token.Kind) : List Token.Kind :=
  .leftParen :: (kinds ++ [.rightParen])

/-- A rendering of the given level where one is required: in parentheses if it binds
looser. -/
def fit (required given : Level) (kinds : List Token.Kind) : List Token.Kind :=
  if given.rank < required.rank then parenthesized kinds else kinds

/-- A rendering in parentheses if it begins with a sign. -/
def shield (kinds : List Token.Kind) : List Token.Kind :=
  if kinds.head?.any Token.Kind.isSign then parenthesized kinds else kinds

/-- The right operand of an operation. A percent sign is not followed by a sign. -/
def fitRight (op : BinaryOp) (kinds : List Token.Kind) : List Token.Kind :=
  if op = .mod then shield kinds else kinds

/-! ### The rendering -/

mutual

/-- The tokens that spell a tree, with parentheses only where they are needed. -/
def Expr.render : Expr → List Token.Kind
  | .number value => [.number value]
  | .text value => [.text value]
  | .boolean true => [.name Keyword.true.spelling]
  | .boolean false => [.name Keyword.false.spelling]
  | .symbol name => [.name name]
  | .unary .minus operand => .minus :: fit .sign operand.level operand.render
  | .unary .plus operand => .plus :: fit .sign operand.level operand.render
  | .unary .abs operand =>
    .leftBracket :: (fit (.tier .or) operand.level operand.render ++ [.rightBracket])
  | .unary .percent operand => fit .suffix operand.level operand.render ++ [.percent]
  | .unary .square operand => fit .suffix operand.level operand.render ++ [.squared]
  | .binary op left right =>
    match op.tier? with
    | some t =>
      fit (.tier t) left.level left.render ++
        op.kind :: fitRight op (fit (rightLevel t) right.level right.render)
    | none =>
      fit .sign left.level left.render ++ op.kind :: fit .power right.level right.render
  | .logical op left right =>
    fit (.tier op.tier) left.level left.render ++
      op.kind :: fit (rightLevel op.tier) right.level right.render
  | .conditional test consequent none =>
    fit (.tier .or) test.level test.render ++
      .question :: fit (.tier .or) consequent.level consequent.render
  | .conditional test consequent (some alternate) =>
    fit (.tier .or) test.level test.render ++
      .question :: (fit (.tier .or) consequent.level consequent.render ++
        .colon :: fit (.tier .or) alternate.level alternate.render)
  | .call callee arguments =>
    .name callee :: .leftParen :: (Expr.renderArguments arguments ++ [.rightParen])
  | .assignment target value =>
    .name target :: .assign :: fit (.tier .or) value.level value.render

/-- The tokens that spell the arguments of a call, separated by commas. -/
def Expr.renderArguments : List Expr → List Token.Kind
  | [] => []
  | [e] => fit (.tier .or) e.level e.render
  | e :: rest =>
    fit (.tier .or) e.level e.render ++ .comma :: Expr.renderArguments rest

end

end Dashboard.Formula
