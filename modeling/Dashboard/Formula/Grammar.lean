import Dashboard.Formula.Builtin
import Dashboard.Formula.Scan
import Dashboard.Formula.Tree

/-!
# The Grammar of Formulas

A formula is read by recursive descent. From loosest to tightest the rules are assignment
(legacy dialect only, grouping to the right), conditional (`? :` and `if then else`), six
tiers of left-grouping operators (or, and, equality, relational, additive, multiplicative),
power (grouping to the right), sign, the suffixes for percentage and square, and operand.

## The nesting budget

The depth of a tree is bounded by a budget of levels. One level is taken by every
expression, by the value of an assignment, by an exponent, by the operand of a sign, by
each suffix, by each operator of a chain for its right operand and all that follows in the
chain, and by an `if` that stands as an operand. What a rule has taken is free again when
the rule ends, because the budget is passed down and never back.

A rule is given the rules that hold one level further in, or nothing if the budget is used
up. `rules` ties this knot by recursion on the budget, so every rule is total and no
grammar rule is recursive by itself. Only a list of arguments and the list of statements
repeat on one level, and each of their items takes at least one token.

## Main results

* `nested_none` — with no budget left a nested rule is a fault at the current token.
* `ofSource_of_tokenize` — a source text is read token by token.
-/

namespace Dashboard.Formula

/-- The grammar to read by and the bound on nesting. -/
structure Options where
  dialect : Dialect
  maxDepth : Nat
  deriving DecidableEq, Repr

/-- The bound on nesting unless another is asked for. -/
def defaultMaxDepth : Nat := 64

instance : Inhabited Options := ⟨⟨.simplified, defaultMaxDepth⟩⟩

namespace Grammar

/-- What holds for the whole of one formula. -/
structure Scope where
  options : Options
  /-- The byte offset of the end of the source. -/
  sourceEnd : Nat

/-- Reads an expression off the front of the tokens and leaves the rest. -/
abbrev Rule := List Token → Except Fault (Expr × List Token)

/-! ### Places and expectations -/

/-- The byte offset of the next token, or of the end of the source. -/
def Scope.here (scope : Scope) : List Token → Nat
  | [] => scope.sourceEnd
  | t :: _ => t.span.start

/-- A fault at the next token. -/
def Scope.fault {α : Type} (scope : Scope) (ts : List Token) (cause : Fault.Cause) :
    Except Fault α :=
  .error ⟨scope.here ts, cause⟩

/-- The keyword that comes next. -/
def nextKeyword? (ts : List Token) : Option Keyword :=
  ts.head?.bind fun t => t.kind.keyword?

/-- Takes a closing token, which has to come next. -/
def Scope.expect (scope : Scope) (kind : Token.Kind) (ts : List Token) :
    Except Fault (List Token) :=
  match ts with
  | [] => scope.fault ts (.expectedToken kind none)
  | t :: rest =>
    if t.kind == kind then .ok rest
    else scope.fault ts (.expectedToken kind (some t.kind))

/-- Takes a keyword, which has to come next. -/
def Scope.expectKeyword (scope : Scope) (keyword : Keyword) (ts : List Token) :
    Except Fault (List Token) :=
  if nextKeyword? ts = some keyword then .ok ts.tail
  else scope.fault ts (.expectedKeyword keyword)

/-! ### Tiers of left-grouping operators -/

/-- The tiers of left-grouping operators. -/
inductive Tier where
  | or
  | and
  | equality
  | relational
  | additive
  | multiplicative
  deriving DecidableEq, Repr

/-- All tiers, loosest first. -/
def Tier.all : List Tier :=
  [.or, .and, .equality, .relational, .additive, .multiplicative]

/-- The tiers that bind tighter, loosest first. -/
def Tier.tighter : Tier → List Tier
  | .or => [.and, .equality, .relational, .additive, .multiplicative]
  | .and => [.equality, .relational, .additive, .multiplicative]
  | .equality => [.relational, .additive, .multiplicative]
  | .relational => [.additive, .multiplicative]
  | .additive => [.multiplicative]
  | .multiplicative => []

/-- An operator between two operands. -/
inductive Joint where
  | logical (op : LogicalOp)
  | binary (op : BinaryOp)
  deriving DecidableEq, Repr

/-- The tree of an operator and its two operands. -/
def Joint.join : Joint → Expr → Expr → Expr
  | .logical op, left, right => .logical op left right
  | .binary op, left, right => .binary op left right

/-- The operator of a tier that a token is, in either of its spellings. -/
def Tier.joint? : Tier → Token.Kind → Option Joint
  | .or, kind =>
    if kind == .eitherOr || kind.keyword? == some .or then some (.logical .or) else none
  | .and, kind =>
    if kind == .bothAnd || kind.keyword? == some .and then some (.logical .and) else none
  | .equality, .equal => some (.binary .eq)
  | .equality, .notEqual => some (.binary .ne)
  | .equality, kind => if kind.keyword? == some .equals then some (.binary .eq) else none
  | .relational, .less => some (.binary .lt)
  | .relational, .lessEqual => some (.binary .le)
  | .relational, .greater => some (.binary .gt)
  | .relational, .greaterEqual => some (.binary .ge)
  | .additive, .plus => some (.binary .add)
  | .additive, .minus => some (.binary .sub)
  | .multiplicative, .star => some (.binary .mul)
  | .multiplicative, .slash => some (.binary .div)
  | .multiplicative, .percent => some (.binary .mod)
  | _, _ => none

/-! ### Nesting -/

/-- The rules that are entered one nesting level further in. -/
structure Inner where
  assignment : Rule
  branching : Rule
  power : Rule
  signed : Rule
  /-- The right operand of an operator of a tier. -/
  operand : Tier → Rule
  /-- The rest of a chain of operators of a tier, given what stands to the left. -/
  chain : Tier → Expr → Rule
  /-- The suffixes that follow an operand. -/
  suffixes : Expr → Rule

variable (scope : Scope) (inner : Option (Unit → Inner))

/-- A rule one nesting level further in; with no level left it is a fault. -/
def nested (rule : Inner → Rule) : Rule := fun ts =>
  match inner with
  | none => scope.fault ts (.nestedTooDeep scope.options.maxDepth)
  | some rules => rule (rules ()) ts

/-- The rule for everything that can stand alone: a statement, an argument, what stands in
parentheses, and the parts of a conditional. -/
def expression : Rule :=
  nested scope inner Inner.assignment

/-! ### Operands -/

/-- The arguments of a call, separated by commas, at most the given number. -/
def arguments : Nat → List Token → Except Fault (List Expr × List Token)
  | 0, ts => .ok ([], ts)
  | n + 1, ts => do
    let (first, rest) ← expression scope inner ts
    match rest with
    | ⟨.comma, _⟩ :: more => do
      let (others, rest) ← arguments n more
      return (first :: others, rest)
    | _ => return ([first], rest)

/-- A call after its opening parenthesis; the offset is that of its name. -/
def call (callee : String) (offset : Nat) : Rule := fun ts => do
  let (given, rest) ← match ts with
    | ⟨.rightParen, _⟩ :: _ => pure ([], ts)
    | _ => arguments scope inner (ts.length + 1) ts
  let rest ← scope.expect .rightParen rest
  if isAccessor callee && (sourceName? given).isNone then
    .error ⟨offset, .badAccessorArgument callee⟩
  else return (.call callee given, rest)

/-- An operand that begins with a name. -/
def named (name : String) (offset : Nat) (ts : List Token) : Rule := fun rest =>
  match Keyword.ofName? name with
  | some .true => .ok (.boolean true, rest)
  | some .false => .ok (.boolean false, rest)
  | some .if => nested scope inner Inner.branching ts
  | some _ => .error ⟨offset, .unexpectedKeyword name⟩
  | none =>
    match rest with
    | ⟨.leftParen, _⟩ :: more => call scope inner name offset more
    | _ => .ok (.symbol name, rest)

/-- An operand without a sign in front and suffixes behind. -/
def primary : Rule := fun ts =>
  match ts with
  | [] => scope.fault ts .unexpectedEnd
  | t :: rest =>
    match t.kind with
    | .number value => .ok (.number value, rest)
    | .text value => .ok (.text value, rest)
    | .leftParen => do
      let (e, rest) ← expression scope inner rest
      let rest ← scope.expect .rightParen rest
      return (e, rest)
    | .leftBracket => do
      let (e, rest) ← expression scope inner rest
      let rest ← scope.expect .rightBracket rest
      return (.unary .abs e, rest)
    | .name name => named scope inner name t.span.start ts rest
    | kind => scope.fault ts (.unexpectedToken kind)

/-- The suffix that comes next. A percent sign is one unless an operand can begin behind
it; then it takes a remainder. -/
def suffix? : List Token → Option UnaryOp
  | ⟨.squared, _⟩ :: _ => some .square
  | ⟨.percent, _⟩ :: rest =>
    if rest.head?.any fun t => t.kind.startsOperand then none else some .percent
  | _ => none

/-- The suffixes that follow an operand. -/
def suffixes (e : Expr) : Rule := fun ts =>
  match suffix? ts with
  | some op => nested scope inner (fun rules ts => rules.suffixes (.unary op e) ts.tail) ts
  | none => .ok (e, ts)

/-- An operand and its suffixes. -/
def suffixed : Rule := fun ts => do
  let (e, rest) ← primary scope inner ts
  suffixes scope inner e rest

/-- The sign that comes next. -/
def sign? : List Token → Option UnaryOp
  | ⟨.minus, _⟩ :: _ => some .minus
  | ⟨.plus, _⟩ :: _ => some .plus
  | _ => none

/-- An operand with any number of signs in front. -/
def signed : Rule := fun ts =>
  match sign? ts with
  | some op => do
    let (e, rest) ← nested scope inner Inner.signed ts.tail
    return (.unary op e, rest)
  | none => suffixed scope inner ts

/-! ### Operators -/

/-- A power; its exponent is again a power. -/
def power : Rule := fun ts => do
  let (base, rest) ← signed scope inner ts
  match rest with
  | ⟨.caret, _⟩ :: more => do
    let (exponent, rest) ← nested scope inner Inner.power more
    return (.binary .pow base exponent, rest)
  | _ => return (base, rest)

/-- The rest of a chain of operators of a tier. -/
def chain (tier : Tier) (left : Expr) : Rule := fun ts =>
  match ts with
  | [] => .ok (left, ts)
  | t :: rest =>
    match tier.joint? t.kind with
    | none => .ok (left, ts)
    | some joint =>
      nested scope inner (fun rules ts => do
        let (right, rest) ← rules.operand tier ts
        rules.chain tier (joint.join left right) rest) rest

/-- A chain of operators of the first tier, whose operands are chains of the next tier,
and so on down to powers. -/
def joined : List Tier → Rule
  | [], ts => power scope inner ts
  | tier :: tighter, ts => do
    let (left, rest) ← joined tighter ts
    chain scope inner tier left rest

/-! ### Conditionals and assignments -/

/-- The branch behind a token or keyword that may be missing. -/
def alternate (present : Bool) (ts : List Token) : Except Fault (Option Expr × List Token) :=
  if present then do
    let (e, rest) ← expression scope inner ts.tail
    return (some e, rest)
  else .ok (none, ts)

/-- A conditional written with words, from its `if` on. -/
def branching : Rule := fun ts => do
  let ts ← scope.expectKeyword .if ts
  let (test, ts) ← expression scope inner ts
  let ts ← scope.expectKeyword .then ts
  let (consequent, ts) ← expression scope inner ts
  let (alternate, ts) ← alternate scope inner (nextKeyword? ts == some .else) ts
  return (.conditional test consequent alternate, ts)

/-- A conditional in either spelling, or what binds tighter. -/
def conditional : Rule := fun ts =>
  if nextKeyword? ts = some .if then branching scope inner ts
  else do
    let (test, ts) ← joined scope inner Tier.all ts
    match ts with
    | ⟨.question, _⟩ :: rest => do
      let (consequent, ts) ← expression scope inner rest
      let (alternate, ts) ← alternate scope inner (ts.head?.any fun t => t.kind == .colon) ts
      return (.conditional test consequent alternate, ts)
    | _ => return (test, ts)

/-- An assignment, or what binds tighter. -/
def assignment : Rule := fun ts => do
  let (target, rest) ← conditional scope inner ts
  match rest with
  | ⟨.assign, _⟩ :: more =>
    if scope.options.dialect ≠ .legacy then scope.fault rest .assignmentNotAllowed
    else
      match target with
      | .symbol name => do
        let (value, rest) ← nested scope inner Inner.assignment more
        return (.assignment name value, rest)
      | _ => scope.fault ts .badTarget
  | _ => return (target, rest)

/-! ### The knot -/

/-- The rules of one level in terms of those one level further in. -/
def level : Inner where
  assignment := assignment scope inner
  branching := branching scope inner
  power := power scope inner
  signed := signed scope inner
  operand tier := joined scope inner tier.tighter
  chain tier left := chain scope inner tier left
  suffixes e := suffixes scope inner e

/-- The rules with a budget of nesting levels. -/
def rules : Nat → Inner
  | 0 => level scope none
  | budget + 1 => level scope (some fun _ => rules budget)

/-- With no budget left a nested rule is a fault at the next token. -/
@[simp] theorem nested_none (rule : Inner → Rule) (ts : List Token) :
    nested scope none rule ts = scope.fault ts (.nestedTooDeep scope.options.maxDepth) := rfl

/-- An expression with a budget of nesting levels. -/
def expressionWithin : Nat → Rule
  | 0 => expression scope none
  | budget + 1 => expression scope (some fun _ => rules scope budget)

/-! ### Statements -/

/-- The statements of a formula, at most the given number. In the legacy dialect they are
separated by semicolons and one may follow the last. -/
def statements : Nat → List Token → Except Fault (List Expr)
  | 0, _ => .ok []
  | n + 1, ts => do
    let (first, rest) ← expressionWithin scope scope.options.maxDepth ts
    match rest with
    | [] => return [first]
    | t :: more =>
      if t.kind == .semicolon then
        if scope.options.dialect ≠ .legacy then scope.fault rest .severalStatements
        else if more.isEmpty then return [first]
        else return first :: (← statements n more)
      else scope.fault rest (.unexpectedToken t.kind)

end Grammar

/-- Drops the mark in front of a formula that stands in for the name of a parameter. Only
the simplified dialect has it. -/
def dropMark (dialect : Dialect) (tokens : List Token) : List Token :=
  match dialect, tokens with
  | .simplified, ⟨.assign, _⟩ :: rest => rest
  | _, _ => tokens

/-- The formula that a list of tokens spells; `sourceEnd` is the byte offset of the end of
its source. -/
def ofTokens (options : Options) (sourceEnd : Nat) (tokens : List Token) :
    Except Fault Formula := do
  let tokens := dropMark options.dialect tokens
  if tokens.isEmpty then .error ⟨0, .emptyFormula⟩
  else
    let statements ← Grammar.statements ⟨options, sourceEnd⟩ tokens.length tokens
    return { dialect := options.dialect, statements }

/-- The formula that a source text spells, or why it spells none. -/
def parse (options : Options) (source : String) : Except Fault Formula := do
  let tokens ← tokenize source
  ofTokens options (Text.byteLength source.toList) tokens

/-- The formula that a source text spells, or the failure to read it. -/
def ofSource (options : Options) (source : String) : Except Failure Formula :=
  (parse options source).mapError (Fault.toFailure source)

/-- A source text is read token by token. -/
theorem ofSource_of_tokenize {options : Options} {source : String} {tokens : List Token}
    {formula : Formula} (htokens : tokenize source = .ok tokens)
    (hformula : ofTokens options (Text.byteLength source.toList) tokens = .ok formula) :
    ofSource options source = .ok formula := by
  rw [ofSource, parse, htokens]
  show (ofTokens options (Text.byteLength source.toList) tokens).mapError _ = _
  rw [hformula]
  rfl

end Dashboard.Formula
