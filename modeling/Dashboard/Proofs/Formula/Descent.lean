import Dashboard.Proofs.Formula.Spelling

/-!
# The Descent as a Machine

The grammar passes its tokens and its nesting budget down and hands back the tokens that are
left. A machine that reads formulas has no such arguments: it has one **cursor** over the
tokens, which it moves forward and once moves back, one counter for the nesting, which it
raises and lowers in place, and a stack of active calls. This module writes the same rules
for that machine. What can go wrong with it and not with the grammar is an outcome of its
own: the stack is used up, a loop never ends, a counter is lowered below zero.

* A call takes one **frame** of the stack while it is active. `perform` is given the number of
  frames there are, and the rules that a call enters have one frame less.
* A loop is given a number of **rounds**, one more than there are tokens.
* The cursor keeps the highest value that the counter ever had. Its only use is to be
  reasoned about.

A chain of operators and the suffixes of an operand raise the counter in every round and set
it back when they end. If a fault ends them they do not, so the counter at a fault is
whatever it was there. All other rules that go further in lower the counter again, also on a
fault.

## Main definitions

* `Cursor`, `Outcome`, `Program` — the state of the machine, how a run ends, and programs.
* `Call`, `body`, `perform` — the rules, each in terms of calls to others, and their stack.
* `run` — the descent over all tokens of a formula.
-/

namespace Dashboard.Formula.Descent

open Grammar

/-! ### Cursors and outcomes -/

/-- The state of a descent: the next token, the nesting counter, and its highest value yet. -/
structure Cursor where
  position : Nat
  depth : Nat
  deepest : Nat
  depth_le_deepest : depth ≤ deepest

/-- The cursor that a descent begins with. -/
def Cursor.start : Cursor := ⟨0, 0, 0, Nat.le_refl 0⟩

/-- The cursor at another token. -/
def Cursor.goTo (c : Cursor) (position : Nat) : Cursor := { c with position }

/-- The cursor at the token that follows. -/
def Cursor.next (c : Cursor) : Cursor := c.goTo (c.position + 1)

/-- The cursor with another value of the nesting counter. -/
def Cursor.withDepth (c : Cursor) (depth : Nat) : Cursor :=
  ⟨c.position, depth, max c.deepest depth, Nat.le_max_right _ _⟩

/-- The cursor one nesting level further in. -/
def Cursor.deeper (c : Cursor) : Cursor := c.withDepth (c.depth + 1)

/-- What ends a descent before it has a result. -/
inductive Stop where
  | fault (fault : Fault)
  /-- A call found no frame. -/
  | overflow
  /-- A loop went round more often than there are tokens. -/
  | endless
  /-- The position or the counter was zero and had to be lowered. -/
  | underflow

/-- How a descent ends, and where its cursor is then. -/
inductive Outcome (α : Type) where
  | done (result : α) (cursor : Cursor)
  | stopped (why : Stop) (cursor : Cursor)

/-- Where the cursor is in the end. -/
def Outcome.cursor {α : Type} : Outcome α → Cursor
  | .done _ c | .stopped _ c => c

/-- The result or the fault, if there is one of them. -/
def Outcome.answer? {α : Type} : Outcome α → Option (Except Fault α)
  | .done a _ => some (.ok a)
  | .stopped (.fault fault) _ => some (.error fault)
  | .stopped _ _ => none

/-- The formula with the statements that were read, or the fault. -/
def Outcome.formula? (dialect : Dialect) (o : Outcome (List Expr)) :
    Option (Except Fault Formula) :=
  o.answer?.map (Except.map fun statements => { dialect, statements })

/-- A program that moves the cursor. -/
def Program (α : Type) := Cursor → Outcome α

/-- Goes on with a result where the cursor is. -/
def Outcome.andThen {α β : Type} (o : Outcome α) (f : α → Program β) : Outcome β :=
  match o with
  | .done a c => f a c
  | .stopped why c => .stopped why c

instance : Monad Program where
  pure a := fun c => .done a c
  bind x f := fun c => (x c).andThen f

/-! ### Steps -/

variable (scope : Scope) (tokens : List Token) {α : Type}

/-- Ends the descent. -/
def halt (why : Stop) : Program α := fun c => .stopped why c

/-- Ends the descent with a fault at a byte offset. -/
def failAt (offset : Nat) (cause : Fault.Cause) : Program α :=
  halt (.fault ⟨offset, cause⟩)

/-- What the token at a distance is. -/
def peekAt? (distance : Nat) : Program (Option Token.Kind) := fun c =>
  .done (tokens[c.position + distance]?.map (·.kind)) c

/-- What the next token is. -/
def peek? : Program (Option Token.Kind) := fun c =>
  .done (tokens[c.position]?.map (·.kind)) c

/-- The keyword that comes next. -/
def peekKeyword? : Program (Option Keyword) :=
  return (← peek? tokens).bind Token.Kind.keyword?

/-- The byte offset of the next token, or of the end of the source. -/
def here : Program Nat := fun c =>
  .done ((tokens[c.position]?.map (·.span.start)).getD scope.sourceEnd) c

/-- Ends the descent with a fault at the next token. -/
def fail (cause : Fault.Cause) : Program α := do
  failAt (← here scope tokens) cause

/-- Moves on by one token. -/
def skip : Program Unit := fun c => .done () c.next

/-- Moves back by one token. -/
def back : Program Unit := fun c =>
  if c.position = 0 then .stopped .underflow c else .done () (c.goTo (c.position - 1))

/-- Takes the next token, if there is one. -/
def advance? : Program (Option Token) := fun c =>
  match tokens[c.position]? with
  | some t => .done (some t) c.next
  | none => .done none c

/-- Takes a token that has to come next. -/
def expect (kind : Token.Kind) : Program Unit := do
  match ← peek? tokens with
  | some found =>
    if found == kind then skip else fail scope tokens (.expectedToken kind (some found))
  | none => fail scope tokens (.expectedToken kind none)

/-- Takes a keyword that has to come next. -/
def expectKeyword (keyword : Keyword) : Program Unit := do
  if (← peekKeyword? tokens) = some keyword then skip
  else fail scope tokens (.expectedKeyword keyword)

/-! ### The nesting counter -/

/-- The nesting counter. -/
def depth : Program Nat := fun c => .done c.depth c

/-- Sets the nesting counter back. -/
def restore (entry : Nat) : Program Unit := fun c => .done () (c.withDepth entry)

/-- Raises the nesting counter. -/
def raise : Program Unit := fun c => .done () c.deeper

/-- Takes one nesting level, if there is one left. -/
def deepen : Program Unit := do
  if scope.options.maxDepth ≤ (← depth) then
    fail scope tokens (.nestedTooDeep scope.options.maxDepth)
  else raise

/-- Gives one nesting level back, whatever the outcome was. -/
def Outcome.lowered : Outcome α → Outcome α
  | .done a c =>
    if c.depth = 0 then .stopped .underflow c else .done a (c.withDepth (c.depth - 1))
  | .stopped why c =>
    if c.depth = 0 then .stopped .underflow c else .stopped why (c.withDepth (c.depth - 1))

/-- Runs a program and gives one nesting level back. -/
def lowering (program : Program α) : Program α := fun c => (program c).lowered

/-- Goes one nesting level further in for as long as a program runs. -/
def nested (program : Program α) : Program α := do
  deepen scope tokens
  lowering program

/-! ### Loops -/

/-- The rest of a chain of operators of a tier. -/
def chainLoop (tier : Tier) (operand : Program Expr) : Nat → Expr → Program Expr
  | 0, _ => halt .endless
  | rounds + 1, left => do
    match (← peek? tokens).bind tier.joint? with
    | none => return left
    | some joint =>
      skip
      deepen scope tokens
      let right ← operand
      chainLoop tier operand rounds (joint.join left right)

/-- The suffix that comes next. A percent sign is one unless an operand can begin behind it. -/
def suffix? : Program (Option UnaryOp) := do
  match ← peek? tokens with
  | some .squared => return some .square
  | some .percent =>
    if (← peekAt? tokens 1).any Token.Kind.startsOperand then return none
    else return some .percent
  | _ => return none

/-- The suffixes that follow an operand. -/
def suffixLoop : Nat → Expr → Program Expr
  | 0, _ => halt .endless
  | rounds + 1, e => do
    match ← suffix? tokens with
    | none => return e
    | some op =>
      deepen scope tokens
      skip
      suffixLoop rounds (.unary op e)

/-- The arguments of a call, separated by commas. -/
def argumentLoop (argument : Program Expr) : Nat → Program (List Expr)
  | 0 => halt .endless
  | rounds + 1 => do
    let first ← argument
    match ← peek? tokens with
    | some .comma =>
      skip
      let others ← argumentLoop argument rounds
      return first :: others
    | _ => return [first]

/-- What stands between the parentheses of a call. -/
def arguments (argument : Program Expr) : Program (List Expr) := do
  match ← peek? tokens with
  | some .rightParen => return []
  | _ => argumentLoop tokens argument (tokens.length + 1)

/-- The statements of a formula, up to its end. -/
def statementLoop (statement : Program Expr) : Nat → Program (List Expr)
  | 0 => halt .endless
  | rounds + 1 => do
    let first ← statement
    match ← peek? tokens with
    | none => return [first]
    | some kind =>
      if kind == .semicolon then
        if scope.options.dialect = .legacy then
          skip
          if (← peek? tokens).isNone then return [first]
          else
            let others ← statementLoop statement rounds
            return first :: others
        else fail scope tokens .severalStatements
      else fail scope tokens (.unexpectedToken kind)

/-! ### Rules -/

/-- The calls that can be active. A call of `named` comes behind its name and one of `call`
in front of its opening parenthesis. -/
inductive Call where
  | expression
  | assignment
  | conditional
  | branching
  | tier (t : Tier)
  | power
  | signed
  | suffixed
  | primary
  | named (name : String) (offset : Nat)
  | call (callee : String) (offset : Nat)
  deriving DecidableEq

/-- The rule that a tier takes its operands from. -/
def Call.operand (t : Tier) : Call :=
  match t.tighter with
  | [] => .power
  | tighter :: _ => .tier tighter

/-- The branch behind a token or keyword that may be missing. -/
def alternate (present : Bool) (branch : Program Expr) : Program (Option Expr) := do
  if present then
    skip
    let e ← branch
    return some e
  else return none

/-- A rule in terms of the calls that it makes. -/
def body (call : Call → Program Expr) : Call → Program Expr
  | .expression => nested scope tokens (call .assignment)
  | .assignment => do
    let start ← here scope tokens
    let target ← call .conditional
    match ← peek? tokens with
    | some .assign =>
      if scope.options.dialect ≠ .legacy then fail scope tokens .assignmentNotAllowed
      else
        match target with
        | .symbol name => do
          skip
          let value ← nested scope tokens (call .assignment)
          return .assignment name value
        | _ => failAt start .badTarget
    | _ => return target
  | .conditional => do
    if (← peekKeyword? tokens) = some .if then call .branching
    else
      let test ← call (.tier .or)
      match ← peek? tokens with
      | some .question =>
        skip
        let consequent ← call .expression
        let other ← alternate ((← peek? tokens).any (· == .colon)) (call .expression)
        return .conditional test consequent other
      | _ => return test
  | .branching => do
    expectKeyword scope tokens .if
    let test ← call .expression
    expectKeyword scope tokens .then
    let consequent ← call .expression
    let other ← alternate ((← peekKeyword? tokens) == some .else) (call .expression)
    return .conditional test consequent other
  | .tier t => do
    let entry ← depth
    let left ← call (.operand t)
    let e ← chainLoop scope tokens t (call (.operand t)) (tokens.length + 1) left
    restore entry
    return e
  | .power => do
    let base ← call .signed
    match ← peek? tokens with
    | some .caret =>
      skip
      let exponent ← nested scope tokens (call .power)
      return .binary .pow base exponent
    | _ => return base
  | .signed => do
    match ← peek? tokens with
    | some .minus =>
      skip
      let e ← nested scope tokens (call .signed)
      return .unary .minus e
    | some .plus =>
      skip
      let e ← nested scope tokens (call .signed)
      return .unary .plus e
    | _ => call .suffixed
  | .suffixed => do
    let entry ← depth
    let operand ← call .primary
    let e ← suffixLoop scope tokens (tokens.length + 1) operand
    restore entry
    return e
  | .primary => do
    let offset ← here scope tokens
    match ← advance? tokens with
    | none => fail scope tokens .unexpectedEnd
    | some token =>
      match token.kind with
      | .number value => return .number value
      | .text value => return .text value
      | .leftParen => do
        let e ← call .expression
        expect scope tokens .rightParen
        return e
      | .leftBracket => do
        let e ← call .expression
        expect scope tokens .rightBracket
        return .unary .abs e
      | .name name => call (.named name offset)
      | kind => failAt offset (.unexpectedToken kind)
  | .named name offset =>
    match Keyword.ofName? name with
    | some .true => return .boolean true
    | some .false => return .boolean false
    | some .if => do
      back
      nested scope tokens (call .branching)
    | some _ => failAt offset (.unexpectedKeyword name)
    | none => do
      match ← peek? tokens with
      | some .leftParen => call (.call name offset)
      | _ => return .symbol name
  | .call callee offset => do
    expect scope tokens .leftParen
    let given ← arguments tokens (call .expression)
    expect scope tokens .rightParen
    if isAccessor callee && (sourceName? given).isNone then
      failAt offset (.badAccessorArgument callee)
    else return .call callee given

/-! ### The stack -/

/-- A call with a number of frames for itself and all calls that it leads to. -/
def perform : Nat → Call → Program Expr
  | 0, _ => halt .overflow
  | frames + 1, k => body scope tokens (perform frames) k

/-- All statements of a formula, which take one more frame. -/
def statements : Nat → Program (List Expr)
  | 0 => halt .overflow
  | frames + 1 =>
    if tokens.isEmpty then failAt 0 .emptyFormula
    else statementLoop scope tokens (perform scope tokens frames .expression) (tokens.length + 1)

/-- The descent over the tokens of a formula with a number of frames. -/
def run (options : Options) (sourceEnd : Nat) (tokens : List Token) (frames : Nat) :
    Outcome (List Expr) :=
  statements ⟨options, sourceEnd⟩ (dropMark options.dialect tokens) frames .start

end Dashboard.Formula.Descent
