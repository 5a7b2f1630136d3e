import Dashboard.Proofs.Formula.Derivation

/-!
# A Formula from Left to Right

A tree is one account of a formula. This module has another one that knows no grammar: `scan`
goes over the tokens once and says of each what it is, an operand, an operator, the name of a
call, a percentage or a remainder, the mark of a conditional and of which one. It looks at a
token and at the kind of the next, and it remembers what is **open**: the brackets, the tests
behind an `if`, and the conditionals that have no second branch yet.

* A percent sign is a suffix if the next token cannot begin an operand, and takes a remainder
  otherwise.
* A colon or an `else` begins the second branch of the innermost open conditional of its
  spelling. That conditional is then no longer open, nor is what is open inside it.

Read in order, a tree has pieces of the same sort, with its conditionals numbered by their
first branches.

## Main results

* `Expr.pieces` — the pieces of a tree in order.
* `Progress.read` — what a token adds, and what is open behind it.
* `Progress.scan` — the pieces that tokens spell.
* `Progress.read_operator` — an operator of the grammar is read as that operator.
-/

namespace Dashboard.Formula

open Grammar (Tier Joint)

/-! ### Pieces of a tree -/

/-- What a token adds to a formula. -/
inductive Piece where
  /-- A tree without parts: a number, a text, a truth value or a symbol. -/
  | operand (leaf : Expr)
  | callee (name : String)
  | unary (op : UnaryOp)
  | joint (joint : Joint)
  | assign
  /-- The first branch of a conditional begins. -/
  | conditional
  /-- The second branch of the conditional with a number begins, or of none. -/
  | alternate (owner : Option Nat)

mutual

/-- The number of conditionals in a tree. -/
def Expr.conditionals : Expr → Nat
  | .unary _ operand => operand.conditionals
  | .binary _ left right => left.conditionals + right.conditionals
  | .logical _ left right => left.conditionals + right.conditionals
  | .conditional test consequent none => test.conditionals + 1 + consequent.conditionals
  | .conditional test consequent (some alternate) =>
    test.conditionals + 1 + consequent.conditionals + alternate.conditionals
  | .call _ arguments => Expr.conditionalsOfAll arguments
  | .assignment _ value => value.conditionals
  | _ => 0

/-- The number of conditionals in several trees. -/
def Expr.conditionalsOfAll : List Expr → Nat
  | [] => 0
  | e :: rest => e.conditionals + Expr.conditionalsOfAll rest

end

mutual

/-- The pieces of a tree in order, its conditionals numbered from a number on by their first
branches. Percentages and squares stand behind their operands, and a conditional stands
between its test and its first branch. -/
def Expr.pieces (first : Nat) : Expr → List Piece
  | .unary .percent operand => operand.pieces first ++ [.unary .percent]
  | .unary .square operand => operand.pieces first ++ [.unary .square]
  | .unary op operand => .unary op :: operand.pieces first
  | .binary op left right =>
    left.pieces first ++ .joint (.binary op) :: right.pieces (first + left.conditionals)
  | .logical op left right =>
    left.pieces first ++ .joint (.logical op) :: right.pieces (first + left.conditionals)
  | .conditional test consequent none =>
    test.pieces first ++ .conditional :: consequent.pieces (first + test.conditionals + 1)
  | .conditional test consequent (some alternate) =>
    test.pieces first ++ .conditional ::
      (consequent.pieces (first + test.conditionals + 1) ++
        .alternate (some (first + test.conditionals)) ::
          alternate.pieces (first + test.conditionals + 1 + consequent.conditionals))
  | .call callee arguments => .callee callee :: Expr.piecesOfAll first arguments
  | .assignment target value => .operand (.symbol target) :: .assign :: value.pieces first
  | leaf => [.operand leaf]

/-- The pieces of several trees, one tree after the other. -/
def Expr.piecesOfAll (first : Nat) : List Expr → List Piece
  | [] => []
  | e :: rest => e.pieces first ++ Expr.piecesOfAll (first + e.conditionals) rest

end

/-- The conditionals of two lists of trees are counted together. -/
theorem Expr.conditionalsOfAll_append (es es' : List Expr) :
    conditionalsOfAll (es ++ es') = conditionalsOfAll es + conditionalsOfAll es' := by
  induction es with
  | nil => rw [List.nil_append, conditionalsOfAll, Nat.zero_add]
  | cons e rest ih => rw [List.cons_append, conditionalsOfAll, conditionalsOfAll, ih, Nat.add_assoc]

/-- The pieces of two lists of trees follow each other, and the count of conditionals goes on. -/
theorem Expr.piecesOfAll_append (first : Nat) (es es' : List Expr) :
    piecesOfAll first (es ++ es') =
      piecesOfAll first es ++ piecesOfAll (first + conditionalsOfAll es) es' := by
  induction es generalizing first with
  | nil => rfl
  | cons e rest ih =>
      rw [List.cons_append, piecesOfAll, piecesOfAll, conditionalsOfAll, ih, List.append_assoc,
        Nat.add_assoc]

/-- Joining two operands adds no conditional. -/
theorem Grammar.Joint.conditionals_join (joint : Joint) (left right : Expr) :
    (joint.join left right).conditionals = left.conditionals + right.conditionals := by
  cases joint <;> rfl

/-- The operator stands between the pieces of its operands. -/
theorem Grammar.Joint.pieces_join (joint : Joint) (first : Nat) (left right : Expr) :
    (joint.join left right).pieces first =
      left.pieces first ++ .joint joint :: right.pieces (first + left.conditionals) := by
  cases joint <;> rfl

/-! ### The scan -/

/-- What is open at some point of a formula. -/
inductive Frame where
  /-- Parentheses or brackets, those of a call included. -/
  | bracket
  /-- The test behind an `if`. -/
  | test
  /-- A conditional with a number that has no second branch yet. -/
  | consequent (spelling : Spelling) (number : Nat)

def Frame.isBracket : Frame → Bool
  | .bracket => true
  | _ => false

def Frame.isTest : Frame → Bool
  | .test => true
  | _ => false

/-- The number of a conditional in a spelling. -/
def Frame.number? (spelling : Spelling) : Frame → Option Nat
  | .consequent spelling' number => if spelling' = spelling then some number else none
  | _ => none

/-- What is still open when the innermost frame of a sort is left. -/
def leave (sort : Frame → Bool) (opened : List Frame) : List Frame :=
  (opened.dropWhile fun frame => !sort frame).tail

/-- How far the tokens have been read. -/
structure Progress where
  /-- What is open, the innermost first. -/
  opened : List Frame
  /-- The number of conditionals so far. -/
  count : Nat
  /-- Whether an operand has just ended, so that a plus or a minus is an operator. -/
  ended : Bool

namespace Progress

/-- Nothing has been read. -/
def start : Progress := ⟨[], 0, false⟩

/-- Behind the end of an operand. -/
def behind (s : Progress) : Progress := { s with ended := true }

/-- Where an operand is missing. -/
def before (s : Progress) : Progress := { s with ended := false }

/-- Inside of something that is opened. -/
def enter (s : Progress) (frame : Frame) : Progress :=
  { s with opened := frame :: s.opened, ended := false }

/-- At the first branch of a conditional, where it is not inside of the test any more. -/
def branch (s : Progress) (spelling : Spelling) (opened : List Frame) : List Piece × Progress :=
  ([.conditional], ⟨.consequent spelling s.count :: opened, s.count + 1, false⟩)

/-- At the second branch of the innermost open conditional of a spelling. -/
def alternate (s : Progress) (spelling : Spelling) : List Piece × Progress :=
  ([.alternate (s.opened.findSome? (Frame.number? spelling))],
    ⟨leave (fun frame => (frame.number? spelling).isSome) s.opened, s.count, false⟩)

/-- What a keyword adds. An `if` adds nothing by itself. -/
def readKeyword (s : Progress) : Keyword → List Piece × Progress
  | .true => ([.operand (.boolean true)], s.behind)
  | .false => ([.operand (.boolean false)], s.behind)
  | .and => ([.joint (.logical .and)], s.before)
  | .or => ([.joint (.logical .or)], s.before)
  | .equals => ([.joint (.binary .eq)], s.before)
  | .if => ([], s.enter .test)
  | .then => s.branch .words (leave Frame.isTest s.opened)
  | .else => s.alternate .words

/-- What a name adds, given the token that follows. -/
def readName (s : Progress) (name : String) (next : Option Token.Kind) : List Piece × Progress :=
  match Keyword.ofName? name, next with
  | some keyword, _ => s.readKeyword keyword
  | none, some .leftParen => ([.callee name], s)
  | none, _ => ([.operand (.symbol name)], s.behind)

/-- What a token adds, given the token that follows, and how far the tokens have then been
read. Brackets, commas, semicolons and `if` add nothing. -/
def read (s : Progress) (kind : Token.Kind) (next : Option Token.Kind) : List Piece × Progress :=
  match kind with
  | .number value => ([.operand (.number value)], s.behind)
  | .text value => ([.operand (.text value)], s.behind)
  | .name name => s.readName name next
  | .plus => ([if s.ended then .joint (.binary .add) else .unary .plus], s.before)
  | .minus => ([if s.ended then .joint (.binary .sub) else .unary .minus], s.before)
  | .star => ([.joint (.binary .mul)], s.before)
  | .slash => ([.joint (.binary .div)], s.before)
  | .percent =>
    if next.any Token.Kind.startsOperand then ([.joint (.binary .mod)], s.before)
    else ([.unary .percent], s.behind)
  | .caret => ([.joint (.binary .pow)], s.before)
  | .squared => ([.unary .square], s.behind)
  | .leftParen => ([], s.enter .bracket)
  | .leftBracket => ([.unary .abs], s.enter .bracket)
  | .rightParen | .rightBracket => ([], ⟨leave Frame.isBracket s.opened, s.count, true⟩)
  | .comma => ([], ⟨s.opened.dropWhile fun frame => !frame.isBracket, s.count, false⟩)
  | .semicolon => ([], ⟨[], s.count, false⟩)
  | .question => s.branch .signs s.opened
  | .colon => s.alternate .signs
  | .assign => ([.assign], s.before)
  | .equal => ([.joint (.binary .eq)], s.before)
  | .notEqual => ([.joint (.binary .ne)], s.before)
  | .less => ([.joint (.binary .lt)], s.before)
  | .lessEqual => ([.joint (.binary .le)], s.before)
  | .greater => ([.joint (.binary .gt)], s.before)
  | .greaterEqual => ([.joint (.binary .ge)], s.before)
  | .bothAnd => ([.joint (.logical .and)], s.before)
  | .eitherOr => ([.joint (.logical .or)], s.before)

/-- **The pieces that tokens spell**, read from left to right. -/
def scan (s : Progress) : List Token.Kind → List Piece
  | [] => []
  | kind :: rest => (s.read kind rest.head?).1 ++ (s.read kind rest.head?).2.scan rest

/-- What the first token adds comes first, and the rest is read from where it leads. -/
theorem scan_cons {s s' : Progress} {kind : Token.Kind} {rest : List Token.Kind}
    {pieces : List Piece} (h : s.read kind rest.head? = (pieces, s')) :
    s.scan (kind :: rest) = pieces ++ s'.scan rest := by
  rw [scan, h]

end Progress

/-! ### One token -/

/-- The innermost frame of a sort is the first one that is found from inside. -/
theorem dropWhile_frame {sort : Frame → Bool} {inner : List Frame} {frame : Frame}
    (hinner : ∀ frame ∈ inner, sort frame = false) (hframe : sort frame = true)
    (outer : List Frame) :
    (inner ++ frame :: outer).dropWhile (fun frame => !sort frame) = frame :: outer := by
  rw [List.dropWhile_append_of_pos, List.dropWhile_cons_of_neg]
  · simp [hframe]
  · simpa using hinner

/-- When that frame is left, what is outside of it is still open. -/
theorem leave_append {sort : Frame → Bool} {inner : List Frame} {frame : Frame}
    (hinner : ∀ frame ∈ inner, sort frame = false) (hframe : sort frame = true)
    (outer : List Frame) : leave sort (inner ++ frame :: outer) = outer := by
  rw [leave, dropWhile_frame hinner hframe, List.tail_cons]

namespace Progress

variable {s : Progress} {kind : Token.Kind} {next : Option Token.Kind}

/-- A keyword is read as one. -/
theorem read_keyword {keyword : Keyword} (h : kind.keyword? = some keyword) :
    s.read kind next = s.readKeyword keyword := by
  cases kind with
  | name value =>
      have hvalue : Keyword.ofName? value = some keyword := h
      simp only [read, readName, hvalue]
  | _ => cases h

/-- The mark of a second branch is read as one. -/
theorem read_alternate {spelling : Spelling} (h : spelling.IsAlternate kind) :
    s.read kind next = s.alternate spelling := by
  cases spelling with
  | signs =>
      obtain rfl : kind = .colon := h
      rfl
  | words => exact read_keyword h

/-- A name without a parenthesis behind it is a symbol. -/
theorem read_symbol {name : String} (h : Keyword.ofName? name = none)
    (hnext : next ≠ some .leftParen) :
    s.read (.name name) next = ([.operand (.symbol name)], s.behind) := by
  simp only [read, readName, h]

/-- A name with a parenthesis behind it is called. -/
theorem read_callee {name : String} (h : Keyword.ofName? name = none) :
    s.read (.name name) (some .leftParen) = ([.callee name], s) := by
  simp only [read, readName, h]

/-- A percent sign in front of no operand. -/
theorem read_percent (h : BeginsNothing next) :
    s.read .percent next = ([.unary .percent], s.behind) := by
  have hnone : next.any Token.Kind.startsOperand = false := by
    cases next with
    | none => rfl
    | some kind => exact h kind rfl
  rw [read, hnone]
  rfl

/-- What opens a call. -/
theorem scan_callee {name : String} (h : Keyword.ofName? name = none)
    (rest : List Token.Kind) :
    s.scan (.name name :: .leftParen :: rest) = .callee name :: (s.enter .bracket).scan rest := by
  rw [scan_cons (read_callee h), scan_cons rfl]
  rfl

/-- Behind an operand, an operator of the grammar is read as that operator. -/
theorem read_operator {tier : Tier} {joint : Joint} (h : OperatorOf tier kind joint)
    (hended : s.ended = true)
    (hpercent : kind = .percent → next.any Token.Kind.startsOperand = true) :
    s.read kind next = ([.joint joint], s.before) := by
  cases h with
  | or hkeyword | and hkeyword | equals hkeyword =>
      rw [read_keyword hkeyword]
      rfl
  | plus | minus => rw [read, hended, if_pos rfl]
  | percent => rw [read, hpercent rfl, if_pos rfl]
  | _ => rfl

end Progress

end Dashboard.Formula
