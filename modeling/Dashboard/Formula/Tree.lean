/-!
# Formula Trees

A formula is a list of statements in one of two dialects. The legacy dialect has any number
of statements and assigns values to symbols; the simplified dialect has a single statement
and no assignments. A tree is built once and never changed.

## Main results

* `Expr.mem_nodes_self` — a tree is one of its own nodes.
* `Expr.height_pos` — every tree has at least one level.
-/

namespace Dashboard

namespace Formula

/-- The grammar a formula is written in. -/
inductive Dialect where
  /-- Statements with assignments; bare symbols are path names of the display. -/
  | legacy
  /-- A single expression; bare symbols are identifiers of data sources. -/
  | simplified
  deriving DecidableEq, Repr, Inhabited

/-- The word for a dialect. -/
def Dialect.word : Dialect → String
  | .legacy => "legacy"
  | .simplified => "simplified"

/-- Both dialects. -/
def Dialect.all : List Dialect :=
  [.legacy, .simplified]

/-- The dialect that a word names. -/
def Dialect.ofWord? (word : String) : Option Dialect :=
  all.find? fun d => d.word = word

/-- Every dialect is recognised by its word. -/
@[simp] theorem Dialect.ofWord?_word (d : Dialect) : ofWord? d.word = some d := by
  cases d <;> decide

/-- Operations on one operand. -/
inductive UnaryOp where
  | minus
  | plus
  /-- The absolute value, written with brackets around the operand. -/
  | abs
  /-- A hundredth, written with a percent sign behind the operand. -/
  | percent
  /-- The square, written with a raised two behind the operand. -/
  | square
  deriving DecidableEq, Repr

/-- Operations on two operands that are always both evaluated. -/
inductive BinaryOp where
  | add
  | sub
  | mul
  | div
  | mod
  | pow
  | eq
  | ne
  | lt
  | le
  | gt
  | ge
  deriving DecidableEq, Repr

/-- The sign of an operation on two operands. -/
def BinaryOp.symbol : BinaryOp → String
  | .add => "+"
  | .sub => "-"
  | .mul => "*"
  | .div => "/"
  | .mod => "%"
  | .pow => "^"
  | .eq => "=="
  | .ne => "!="
  | .lt => "<"
  | .le => "<="
  | .gt => ">"
  | .ge => ">="

/-- Operations whose right operand is evaluated only if the left one does not decide. -/
inductive LogicalOp where
  | and
  | or
  deriving DecidableEq, Repr

/-- A node of a formula tree. -/
inductive Expr where
  | number (value : Float)
  | text (value : String)
  | boolean (value : Bool)
  /-- A data source, a path name or an assigned symbol. -/
  | symbol (name : String)
  | unary (op : UnaryOp) (operand : Expr)
  | binary (op : BinaryOp) (left right : Expr)
  | logical (op : LogicalOp) (left right : Expr)
  | conditional (test consequent : Expr) (alternate : Option Expr)
  | call (callee : String) (arguments : List Expr)
  | assignment (target : String) (value : Expr)
  deriving BEq, Inhabited

/-- The data source that the arguments of an accessor name: a single text or symbol. -/
def sourceName? : List Expr → Option String
  | [.text name] => some name
  | [.symbol name] => some name
  | _ => none

/-! ### Nodes and height -/

mutual

/-- The nodes of a tree, parents before children and left before right, both branches of
every conditional included. -/
def Expr.nodes : Expr → List Expr
  | .unary op operand => .unary op operand :: operand.nodes
  | .binary op left right => .binary op left right :: (left.nodes ++ right.nodes)
  | .logical op left right => .logical op left right :: (left.nodes ++ right.nodes)
  | .conditional test consequent none =>
    .conditional test consequent none :: (test.nodes ++ consequent.nodes)
  | .conditional test consequent (some alternate) =>
    .conditional test consequent (some alternate) ::
      (test.nodes ++ consequent.nodes ++ alternate.nodes)
  | .call callee arguments => .call callee arguments :: Expr.nodesOfAll arguments
  | .assignment target value => .assignment target value :: value.nodes
  | leaf => [leaf]

/-- The nodes of several trees, one tree after the other. -/
def Expr.nodesOfAll : List Expr → List Expr
  | [] => []
  | e :: rest => e.nodes ++ Expr.nodesOfAll rest

end

mutual

/-- The number of nodes on the longest way from the root to a leaf. -/
def Expr.height : Expr → Nat
  | .unary _ operand => operand.height + 1
  | .binary _ left right => max left.height right.height + 1
  | .logical _ left right => max left.height right.height + 1
  | .conditional test consequent none => max test.height consequent.height + 1
  | .conditional test consequent (some alternate) =>
    max (max test.height consequent.height) alternate.height + 1
  | .call _ arguments => Expr.heightOfAll arguments + 1
  | .assignment _ value => value.height + 1
  | _ => 1

/-- The height of the highest of several trees. -/
def Expr.heightOfAll : List Expr → Nat
  | [] => 0
  | e :: rest => max e.height (Expr.heightOfAll rest)

end

/-- A tree is one of its own nodes. -/
theorem Expr.mem_nodes_self (e : Expr) : e ∈ e.nodes := by
  cases e with
  | conditional test consequent alternate => cases alternate <;> simp [Expr.nodes]
  | _ => simp [Expr.nodes]

/-- Every tree has a height. -/
theorem Expr.height_pos (e : Expr) : 0 < e.height := by
  cases e with
  | conditional test consequent alternate => cases alternate <;> simp [Expr.height]
  | _ => simp [Expr.height]

end Formula

/-- A formula: its dialect and its statements. -/
structure Formula where
  dialect : Formula.Dialect
  statements : List Formula.Expr
  deriving BEq, Inhabited

/-- The nodes of all statements in order. -/
def Formula.nodes (f : Formula) : List Formula.Expr :=
  Formula.Expr.nodesOfAll f.statements

end Dashboard
