import Dashboard.Document
import Dashboard.Formula.Tree

/-!
# Formula Trees as Documents

A formula tree is shown as a document with one table for each node. A table begins with
the kind of its node, and the parts follow in the order in which they are evaluated. A
conditional without a second branch has `null` in its place.
-/

namespace Dashboard.Formula

/-- The name of an operation on one operand. -/
def UnaryOp.name : UnaryOp → String
  | .minus => "Minus"
  | .plus => "Plus"
  | .abs => "Abs"
  | .percent => "Percent"
  | .square => "Square"

/-- The name of an operation on two operands. -/
def BinaryOp.name : BinaryOp → String
  | .add => "Add"
  | .sub => "Sub"
  | .mul => "Mul"
  | .div => "Div"
  | .mod => "Mod"
  | .pow => "Pow"
  | .eq => "Eq"
  | .ne => "Ne"
  | .lt => "Lt"
  | .le => "Le"
  | .gt => "Gt"
  | .ge => "Ge"

/-- The name of a short-circuiting operation. -/
def LogicalOp.name : LogicalOp → String
  | .and => "And"
  | .or => "Or"

/-- The table of a node of some kind. -/
def nodeTable (kind : String) (parts : List (String × Document)) : Document :=
  .table (("type", .text kind) :: parts)

mutual

/-- A tree as a document. -/
def Expr.toDocument : Expr → Document
  | .number value => nodeTable "Number" [("value", .real value)]
  | .text value => nodeTable "String" [("value", .text value)]
  | .boolean value => nodeTable "Boolean" [("value", .boolean value)]
  | .symbol name => nodeTable "Symbol" [("name", .text name)]
  | .unary op operand =>
    nodeTable "Unary" [("op", .text op.name), ("operand", operand.toDocument)]
  | .binary op left right =>
    nodeTable "Binary"
      [("op", .text op.name), ("left", left.toDocument), ("right", right.toDocument)]
  | .logical op left right =>
    nodeTable "Logical"
      [("op", .text op.name), ("left", left.toDocument), ("right", right.toDocument)]
  | .conditional test consequent none =>
    nodeTable "Conditional"
      [("test", test.toDocument), ("consequent", consequent.toDocument), ("alternate", .null)]
  | .conditional test consequent (some alternate) =>
    nodeTable "Conditional"
      [("test", test.toDocument), ("consequent", consequent.toDocument),
       ("alternate", alternate.toDocument)]
  | .call callee arguments =>
    nodeTable "Call"
      [("callee", .text callee), ("arguments", .list (Expr.documentsOfAll arguments))]
  | .assignment target value =>
    nodeTable "Assignment" [("target", .text target), ("value", value.toDocument)]

/-- Several trees as documents. -/
def Expr.documentsOfAll : List Expr → List Document
  | [] => []
  | e :: rest => e.toDocument :: Expr.documentsOfAll rest

end

/-- A formula as a document: its dialect and its statements. -/
def toDocument (f : Formula) : Document :=
  .table [("dialect", .text f.dialect.word),
    ("statements", .list (Expr.documentsOfAll f.statements))]

end Dashboard.Formula
