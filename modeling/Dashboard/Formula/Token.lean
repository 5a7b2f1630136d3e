import Dashboard.Decimal.Layout
import Dashboard.Text.Position

/-!
# Tokens of a Formula

A token is a piece of a formula's text together with the bytes it covers. Keywords are not
tokens of their own: they are names that the grammar recognises whatever their letter
case, so a symbol can never be spelled like a keyword.

## Main results

* `Keyword.ofName?_eq_some_iff` — a name is a keyword if it is its spelling in any letter case.
-/

namespace Dashboard.Formula

/-- The bytes from `start` up to `stop`, the latter not included. -/
structure Span where
  start : Nat
  stop : Nat
  deriving DecidableEq, Repr

/-- What a token is. -/
inductive Token.Kind where
  | number (value : Float)
  | text (value : String)
  | name (value : String)
  | plus
  | minus
  | star
  | slash
  | percent
  | caret
  | squared
  | leftParen
  | rightParen
  | leftBracket
  | rightBracket
  | comma
  | semicolon
  | question
  | colon
  | assign
  | equal
  | notEqual
  | less
  | lessEqual
  | greater
  | greaterEqual
  | bothAnd
  | eitherOr
  deriving BEq

/-- A token and the bytes it covers. -/
structure Token where
  kind : Token.Kind
  span : Span
  deriving BEq

/-- A token as messages show it. -/
def Token.Kind.describe : Token.Kind → String
  | .number value => "number " ++ Decimal.Layout.diagnostic.render value
  | .text value => "string '" ++ value ++ "'"
  | .name value => "'" ++ value ++ "'"
  | .plus => "'+'"
  | .minus => "'-'"
  | .star => "'*'"
  | .slash => "'/'"
  | .percent => "'%'"
  | .caret => "'^'"
  | .squared => "'²'"
  | .leftParen => "'('"
  | .rightParen => "')'"
  | .leftBracket => "'['"
  | .rightBracket => "']'"
  | .comma => "','"
  | .semicolon => "';'"
  | .question => "'?'"
  | .colon => "':'"
  | .assign => "'='"
  | .equal => "'=='"
  | .notEqual => "'!='"
  | .less => "'<'"
  | .lessEqual => "'<='"
  | .greater => "'>'"
  | .greaterEqual => "'>='"
  | .bothAnd => "'&&'"
  | .eitherOr => "'||'"

/-! ### Keywords -/

/-- The words that cannot be symbols. -/
inductive Keyword where
  | and
  | or
  | equals
  | if
  | then
  | else
  | true
  | false
  deriving DecidableEq, Repr

/-- A keyword in lower case. -/
def Keyword.spelling : Keyword → String
  | .and => "and"
  | .or => "or"
  | .equals => "equals"
  | .if => "if"
  | .then => "then"
  | .else => "else"
  | .true => "true"
  | .false => "false"

/-- All keywords. -/
def Keyword.all : List Keyword :=
  [.and, .or, .equals, .if, .then, .else, .true, .false]

/-- The keyword that a name is, in any mixture of upper and lower case. -/
def Keyword.ofName? (name : String) : Option Keyword :=
  let lower := name.toList.map Char.toLower
  all.find? fun keyword => keyword.spelling.toList = lower

/-- A name is the keyword that it is spelled like in lower case. -/
theorem Keyword.ofName?_eq_some_iff {name : String} {keyword : Keyword} :
    ofName? name = some keyword ↔ name.toList.map Char.toLower = keyword.spelling.toList := by
  constructor
  · intro h
    have hfound := List.find?_some h
    exact (of_decide_eq_true hfound).symm
  · intro h
    have hspelling : ∀ other : Keyword,
        other.spelling.toList = keyword.spelling.toList ↔ other = keyword := by
      intro other
      cases other <;> cases keyword <;> decide
    simp only [ofName?, h, hspelling]
    cases keyword <;> rfl

/-- The keyword that a token is. -/
def Token.Kind.keyword? : Token.Kind → Option Keyword
  | .name value => Keyword.ofName? value
  | _ => none

/-- Whether a token can begin an operand. This decides whether a percent sign in front of
it takes a remainder or ends its operand as a percentage. -/
def Token.Kind.startsOperand : Token.Kind → Bool
  | .number _ | .text _ | .leftParen | .leftBracket => true
  | .name value =>
    match Keyword.ofName? value with
    | some .and | some .or | some .equals | some .then | some .else => false
    | _ => true
  | _ => false

end Dashboard.Formula
