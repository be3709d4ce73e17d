import Liquid.Token.Basic
import Liquid.Value.Order

/-!
# Expressions

What stands in outputs, conditions and tag arguments: constants, paths from a name, ranges,
comparisons, and the connectives `and` and `or`.  Every expression knows its place in the source.

* `Constant.toValue_injective`: two constants with the same value are the same constant.
-/
namespace Liquid

/-- A literal. -/
inductive Constant where
  | nil
  | bool (b : Bool)
  | literal (word : Literal)
  | number (n : Number)
  | text (s : String)
  deriving DecidableEq

namespace Constant

/-- The value that a literal stands for. -/
def toValue : Constant → Value
  | .nil => .nil
  | .bool b => .bool b
  | .literal word => .literal word
  | .number n => .number n
  | .text s => .text s

theorem toValue_injective {c d : Constant} (h : c.toValue = d.toValue) : c = d := by
  cases c <;> cases d <;> simp_all [toValue]

end Constant

/-- The signs of a comparison. -/
inductive Sign where
  | equal
  | notEqual
  | order (r : Relation)
  deriving DecidableEq, Repr

/-- The sign as it is written. -/
def Sign.text : Sign → String
  | .equal => "=="
  | .notEqual => "!="
  | .order .less => "<"
  | .order .greater => ">"
  | .order .lessOrEqual => "<="
  | .order .greaterOrEqual => ">="

/-- The words that connect conditions. -/
inductive Connective where
  | and
  | or
  deriving DecidableEq, Repr

/-- The connective as it is written. -/
def Connective.text : Connective → String
  | .and => "and"
  | .or => "or"

/-- An expression. -/
inductive Expr where
  | const (pos : Position) (value : Constant)
  | name (pos : Position) (name : String)
  | property (pos : Position) (of : Expr) (name : String)
  | index (pos : Position) (of key : Expr)
  | range (pos : Position) (first last : Expr)
  | compare (pos : Position) (left : Expr) (sign : Sign) (right : Expr)
  | contains (pos : Position) (left right : Expr)
  | connect (pos : Position) (left : Expr) (word : Connective) (right : Expr)
  deriving DecidableEq

/-- The application of a filter: its name, its arguments by position and those by name. -/
structure FilterCall where
  pos : Position
  name : String
  arguments : List Expr
  named : List (String × Expr)
  deriving DecidableEq

namespace Expr

/-- The place of an expression. -/
def pos : Expr → Position
  | .const pos _ | .name pos _ | .property pos _ _ | .index pos _ _ | .range pos _ _
  | .compare pos _ _ _ | .contains pos _ _ | .connect pos _ _ _ => pos

end Expr

end Liquid
