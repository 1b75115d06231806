import Flowline.Value.Basic

/-!
Expressions: literals, paths of variables, calls, lists and mappings, joined by operators.
-/

namespace Flowline

/-- An operator between two operands. -/
inductive BinaryOp
  | or | and
  | strictEq | strictNe | eq | ne | ge | le | gt | lt
  | add | sub | mul | div | mod
deriving Repr, DecidableEq

def BinaryOp.symbol : BinaryOp → String
  | .or => "or"
  | .and => "and"
  | .strictEq => "==="
  | .strictNe => "!=="
  | .eq => "=="
  | .ne => "!="
  | .ge => ">="
  | .le => "<="
  | .gt => ">"
  | .lt => "<"
  | .add => "+"
  | .sub => "-"
  | .mul => "*"
  | .div => "/"
  | .mod => "%"

/-- An operator before its operand. -/
inductive UnaryOp
  | not | neg
deriving Repr, DecidableEq

def UnaryOp.symbol : UnaryOp → String
  | .not => "not"
  | .neg => "neg"

/-- An expression. -/
inductive Expr
  | literal (value : Value)
  | variable (path : String)
  | call (name : String) (args : List Expr)
  | binary (op : BinaryOp) (left right : Expr)
  | unary (op : UnaryOp) (operand : Expr)
  | array (items : List Expr)
  | object (entries : List (String × Expr))
deriving Repr, Inhabited

end Flowline
