import TypeStrip.Syntax.Tree
import TypeStrip.Number.Word
import TypeStrip.Code.Layout

/-! Constant expressions, which enum members are initialised with. -/
namespace TypeStrip.Lowering

inductive Constant where
  | number (value : Float)
  | string (value : String)

def Constant.text : Constant → String
  | .number x => Code.numberText x
  | .string s => s

def foldUnary? (op : UnaryOp) (x : Float) : Option Float :=
  match op with
  | .plus => some x
  | .minus => some (-x)
  | .bitNot => some (Number.ofSigned (~~~ Number.word x))
  | _ => none

def foldNumeric? (op : BinaryOp) (x y : Float) : Option Float :=
  match op with
  | .add => some (x + y)
  | .sub => some (x - y)
  | .mul => some (x * y)
  | .div => some (x / y)
  | .mod => some (Number.remainder x y)
  | .pow => some (x.pow y)
  | .bitOr => some (Number.ofSigned (Number.word x ||| Number.word y))
  | .bitAnd => some (Number.ofSigned (Number.word x &&& Number.word y))
  | .bitXor => some (Number.ofSigned (Number.word x ^^^ Number.word y))
  | .shiftLeft => some (Number.ofSigned (Number.word x <<< Number.shiftCount y))
  | .shiftRight => some (Number.ofSigned ((Number.word x).sshiftRight (Number.shiftCount y)))
  | .shiftRightUnsigned => some (Number.ofUnsigned (Number.word x >>> Number.shiftCount y))
  | _ => none

/-- A binary operator on two constants. A string can only be added to. -/
def foldBinary? (op : BinaryOp) (a b : Constant) : Option Constant :=
  match a, b with
  | .number x, .number y => (foldNumeric? op x y).map .number
  | a, b => if op = .add then some (.string (a.text ++ b.text)) else none

/-- The value of a constant expression in which some names have a known value. -/
def fold? (known : List (String × Constant)) : Expr → Option Constant
  | .literal _ (.number x) => some (.number x)
  | .literal _ (.string s) => some (.string s)
  | .template _ texts [] => some (.string (String.join texts))
  | .ident _ name => known.lookup name
  | .paren _ e => fold? known e
  | .unary _ op e =>
    match fold? known e with
    | some (.number x) => (foldUnary? op x).map .number
    | _ => none
  | .binary _ a op b =>
    match fold? known a, fold? known b with
    | some x, some y => foldBinary? op x y
    | _, _ => none
  | _ => none

end TypeStrip.Lowering
