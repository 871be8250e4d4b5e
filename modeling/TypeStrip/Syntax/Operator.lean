/-! The operators, modifiers and other small choices of the language. -/
namespace TypeStrip

inductive BinaryOp where
  | add | sub | mul | div | mod | pow
  | eq | notEq | strictEq | strictNotEq | lt | ltEq | gt | gtEq
  | and | or | nullish
  | bitAnd | bitOr | bitXor | shiftLeft | shiftRight | shiftRightUnsigned
  | in_ | instanceof
deriving DecidableEq, Repr

def BinaryOp.text : BinaryOp → String
  | .add => "+" | .sub => "-" | .mul => "*" | .div => "/" | .mod => "%" | .pow => "**"
  | .eq => "==" | .notEq => "!=" | .strictEq => "===" | .strictNotEq => "!=="
  | .lt => "<" | .ltEq => "<=" | .gt => ">" | .gtEq => ">="
  | .and => "&&" | .or => "||" | .nullish => "??"
  | .bitAnd => "&" | .bitOr => "|" | .bitXor => "^"
  | .shiftLeft => "<<" | .shiftRight => ">>" | .shiftRightUnsigned => ">>>"
  | .in_ => "in" | .instanceof => "instanceof"

inductive UnaryOp where
  | plus | minus | not | bitNot | typeof | void | delete
  | preIncrement | preDecrement | postIncrement | postDecrement
deriving DecidableEq, Repr

def UnaryOp.text : UnaryOp → String
  | .plus => "+" | .minus => "-" | .not => "!" | .bitNot => "~"
  | .typeof => "typeof" | .void => "void" | .delete => "delete"
  | .preIncrement | .postIncrement => "++"
  | .preDecrement | .postDecrement => "--"

def UnaryOp.isPostfix : UnaryOp → Bool
  | .postIncrement | .postDecrement => true
  | _ => false

def UnaryOp.isUpdate : UnaryOp → Bool
  | .preIncrement | .preDecrement | .postIncrement | .postDecrement => true
  | _ => false

/-- Assignment operators: plain, combined with a binary operator, or short-circuiting. -/
inductive AssignOp where
  | assign
  | add | sub | mul | div | mod | pow
  | shiftLeft | shiftRight | shiftRightUnsigned
  | bitAnd | bitOr | bitXor
  | and | or | nullish
deriving DecidableEq, Repr

def AssignOp.text : AssignOp → String
  | .assign => "=" | .add => "+=" | .sub => "-=" | .mul => "*=" | .div => "/=" | .mod => "%="
  | .pow => "**=" | .shiftLeft => "<<=" | .shiftRight => ">>=" | .shiftRightUnsigned => ">>>="
  | .bitAnd => "&=" | .bitOr => "|=" | .bitXor => "^="
  | .and => "&&=" | .or => "||=" | .nullish => "??="

/-- The binary operator that a compound assignment applies. The short-circuiting assignments
have none, since they may not assign at all. -/
def AssignOp.binary? : AssignOp → Option BinaryOp
  | .add => some .add | .sub => some .sub | .mul => some .mul | .div => some .div
  | .mod => some .mod | .pow => some .pow
  | .shiftLeft => some .shiftLeft | .shiftRight => some .shiftRight
  | .shiftRightUnsigned => some .shiftRightUnsigned
  | .bitAnd => some .bitAnd | .bitOr => some .bitOr | .bitXor => some .bitXor
  | .assign | .and | .or | .nullish => none

inductive KeywordType where
  | number | string | boolean | void | null | undefined | any | never | unknown | object
  | symbol | bigint
deriving DecidableEq, Repr

def keywordTypes : List (String × KeywordType) := [
  ("number", .number), ("string", .string), ("boolean", .boolean), ("void", .void),
  ("null", .null), ("undefined", .undefined), ("any", .any), ("never", .never),
  ("unknown", .unknown), ("object", .object), ("symbol", .symbol), ("bigint", .bigint)]

def KeywordType.ofName? (name : String) : Option KeywordType := keywordTypes.lookup name

def KeywordType.text : KeywordType → String
  | .number => "number" | .string => "string" | .boolean => "boolean" | .void => "void"
  | .null => "null" | .undefined => "undefined" | .any => "any" | .never => "never"
  | .unknown => "unknown" | .object => "object" | .symbol => "symbol" | .bigint => "bigint"

inductive VarKind where
  | let_ | const | var
deriving DecidableEq, Repr

def VarKind.text : VarKind → String
  | .let_ => "let" | .const => "const" | .var => "var"

inductive Access where
  | public_ | private_ | protected_
deriving DecidableEq, Repr

def Access.text : Access → String
  | .public_ => "public" | .private_ => "private" | .protected_ => "protected"

inductive MethodKind where
  | method | getter | setter
deriving DecidableEq, Repr

structure Modifiers where
  access : Option Access := none
  isStatic : Bool := false
  isReadonly : Bool := false
  isAbstract : Bool := false
  isOptional : Bool := false
  isOverride : Bool := false
  isDeclare : Bool := false
deriving DecidableEq, Repr

inductive Literal where
  | number (value : Float)
  | string (value : String)
  | boolean (value : Bool)
  | null
deriving DecidableEq

inductive LiteralType where
  | string (value : String)
  | number (value : Float)
  | boolean (value : Bool)
deriving DecidableEq

end TypeStrip
