import TypeStrip.Code.Tree
import TypeStrip.Number.Decimal
import TypeStrip.Text.Quoted

/-! How code is laid out: indentation, blocks, and which operands need parentheses. -/
namespace TypeStrip.Code

/-! ### Lines -/

def indentation (depth : Nat) : String := String.ofList (List.replicate (4 * depth) ' ')

/-- Texts one below the other, each ended by a line break. A text that reaches over several lines
already has the blanks in front of all but the first. -/
def lines (depth : Nat) (texts : List String) : String :=
  String.join (texts.map fun t => indentation depth ++ t ++ "\n")

def stacked (depth : Nat) (texts : List String) : String :=
  String.intercalate ("\n" ++ indentation depth) texts

def braced (depth : Nat) (texts : List String) : String :=
  if texts.isEmpty then "\x7b \x7d"
  else "\x7b\n" ++ lines (depth + 1) texts ++ indentation depth ++ "\x7d"

def listed (texts : List String) : String := String.intercalate ", " texts

def inlineBraced (texts : List String) : String :=
  if texts.isEmpty then "\x7b\x7d" else "\x7b " ++ listed texts ++ " \x7d"

def beginsWith (text front : String) : Bool := front.toList.isPrefixOf text.toList

/-! ### Binding powers -/

/-- How tightly the forms of an expression bind; the binary operators fill the gap between
`conditional` and `unary`. -/
abbrev powerOfSequence : Nat := 0
@[inherit_doc powerOfSequence] abbrev powerOfAssignment : Nat := 2
@[inherit_doc powerOfSequence] abbrev powerOfConditional : Nat := 3
@[inherit_doc powerOfSequence] abbrev powerOfUnary : Nat := 16
@[inherit_doc powerOfSequence] abbrev powerOfPostfix : Nat := 17
@[inherit_doc powerOfSequence] abbrev powerOfMember : Nat := 18
@[inherit_doc powerOfSequence] abbrev powerOfPrimary : Nat := 20

def binaryPower : BinaryOp → Nat
  | .nullish => 4
  | .or => 5
  | .and => 6
  | .bitOr => 7
  | .bitXor => 8
  | .bitAnd => 9
  | .eq | .notEq | .strictEq | .strictNotEq => 10
  | .lt | .ltEq | .gt | .gtEq | .in_ | .instanceof => 11
  | .shiftLeft | .shiftRight | .shiftRightUnsigned => 12
  | .add | .sub => 13
  | .mul | .div | .mod => 14
  | .pow => 15

/-- The least power of the left operand of a binary operator. Only `**` associates to the
right. -/
def leftPower (op : BinaryOp) : Nat :=
  if op = .pow then binaryPower op + 1 else binaryPower op

def rightPower (op : BinaryOp) : Nat :=
  if op = .pow then binaryPower op else binaryPower op + 1

def Expr.power : Expr → Nat
  | .sequence _ => powerOfSequence
  | .assign .. | .arrow _ | .yield .. | .spread _ => powerOfAssignment
  | .conditional .. => powerOfConditional
  | .binary _ op _ => binaryPower op
  | .unary op _ => if op.isPostfix then powerOfPostfix else powerOfUnary
  | .await _ => powerOfUnary
  | .require _ | .call .. | .optionalCall .. | .new .. | .member .. | .optionalMember ..
  | .index .. | .optionalIndex .. => powerOfMember
  | _ => powerOfPrimary

/-- The text of an expression where at least the given power is needed. -/
def Expr.guarded (e : Expr) (least : Nat) (text : String) : String :=
  if e.power < least then "(" ++ text ++ ")" else text

/-! ### Literals -/

def numberText (x : Float) : String :=
  match Number.decode x with
  | .infinite negative => if negative then "-Infinity" else "Infinity"
  | _ => Number.text x

def literalText : Literal → String
  | .number x => numberText x
  | .string s => Text.quoted s
  | .boolean b => if b then "true" else "false"
  | .null => "null"

/-! ### Operators -/

/-- A unary operator with its operand. A blank keeps two signs apart. -/
def unaryText (op : UnaryOp) (operand : String) : String :=
  match op with
  | .postIncrement | .postDecrement => operand ++ op.text
  | .typeof | .void | .delete => op.text ++ " " ++ operand
  | .minus | .preDecrement =>
    if beginsWith operand "-" then op.text ++ " " ++ operand else op.text ++ operand
  | .plus | .preIncrement =>
    if beginsWith operand "+" then op.text ++ " " ++ operand else op.text ++ operand
  | .not | .bitNot => op.text ++ operand

def statementOpeners : List String :=
  ["\x7b", "function ", "function(", "function*", "async function", "class ", "class\x7b"]

def statementText (text : String) : String :=
  if statementOpeners.any (beginsWith text) then "(" ++ text ++ ");" else text ++ ";"

/-- What an arrow gives, which may not look like a block. -/
def arrowValueText (text : String) : String :=
  if beginsWith text "\x7b" then "(" ++ text ++ ")" else text

/-- The elements of an array. A hole at the end needs a comma of its own. -/
def elementsText (texts : List String) (endsInHole : Bool) : String :=
  "[" ++ listed (if endsInHole then texts ++ [""] else texts) ++ "]"

def endsInHole (es : List Expr) : Bool :=
  match es.getLast? with
  | some .omitted => true
  | _ => false

def patternEndsInHole (ps : List Pattern) : Bool :=
  match ps.getLast? with
  | some .omitted => true
  | _ => false

def functionHead (name : Option String) (isAsync isGenerator : Bool) : String :=
  (if isAsync then "async " else "") ++ "function" ++ (if isGenerator then "*" else "") ++
    match name with
    | some name => " " ++ name
    | none => if isGenerator then "" else " "

/-- What stands before the key of a method. Only plain methods can be asynchronous or
generators. -/
def methodHead (kind : MethodKind) (isAsync isGenerator : Bool) : String :=
  match kind with
  | .getter => "get "
  | .setter => "set "
  | .method => (if isAsync then "async " else "") ++ (if isGenerator then "*" else "")

/-! ### Imports and exports that are kept -/

def importClauses (bindings : List Binding) : List String :=
  bindings.filterMap fun
    | .default name => some name
    | .whole name => some ("* as " ++ name)
    | .named .. => none

def importNames (bindings : List Binding) : List String :=
  bindings.filterMap fun
    | .named imported name => some (if imported = name then name else imported ++ " as " ++ name)
    | _ => none

def importText (bindings : List Binding) (source : String) : String :=
  let names := importNames bindings
  let clauses := importClauses bindings ++ if names.isEmpty then [] else [inlineBraced names]
  if bindings.isEmpty then "import " ++ Text.quoted source ++ ";"
  else "import " ++ listed clauses ++ " from " ++ Text.quoted source ++ ";"

def exportNamesText (names : List (String × String)) (source : Option String) : String :=
  let parts := names.map fun (name, exported) =>
    if exported = name then name else name ++ " as " ++ exported
  "export " ++ inlineBraced parts ++
    match source with
    | some source => " from " ++ Text.quoted source ++ ";"
    | none => ";"

def copyExportsText (source target : String) : String :=
  "Object.keys(" ++ source ++ ").forEach(function (k) \x7b if (k !== \"default\" && !(k in " ++
    target ++ ")) " ++ target ++ "[k] = " ++ source ++ "[k]; \x7d);"

end TypeStrip.Code
