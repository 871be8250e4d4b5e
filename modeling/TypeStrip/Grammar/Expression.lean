import TypeStrip.Token.Stream
import TypeStrip.Grammar.Class

/-! Expressions. -/
namespace TypeStrip.Grammar
open TypeStrip.Token (Kind)

/-! ### Operators -/

def binaryOp? : Kind → Option BinaryOp
  | .plus => some .add | .minus => some .sub | .star => some .mul | .slash => some .div
  | .percent => some .mod | .starStar => some .pow
  | .eqEq => some .eq | .bangEq => some .notEq | .eqEqEq => some .strictEq
  | .bangEqEq => some .strictNotEq
  | .lt => some .lt | .ltEq => some .ltEq | .gt => some .gt | .gtEq => some .gtEq
  | .ampAmp => some .and | .pipePipe => some .or | .questionQuestion => some .nullish
  | .amp => some .bitAnd | .pipe => some .bitOr | .caret => some .bitXor
  | .ltLt => some .shiftLeft | .gtGt => some .shiftRight | .gtGtGt => some .shiftRightUnsigned
  | .kwIn => some .in_ | .kwInstanceof => some .instanceof
  | _ => none

def assignOp? : Kind → Option AssignOp
  | .eq => some .assign
  | .plusEq => some .add | .minusEq => some .sub | .starEq => some .mul | .slashEq => some .div
  | .percentEq => some .mod | .starStarEq => some .pow
  | .ltLtEq => some .shiftLeft | .gtGtEq => some .shiftRight
  | .gtGtGtEq => some .shiftRightUnsigned
  | .ampEq => some .bitAnd | .pipeEq => some .bitOr | .caretEq => some .bitXor
  | .ampAmpEq => some .and | .pipePipeEq => some .or | .questionQuestionEq => some .nullish
  | _ => none

def prefixOp? : Kind → Option UnaryOp
  | .bang => some .not | .minus => some .minus | .plus => some .plus | .tilde => some .bitNot
  | .kwTypeof => some .typeof | .kwVoid => some .void | .kwDelete => some .delete
  | .plusPlus => some .preIncrement | .minusMinus => some .preDecrement
  | _ => none

/-- How tightly the current token binds as an operator between operands; zero if it is none.
The words `as` and `satisfies` are such operators on the line of their operand. -/
def bindingPower (c : Cursor) (allowIn : Bool) : Nat :=
  match c.current.kind with
  | .questionQuestion => 3
  | .pipePipe => 4
  | .ampAmp => 5
  | .pipe => 6
  | .caret => 7
  | .amp => 8
  | .eqEq | .bangEq | .eqEqEq | .bangEqEq => 9
  | .lt | .gt | .ltEq | .gtEq | .kwInstanceof => 10
  | .kwIn => if allowIn then 10 else 0
  | .identifier =>
    if !c.current.newlineBefore && ["as", "satisfies"].contains c.current.value then 10 else 0
  | .ltLt | .gtGt | .gtGtGt => 11
  | .plus | .minus => 12
  | .star | .slash | .percent => 13
  | .starStar => 14
  | _ => 0

/-- Whether a value may be assigned to the expression. Array and object literals can only be
taken apart by a plain assignment. -/
def isTarget (op : AssignOp) : Expr → Bool
  | .ident .. | .member .. | .index .. => true
  | .paren _ e | .cast _ e _ | .nonNull _ e => isTarget op e
  | .array .. | .object .. => op == .assign
  | _ => false

/-! ### Parts shared by several expressions -/

/-- Expressions separated by commas; one alone stands for itself. -/
def expression (g : Inner) : Parser Expr := do
  let first ← g.assign
  if !(← get).at_ .comma then return first
  let rest ← collect (after .comma g.assign)
  return .sequence (← since first.span) (first :: rest)

def parenthesized (g : Inner) : Parser Expr := do
  discard <| expect .lParen
  let e ← withIn true (expression g)
  discard <| expect .rParen
  return e

def spreadable (g : Inner) : Parser Expr := do
  let start ← here
  if ← accept .dotDotDot then
    let e ← g.assign
    return .spread (start.merge e.span) e
  else g.assign

def arguments (g : Inner) : Parser (List Expr) := do
  discard <| expect .lParen
  let args ← withIn true (commaSeparated .rParen (spreadable g))
  discard <| expect .rParen
  return args

/-! ### Primary expressions -/

/-- An element of an array literal. A comma without an element leaves one out. -/
def literalElement (g : Inner) : Parser Expr := do
  if ← accept .comma then return .omitted
  withComma .rBracket (spreadable g)

def arrayLiteral (g : Inner) : Parser (List Expr) := do
  discard <| expect .lBracket
  let elements ← withIn true (collectUntil .rBracket (literalElement g))
  discard <| expect .rBracket
  return elements

/-- A property with a key: a method, a value, or a variable of the same name. A variable with a
default is only of use where the literal is assigned to. -/
def keyedProperty (g : Inner) : Parser Property := do
  let words ← methodWords
  let k ← key g
  if (← get).atSignature then
    let head : FunctionHead := { isAsync := words.isAsync, isGenerator := words.isGenerator }
    return .method k words.kind (← functionRest g head false)
  if words.kind ≠ .method || words.isAsync || words.isGenerator then
    complain .expectedMethodArguments
  if ← accept .colon then return .pair k (← g.assign) false
  match k with
  | .ident name =>
    let reference := Expr.ident name.span name.text
    match ← after .eq g.assign with
    | some e =>
      return .pair k (.assign (name.span.merge e.span) reference .assign e) true
    | none => return .pair k reference true
  | _ => complain .expectedColonInObject

def property (g : Inner) : Parser Property := do
  if ← accept .dotDotDot then return .spread (← g.assign) else keyedProperty g

def objectLiteral (g : Inner) : Parser (List Property) := do
  discard <| expect .lBrace
  let properties ← withIn true (commaSeparated .rBrace (property g))
  discard <| expect .rBrace
  return properties

/-- The tokens of a substitution in a template whose body starts at the given byte. -/
def substitutionTokens (file bodyStart : Nat) (s : Template.Substitution) : List Token :=
  Token.tokenize s.source file (bodyStart + s.offset)

/-- A template. Its substitutions are read on their own, each to its end. -/
def templateLiteral (g : Inner) : Parser Expr := do
  let t ← take
  match Template.split t.value with
  | .error e => throw ⟨.template e, t.span⟩
  | .ok parts =>
    let exprs ← parts.substitutions.mapM fun s =>
      match g.substitution (substitutionTokens t.span.file (t.span.start + 1) s) with
      | .ok e => pure e
      | .error e => throw e
    return .template t.span parts.texts exprs

def literal (span : Span) (value : Literal) : Parser Expr := do
  skip
  return .literal span value

def primary (g : Inner) (heritage : Parser Expr) : Parser Expr := do
  let c ← get
  let t := c.current
  let start := t.span
  match t.kind with
  | .number | .bigint => literal start (.number (numberOf t))
  | .string => literal start (.string t.value)
  | .kwTrue => literal start (.boolean true)
  | .kwFalse => literal start (.boolean false)
  | .kwNull => literal start .null
  | .template => templateLiteral g
  | .kwThis =>
    skip
    return .this start
  | .kwSuper =>
    skip
    return .super start
  | .identifier =>
    skip
    if t.value = "async" && c.sees 1 .kwFunction && c.sameLine 1 then
      let f ← function g true false false
      return .function (← since start) f
    return .ident start t.value
  | .kwFunction =>
    let f ← function g false false false
    return .function (← since start) f
  | .kwClass =>
    let cls ← classRest g heritage false false
    return .cls (← since start) cls
  | .kwImport =>
    if c.sees 1 .lParen then
      skip
      return .ident start t.value
    else complainFound .unexpected
  | .lParen =>
    let e ← parenthesized g
    return .paren (← since start) e
  | .lBracket =>
    let elements ← arrayLiteral g
    return .array (← since start) elements
  | .lBrace =>
    let properties ← objectLiteral g
    return .object (← since start) properties
  | .slash | .slashEq => complain .regularExpression
  | _ => complainFound .unexpected

/-! ### Members and calls -/

def indexed (g : Inner) : Parser Expr := do
  discard <| expect .lBracket
  let index ← withIn true (expression g)
  discard <| expect .rBracket
  return index

def optionalLink (g : Inner) (start : Span) (object : Expr) : Parser Expr := do
  match (← get).current.kind with
  | .lParen =>
    let args ← arguments g
    return .optionalCall (← since start) object [] args
  | .lt =>
    let typeArgs ← typeArguments g
    let args ← arguments g
    return .optionalCall (← since start) object typeArgs args
  | .lBracket =>
    let index ← indexed g
    return .optionalIndex (← since start) object index
  | _ =>
    let name ← anyName
    return .optionalMember (← since start) object name

def callTypeArguments (g : Inner) : Parser (List TypeExpr) := do
  let args ← typeArguments g
  if !(← get).at_ .lParen then complain .expectedArguments
  return args

def link (g : Inner) (start : Span) (allowCall : Bool) (e : Expr) : Parser (Option Expr) := do
  let c ← get
  match c.current.kind with
  | .dot =>
    skip
    let name ← anyName
    return some (.member (start.merge name.span) e name)
  | .questionDot =>
    skip
    return some (← optionalLink g start e)
  | .lBracket =>
    let index ← indexed g
    return some (.index (← since start) e index)
  | .lParen =>
    if !allowCall then return none
    let args ← arguments g
    return some (.call (← since start) e [] args)
  | .lt =>
    if !allowCall then return none
    match ← attempt (callTypeArguments g) with
    | some typeArgs =>
      let args ← arguments g
      return some (.call (← since start) e typeArgs args)
    | none => return none
  | .bang =>
    if c.current.newlineBefore then return none
    skip
    return some (.nonNull (← since start) e)
  | .template => complain .taggedTemplate
  | _ => return none

def newExpression (g : Inner) (callee : Parser Expr) : Parser Expr := do
  let start ← here
  discard <| expect .kwNew
  if (← get).at_ .dot then complain .newTarget
  let e ← callee
  let typeArgs ←
    if (← get).at_ .lt then pure ((← attempt (typeArguments g)).getD []) else pure []
  let args ← if (← get).at_ .lParen then arguments g else pure []
  return .new (← since start) e typeArgs args

/-- Accesses to members, calls and constructions, with at most so many `new` expressions and
extended classes around each other. What is constructed is not called first. -/
def leftHandSideUpTo (g : Inner) : Nat → Bool → Parser Expr
  | 0, _ => complain .tooDeep
  | fuel + 1, allowCall => do
    let c ← get
    let head ←
      if c.at_ .kwNew then newExpression g (leftHandSideUpTo g fuel false)
      else primary g (leftHandSideUpTo g fuel true)
    extend (link g c.current.span allowCall) head

def leftHandSide (g : Inner) : Parser Expr := do
  leftHandSideUpTo g (← get).remaining true

/-! ### Operators and operands -/

def postfixExpr (g : Inner) : Parser Expr := do
  let e ← leftHandSide g
  let c ← get
  let op? := match c.current.kind with
    | .plusPlus => some UnaryOp.postIncrement
    | .minusMinus => some UnaryOp.postDecrement
    | _ => none
  match op? with
  | some op =>
    if c.current.newlineBefore then return e
    unless isTarget .add e do throw ⟨.invalidPostfixOperand, e.span⟩
    skip
    return .unary (← since e.span) op e
  | none => return e

/-- An operand of a binary operator. A type in angle brackets in front of it is a cast. -/
def unaryBody (g : Inner) : Parser Expr := do
  let c ← get
  let start := c.current.span
  match prefixOp? c.current.kind with
  | some op =>
    skip
    let e ← g.unary
    if op.isUpdate && !isTarget .add e then throw ⟨.invalidPrefixOperand, e.span⟩
    return .unary (start.merge e.span) op e
  | none =>
    if ← accept .kwAwait then
      let e ← g.unary
      return .await (start.merge e.span) e
    if ← accept .lt then
      let type ← g.type
      closeAngle
      let e ← g.unary
      return .cast (start.merge e.span) e type
    postfixExpr g

/-- One more operator that binds at least as tightly as `power`, with its right operand, for which
the parser of tight enough operators is given. Only `**` groups to the right. -/
def binaryStep (g : Inner) (operand : Nat → Parser Expr) (power : Nat) (left : Expr) :
    Parser (Option Expr) := do
  let c ← get
  let p := bindingPower c (← inAllowed)
  if p = 0 || p < power then return none
  if c.at_ .identifier then
    skip
    let type ← g.type
    let span := left.span.merge type.span
    return some (if c.current.value = "as" then .cast span left type
      else .satisfies span left type)
  match binaryOp? c.current.kind with
  | none => complain .expectedOperator
  | some op =>
    skip
    let right ← operand (if op = .pow then p else p + 1)
    return some (.binary (left.span.merge right.span) left op right)

/-- Operators that bind at least as tightly as `power`, with at most so many operands to the
right of each other. -/
def binaryUpTo (g : Inner) : Nat → Nat → Parser Expr
  | 0, _ => complain .tooDeep
  | fuel + 1, power => do extend (binaryStep g (binaryUpTo g fuel) power) (← g.unary)

def conditional (g : Inner) : Parser Expr := do
  let test ← binaryUpTo g (← get).remaining 1
  if ← accept .question then
    let yes ← withIn true g.assign
    discard <| expect .colon
    let no ← g.assign
    return .conditional (test.span.merge no.span) test yes no
  return test

/-! ### Arrows, `yield` and assignments -/

/-- The parameters of an arrow up to and with its `=>`, which has to be on the same line. -/
def arrowHead (g : Inner) : Parser (List TypeParam × List Param × Option TypeExpr) := do
  let typeParams ← optionalTypeParams g
  let ps ← params g
  let returns ← returnType g
  let c ← get
  if !c.at_ .fatArrow || c.current.newlineBefore then complain .expectedArrow
  skip
  return (typeParams, ps, returns)

def arrowBody (g : Inner) (start : Span) (isAsync : Bool)
    (head : List TypeParam × List Param × Option TypeExpr) : Parser Expr := do
  let body ←
    if (← get).at_ .lBrace then blockBody g else Body.value <$> g.assign
  let (typeParams, ps, returns) := head
  return .arrow (← since start) (.mk none typeParams ps returns body isAsync false false)

/-- An arrow function, if one starts here. A list in parentheses that no `=>` follows is left
for another reading. -/
def arrow? (g : Inner) : Parser (Option Expr) := do
  let c ← get
  let start := c.current.span
  let isAsync := c.atWord "async" && c.sameLine 1 && c.seesAny 1 [.identifier, .lParen, .lt]
  let ahead := if isAsync then 1 else 0
  if c.sees ahead .identifier && c.sees (ahead + 1) .fatArrow && c.sameLine (ahead + 1) then
    if isAsync then skip
    let name ← identifier
    discard <| expect .fatArrow
    let p := Param.mk (.ident name.span name) none false false none false
    return some (← arrowBody g start isAsync ([], [p], none))
  if !c.seesAny ahead [.lParen, .lt] then return none
  let head ← attempt do
    if isAsync then skip
    arrowHead g
  match head with
  | some head => return some (← arrowBody g start isAsync head)
  | none => return none

/-- A `yield` expression. Without a star its argument may be left out. -/
def yieldExpression (g : Inner) : Parser Expr := do
  let start ← here
  discard <| expect .kwYield
  let delegate ← accept .star
  let t := (← get).current
  let ends := t.newlineBefore
    || [Kind.rParen, .rBracket, .rBrace, .comma, .semicolon, .colon, .eof].contains t.kind
  let argument ← if ends && !delegate then pure none else some <$> g.assign
  return .yield (← since start) argument delegate

def assignBody (g : Inner) : Parser Expr := do
  if let some e ← arrow? g then return e
  if (← get).at_ .kwYield then return ← yieldExpression g
  let target ← conditional g
  match assignOp? (← get).current.kind with
  | some op =>
    unless isTarget op target do throw ⟨.invalidTarget, target.span⟩
    skip
    let value ← g.assign
    return .assign (target.span.merge value.span) target op value
  | none => return target

end TypeStrip.Grammar
