import TypeStrip.Grammar.Pattern

/-! Types. -/
namespace TypeStrip.Grammar
open TypeStrip.Token (Kind)

/-- Type arguments. The closing `>` may be the start of a longer operator. -/
def typeArguments (g : Inner) : Parser (List TypeExpr) := do
  discard <| expect .lt
  let args ← sepBy1 .comma g.type
  closeAngle
  return args

def varianceWord : Parser (Option Unit) := do
  let c ← get
  if (c.at_ .kwConst || c.at_ .kwIn || c.atWord "out") && c.sees 1 .identifier then
    return some (← skip)
  else return none

def skipVariance : Parser Unit := discard <| collect varianceWord

def typeParam (g : Inner) : Parser TypeParam := do
  skipVariance
  let name ← identifier
  let bound ← after .kwExtends g.type
  let fallback ← after .eq g.type
  return TypeParam.mk name bound fallback

def typeParams (g : Inner) : Parser (List TypeParam) := do
  discard <| expect .lt
  let params ← commaSeparated .gt (typeParam g)
  closeAngle
  if params.isEmpty then complain .emptyTypeParameters
  return params

def optionalTypeParams (g : Inner) : Parser (List TypeParam) := do
  if (← get).at_ .lt then typeParams g else return []

/-- A type, or a statement about a variable, which says whether it holds (`x is T`) or gives
nothing (`asserts x`). -/
def typeOrPredicate (g : Inner) : Parser TypeExpr := do
  let start ← here
  let c ← get
  if c.atWord "asserts" && c.seesAny 1 [.identifier, .kwThis] then
    skip
    skip
    if ← acceptWord "is" then discard g.type
    return .keyword (← since start) .void
  if c.seesAny 0 [.identifier, .kwThis] && c.seesWord 1 "is" then
    skip
    skip
    discard g.type
    return .keyword (← since start) .boolean
  g.type

/-- The name of a parameter of a function type. A pattern is read and forgotten. -/
def typeParamPattern (g : Inner) : Parser Pattern := do
  let c ← get
  match c.current.kind with
  | .lBrace | .lBracket =>
    discard <| pattern g
    return .omitted
  | .identifier | .kwThis =>
    if c.seesAny 1 [.colon, .question, .comma, .rParen] then
      let t ← take
      return .ident t.span ⟨t.span, t.value⟩
    else complain .expectedParameterName
  | _ => complain .expectedParameterName

def signatureParam (g : Inner) : Parser Param := do
  let isRest ← accept .dotDotDot
  let p ← typeParamPattern g
  let isOptional ← accept .question
  let type ← after .colon g.type
  return Param.mk p type isOptional isRest none false

def signatureParams (g : Inner) : Parser (List Param) := commaSeparated .rParen (signatureParam g)

def signature (g : Inner) : Parser Func := do
  let typeParams ← optionalTypeParams g
  discard <| expect .lParen
  let params ← signatureParams g
  discard <| expect .rParen
  let returns ← after .colon (typeOrPredicate g)
  return .mk none typeParams params returns .absent false false false

def functionType (g : Inner) (start : Span) : Parser TypeExpr := do
  let typeParams ← optionalTypeParams g
  discard <| expect .lParen
  let params ← signatureParams g
  discard <| expect .rParen
  discard <| expect .fatArrow
  let returns ← typeOrPredicate g
  return .function (start.merge returns.span)
    (.mk none typeParams params (some returns) .absent false false false)

def indexSignature (g : Inner) : Parser (Name × TypeExpr × TypeExpr) := do
  let name ← identifier
  discard <| expect .colon
  let keyType ← g.type
  discard <| expect .rBracket
  discard <| expect .colon
  let valueType ← g.type
  return (name, keyType, valueType)

def Cursor.atIndexSignature (c : Cursor) : Bool :=
  c.at_ .lBracket && c.sees 1 .identifier && c.sees 2 .colon

def Cursor.atSignature (c : Cursor) : Bool := c.at_ .lParen || c.at_ .lt

/-- A member of an object type or interface. The words of accessors are dropped. -/
def typeMember (g : Inner) : Parser Member := do
  let start ← here
  let c ← get
  let isReadonly := c.atWord "readonly"
    && !c.seesAny 1 [.lParen, .colon, .question, .semicolon, .comma, .rBrace]
  if isReadonly then skip
  if (← get).atIndexSignature then
    skip
    let (name, keyType, valueType) ← indexSignature g
    return .index (← since start) name keyType valueType false
  let c ← get
  if c.at_ .kwNew && c.seesAny 1 [.lParen, .lt] then skip
  if (← get).atSignature then
    let f ← signature g
    return .call (← since start) f
  discard methodWords
  let k ← key g
  let isOptional ← accept .question
  if (← get).atSignature then
    let f ← signature g
    return .method (← since start) k .method f { isOptional }
  let type ← after .colon g.type
  return .field (← since start) k type none { isOptional, isReadonly }

def listedMember (g : Inner) : Parser Member := do
  let m ← typeMember g
  unless ← accept .semicolon do discard <| accept .comma
  return m

def typeMembers (g : Inner) : Parser (List Member) := do
  discard <| expect .lBrace
  let members ← collectUntil .rBrace (listedMember g)
  discard <| expect .rBrace
  return members

def skipSign : Parser Unit := do
  unless ← accept .plus do discard <| accept .minus

def mappedType (g : Inner) : Parser TypeExpr := do
  let start ← here
  discard <| expect .lBrace
  skipSign
  discard <| acceptWord "readonly"
  discard <| expect .lBracket
  let param ← identifier
  discard <| expect .kwIn
  let keys ← g.type
  if ← acceptWord "as" then discard g.type
  discard <| expect .rBracket
  skipSign
  discard <| accept .question
  let value ← after .colon g.type
  unless ← accept .semicolon do discard <| accept .comma
  discard <| expect .rBrace
  return .mapped (← since start) param keys value

/-- An element of a tuple type. Its label is dropped. -/
def tupleElement (g : Inner) : Parser TypeExpr := do
  discard <| accept .dotDotDot
  let c ← get
  if c.at_ .identifier && (c.sees 1 .colon || (c.sees 1 .question && c.sees 2 .colon)) then
    skip
    discard <| accept .question
    discard <| expect .colon
  let t ← g.type
  discard <| accept .question
  return t

def typeReference (g : Inner) : Parser TypeExpr := do
  let start ← here
  let first ← identifier
  let rest ← collect (after .dot anyName)
  let c ← get
  let args ← if c.at_ .lt && !c.current.newlineBefore then typeArguments g else pure []
  return .reference (← since start) (first :: rest) args

def literalType (span : Span) (value : LiteralType) : Parser TypeExpr := do
  skip
  return .literal span value

def primaryType (g : Inner) : Parser TypeExpr := do
  let c ← get
  let t := c.current
  let start := t.span
  match t.kind with
  | .identifier =>
    match KeywordType.ofName? t.value with
    | some k =>
      if c.sees 1 .dot then typeReference g
      else
        skip
        return .keyword start k
    | none => typeReference g
  | .kwVoid =>
    skip
    return .keyword start .void
  | .kwNull =>
    skip
    return .keyword start .null
  | .kwThis | .kwConst =>
    skip
    return .reference start [⟨t.span, t.value⟩] []
  | .kwTypeof =>
    skip
    if (← get).at_ .kwImport then complain .typeofImport
    let path ← sepBy1 .dot anyName
    return .typeof (← since start) path
  | .string | .template => literalType start (.string t.value)
  | .number => literalType start (.number (numberOf t))
  | .kwTrue => literalType start (.boolean true)
  | .kwFalse => literalType start (.boolean false)
  | .minus =>
    if c.sees 1 .number then
      skip
      let n := numberOf (← take)
      return .literal (← since start) (.number (-n))
    else complainFound .expectedType
  | .lParen =>
    skip
    let inner ← g.type
    discard <| expect .rParen
    return .paren (← since start) inner
  | .lBracket =>
    skip
    let elements ← commaSeparated .rBracket (tupleElement g)
    discard <| expect .rBracket
    return .tuple (← since start) elements
  | .lBrace =>
    match ← attempt (mappedType g) with
    | some t => return t
    | none =>
      let members ← typeMembers g
      return .object (← since start) members
  | _ => complainFound .expectedType

def bracketedType (g : Inner) (start : Span) (t : TypeExpr) : Parser (Option TypeExpr) := do
  let c ← get
  if !c.at_ .lBracket || c.current.newlineBefore then return none
  skip
  if ← accept .rBracket then return some (.array (← since start) t)
  let index ← g.type
  discard <| expect .rBracket
  return some (.indexed (← since start) t index)

def postfixType (g : Inner) : Parser TypeExpr := do
  let start ← here
  let t ← primaryType g
  extend (bracketedType g start) t

/-- Whether the current word, which may be an operator on types, has an operand. -/
def operandFollows (c : Cursor) : Bool :=
  (c.peek? 1).any fun t =>
    let ends : List Kind :=
      [.comma, .rParen, .rBracket, .gt, .semicolon, .eq, .pipe, .amp, .eof]
    !ends.contains t.kind

/-- A type with at most so many operators in front of it. -/
def typeOperatorUpTo (g : Inner) : Nat → Parser TypeExpr
  | 0 => complain .tooDeep
  | fuel + 1 => do
    let start ← here
    let c ← get
    if c.at_ .identifier && operandFollows c then
      match c.current.value with
      | "keyof" =>
        skip
        let operand ← typeOperatorUpTo g fuel
        return .keyof (start.merge operand.span) operand
      | "unique" | "readonly" =>
        skip
        typeOperatorUpTo g fuel
      | "infer" =>
        skip
        let name ← identifier
        return .infer (start.merge name.span) name
      | _ => postfixType g
    else postfixType g

def typeOperator (g : Inner) : Parser TypeExpr := do
  typeOperatorUpTo g (← get).remaining

/-- Operands with the given operator between them and, if one likes, in front of them. A single
operand stands for itself. -/
def operatorChain (operator : Kind) (operand : Parser TypeExpr)
    (make : Span → List TypeExpr → TypeExpr) : Parser TypeExpr := do
  let start ← here
  discard <| accept operator
  let first ← operand
  if !(← get).at_ operator then return first
  let rest ← collect (after operator operand)
  return make (← since start) (first :: rest)

/-- Alternatives, each of which may be a combination of types. -/
def unionType (g : Inner) : Parser TypeExpr :=
  operatorChain .pipe (operatorChain .amp (typeOperator g) .intersection) .union

def typeBody (g : Inner) : Parser TypeExpr := do
  let start ← here
  let c ← get
  if c.atWord "abstract" && c.sees 1 .kwNew then skip
  if ← accept .kwNew then return ← functionType g start
  if (← get).at_ .lt then return ← functionType g start
  if (← get).at_ .lParen then
    if let some f ← attempt (functionType g start) then return f
  let check ← unionType g
  let c ← get
  if c.at_ .kwExtends && !c.current.newlineBefore then
    skip
    let bound ← unionType g
    discard <| expect .question
    let yes ← g.type
    discard <| expect .colon
    let no ← g.type
    return .conditional (start.merge no.span) check bound yes no
  return check

end TypeStrip.Grammar
