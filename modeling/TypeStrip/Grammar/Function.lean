import TypeStrip.Grammar.Type

/-! Parameters, blocks, and functions. -/
namespace TypeStrip.Grammar

def accessOf? : String → Option Access
  | "public" => some .public_
  | "private" => some .private_
  | "protected" => some .protected_
  | _ => none

/-- A word in front of a parameter that makes it a property: an access, or `readonly`, which
grants none. A word that no pattern follows is the parameter itself. -/
def propertyWord : Parser (Option (Option Access)) := do
  let c ← get
  let access := accessOf? c.current.value
  let isWord := c.at_ .identifier && (access.isSome || c.current.value == "readonly")
    && c.seesAny 1 [.identifier, .lBrace, .lBracket]
  if !isWord then return none
  skip
  return some access

/-- A parameter. The parameter `this` only carries a type. -/
def param (g : Inner) : Parser Param := do
  let words ← collect propertyWord
  let access := (words.filterMap id).getLast?
  let isReadonly := words.any Option.isNone
  let isRest ← accept .dotDotDot
  let c ← get
  let p ←
    if c.at_ .kwThis then do
      skip
      pure (Pattern.ident c.current.span ⟨c.current.span, "this"⟩)
    else pattern g
  let isOptional ← accept .question
  let type ← after .colon g.type
  let p ← defaulted g p
  return .mk p type isOptional isRest access isReadonly

def params (g : Inner) : Parser (List Param) := do
  discard <| expect .lParen
  let ps ← withIn true (commaSeparated .rParen (param g))
  discard <| expect .rParen
  return ps

def returnType (g : Inner) : Parser (Option TypeExpr) := after .colon (typeOrPredicate g)

def block (g : Inner) : Parser (Span × List Stmt) := do
  let start ← here
  discard <| expect .lBrace
  let stmts ← withIn true (collectUntil .rBrace g.stmt)
  discard <| expect .rBrace
  return (← since start, stmts)

def blockBody (g : Inner) : Parser Body := do
  let (span, stmts) ← block g
  return .block span stmts

structure FunctionHead where
  name : Option Name := none
  isAsync : Bool := false
  isGenerator : Bool := false
  isDeclare : Bool := false

/-- A function from its type parameters on. Where it may be without a body, as an ambient one
always is, a statement may end in place of the body. -/
def functionRest (g : Inner) (head : FunctionHead) (mayLackBody : Bool) : Parser Func := do
  let typeParams ← optionalTypeParams g
  let ps ← params g
  let returns ← returnType g
  let body ←
    if (← get).at_ .lBrace && !head.isDeclare then blockBody g
    else if mayLackBody then do
      endStatement
      pure Body.absent
    else complain .expectedBody
  return .mk head.name typeParams ps returns body head.isAsync head.isGenerator head.isDeclare

def function (g : Inner) (isAsync isDeclare mayLackBody : Bool) : Parser Func := do
  discard <| expect .kwFunction
  let isGenerator ← accept .star
  let name ← if (← get).at_ .identifier then some <$> identifier else pure none
  functionRest g { name, isAsync, isGenerator, isDeclare } mayLackBody

end TypeStrip.Grammar
