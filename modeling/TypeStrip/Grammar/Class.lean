import TypeStrip.Grammar.Function

/-! Classes. -/
namespace TypeStrip.Grammar
open TypeStrip.Token (Kind)

def memberWords : List String :=
  ["public", "private", "protected", "static", "readonly", "abstract", "override", "declare",
    "accessor"]

/-- The modifiers with one more word in front of the member. Of two accesses the later wins. -/
def addWord (m : Modifiers) : String → Modifiers
  | "static" => { m with isStatic := true }
  | "readonly" => { m with isReadonly := true }
  | "abstract" => { m with isAbstract := true }
  | "override" => { m with isOverride := true }
  | "declare" => { m with isDeclare := true }
  | word => { m with access := (accessOf? word).or m.access }

/-- Whether the current word is a modifier. One that no name follows on its line is itself the
name of a member. -/
def Cursor.atMemberWord (c : Cursor) : Bool :=
  c.at_ .identifier && memberWords.contains c.current.value && c.sameLine 1
    && !c.seesAny 1 [.lParen, .eq, .semicolon, .colon, .question, .bang, .lt, .rBrace, .eof]

def withModifier (m : Modifiers) : Parser (Option Modifiers) := do
  if (← get).atMemberWord then return some (addWord m (← take).value) else return none

def modifiers (isDeclare : Bool) : Parser Modifiers := extend withModifier { isDeclare }

def keyedMember (g : Inner) (start : Span) (mods : Modifiers) : Parser Member := do
  let words ← methodWords
  let k ← key g
  let isOptional ← accept .question
  discard <| accept .bang
  if (← get).atSignature then
    let head : FunctionHead :=
      { isAsync := words.isAsync, isGenerator := words.isGenerator, isDeclare := mods.isDeclare }
    let f ← functionRest g head true
    return .method (← since start) k words.kind f { mods with isOptional }
  if words.kind ≠ .method || words.isAsync || words.isGenerator then
    complain .expectedMemberArguments
  let type ← after .colon g.type
  let init ← after .eq g.assign
  endStatement
  return .field (← since start) k type init { mods with isOptional }

def classMember (g : Inner) (isDeclare : Bool) : Parser Member := do
  let start ← here
  let mods ← modifiers isDeclare
  let c ← get
  if mods.isStatic && c.at_ .lBrace then complain .staticBlock
  if c.atIndexSignature then
    skip
    let (name, keyType, valueType) ← indexSignature g
    endStatement
    return .index (← since start) name keyType valueType mods.isReadonly
  if c.atWord "constructor" && c.sees 1 .lParen then
    skip
    let f ← functionRest g { isDeclare := mods.isDeclare } true
    return .constructor (← since start) f
  keyedMember g start mods

def bodyMember (g : Inner) (isDeclare : Bool) : Parser (Option Member) := do
  if ← accept .semicolon then return none else return some (← withIn true (classMember g isDeclare))

def typeList (g : Inner) : Parser (List TypeExpr) := sepBy1 .comma g.type

def classRest (g : Inner) (heritage : Parser Expr) (isAbstract isDeclare : Bool) :
    Parser Class := do
  discard <| expect .kwClass
  let c ← get
  let name ← if c.at_ .identifier && !c.atWord "implements" then some <$> identifier else pure none
  let typeParams ← optionalTypeParams g
  let base ← after .kwExtends heritage
  let baseArgs ←
    if base.isSome && (← get).at_ .lt then typeArguments g else pure []
  let interfaces ← if ← acceptWord "implements" then typeList g else pure []
  discard <| expect .lBrace
  let members ← collectUntil .rBrace (bodyMember g isDeclare)
  discard <| expect .rBrace
  return .mk name typeParams base baseArgs interfaces (members.filterMap id) isAbstract isDeclare

end TypeStrip.Grammar
