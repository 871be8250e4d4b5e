import TypeStrip.Grammar.Declaration

/-! Imports, exports, and the items of modules and namespaces. -/
namespace TypeStrip.Grammar
open TypeStrip.Token (Kind)

def exportName : Parser Name := do
  if (← get).at_ .string then
    let t ← take
    return ⟨t.span, t.value⟩
  else anyName

def specifierType : Parser Bool := do
  let c ← get
  let typeOnly := c.atWord "type" && (c.peek? 1).any fun t =>
    (t.kind == .identifier || t.kind.isReserved) && t.value != "as"
  if typeOnly then skip
  return typeOnly

def renamed (name : Parser Name) : Parser (Option Name) := do
  if ← acceptWord "as" then return some (← name) else return none

def skipAttributes (g : Inner) : Parser Unit := do
  let c ← get
  if (c.at_ .kwWith || c.atWord "assert") && !c.current.newlineBefore && c.sees 1 .lBrace then
    skip
    discard <| primary g (leftHandSide g)

def fromClause (g : Inner) : Parser String := do
  expectWord "from"
  let t ← expect .string
  skipAttributes g
  return t.value

/-! ### Imports -/

/-- Whether the word `type` makes a whole import one of types. -/
def importsTypes (c : Cursor) : Bool :=
  c.atWord "type" &&
    (c.seesAny 1 [.lBrace, .star]
      || c.sees 1 .identifier
        && ((c.peek? 1).any (·.value != "from") || (c.peek? 2).any (·.value == "from")))

def namedImport : Parser ImportSpecifier := do
  let typeOnly ← specifierType
  let imported ← exportName
  let renamed ← renamed identifier
  return .named imported renamed typeOnly

def importClause : Parser (List ImportSpecifier) := do
  if ← accept .star then
    expectWord "as"
    return [.whole (← identifier)]
  if ← accept .lBrace then
    let names ← commaSeparated .rBrace namedImport
    discard <| expect .rBrace
    return names
  return []

def defaultImport : Parser (List ImportSpecifier) := do
  let c ← get
  if !c.at_ .identifier then return []
  if c.sees 1 .eq then complain .importEquals
  let name ← identifier
  discard <| accept .comma
  return [.default name]

def importDecl (g : Inner) : Parser Import := do
  discard <| expect .kwImport
  let typeOnly := importsTypes (← get)
  if typeOnly then skip
  if (← get).at_ .string then
    let t ← take
    skipAttributes g
    endStatement
    return ⟨[], t.value, typeOnly⟩
  let first ← defaultImport
  let specifiers := first ++ (← importClause)
  if specifiers.isEmpty then complain .expectedImportSpecifiers
  let source ← fromClause g
  endStatement
  return ⟨specifiers, source, typeOnly⟩

def Cursor.atImport (c : Cursor) : Bool :=
  c.at_ .kwImport && !c.seesAny 1 [.lParen, .dot]

/-! ### Exports -/

def Cursor.atDefaultDeclaration (c : Cursor) : Bool :=
  c.at_ .kwFunction || c.at_ .kwClass
    || (c.atWord "async" && c.sees 1 .kwFunction && c.sameLine 1)
    || (c.atWord "abstract" && c.sees 1 .kwClass)
    || (c.atWord "interface" && c.sees 1 .identifier)

def exportDefault (g : Inner) (item : Parser Item) (start : Span) : Parser Item := do
  let c ← get
  if c.atDefaultDeclaration then
    let d ← declaration g item
    return .exportDefaultDecl (← since start) (← since c.current.span) d
  let e ← g.assign
  endStatement
  return .exportDefault (← since start) e

def exportAll (g : Inner) (start : Span) (typeOnly : Bool) : Parser Item := do
  let name ← renamed anyName
  let source ← fromClause g
  endStatement
  return .exportAll (← since start) source name typeOnly

def exportSpecifier : Parser ExportSpecifier := do
  let typeOnly ← specifierType
  let inner ← exportName
  let renamed ← renamed exportName
  return ⟨inner, renamed, typeOnly⟩

def exportList (g : Inner) (start : Span) (typeOnly : Bool) : Parser Item := do
  let specifiers ← commaSeparated .rBrace exportSpecifier
  discard <| expect .rBrace
  let source ← if (← get).atWord "from" then some <$> fromClause g else pure none
  endStatement
  return .exportNamed (← since start) specifiers source typeOnly

def exportDeclaration (g : Inner) (item : Parser Item) (start : Span) : Parser Item := do
  let c ← get
  if c.atDeclaration then
    let d ← declaration g item
    return .exportDecl (← since start) (← since c.current.span) d
  if (varKind? c.current.kind).isSome then
    let d ← varDeclaration g false
    return .exportDecl (← since start) (← since c.current.span) d
  complainFound .unexpectedAfterExport

/-- An export. The name that a script is to have as a global is forgotten. -/
def exportItem (g : Inner) (item : Parser Item) : Parser Item := do
  let start ← here
  discard <| expect .kwExport
  if ← accept .kwDefault then return ← exportDefault g item start
  if (← get).at_ .eq then complain .exportEquals
  if ← acceptWord "as" then
    expectWord "namespace"
    discard identifier
    endStatement
    return .exportNamed (← since start) [] none true
  let c ← get
  let typeOnly := c.atWord "type" && c.seesAny 1 [.lBrace, .star]
  if typeOnly then skip
  if ← accept .star then return ← exportAll g start typeOnly
  if ← accept .lBrace then return ← exportList g start typeOnly
  exportDeclaration g item start

/-! ### Items -/

/-- An item, with at most so many exported namespaces around each other. -/
def itemUpTo (g : Inner) : Nat → Parser Item
  | 0 => complain .tooDeep
  | fuel + 1 => do
    let c ← get
    let start := c.current.span
    if c.atImport then
      let d ← importDecl g
      return .import_ (← since start) d
    if c.at_ .kwExport then return ← exportItem g (itemUpTo g fuel)
    let s ← g.stmt
    return .stmt (← since start) s

def item (g : Inner) : Parser Item := do
  itemUpTo g (← get).remaining

end TypeStrip.Grammar
