import TypeStrip.Grammar.Expression

/-! Declarations. -/
namespace TypeStrip.Grammar
open TypeStrip.Token (Kind)

def varKind? : Kind → Option VarKind
  | .kwLet => some .let_
  | .kwConst => some .const
  | .kwVar => some .var
  | _ => none

/-- One variable of a declaration. A mark after its pattern promises a later value. -/
def declarator (g : Inner) : Parser Declarator := do
  let p ← pattern g
  discard <| accept .bang
  let type ← after .colon g.type
  let init ← after .eq g.assign
  return .mk p type init

def declarators (g : Inner) : Parser (VarKind × List Declarator) := do
  match varKind? (← get).current.kind with
  | some kind =>
    skip
    return (kind, ← sepBy1 .comma (declarator g))
  | none => complain .expectedVariableKind

def varDeclaration (g : Inner) (isDeclare : Bool) : Parser Decl := do
  let (kind, ds) ← declarators g
  endStatement
  return .vars kind ds isDeclare

/-- Whether a function, class, interface, type alias, enum, namespace or ambient declaration
starts here. Most of the words that start one are identifiers elsewhere. -/
def Cursor.atDeclaration (c : Cursor) : Bool :=
  match c.current.kind with
  | .kwFunction | .kwClass | .kwEnum => true
  | .kwConst => c.sees 1 .kwEnum
  | .identifier =>
    match c.current.value with
    | "async" => c.sees 1 .kwFunction && c.sameLine 1
    | "abstract" => c.sees 1 .kwClass && c.sameLine 1
    | "interface" => c.sees 1 .identifier && c.sameLine 1
    | "type" => c.sees 1 .identifier && c.sameLine 1 && c.seesAny 2 [.eq, .lt]
    | "namespace" | "module" => c.seesAny 1 [.identifier, .string] && c.sameLine 1
    | "declare" =>
      c.sameLine 1 && (c.peek? 1).any fun t => t.kind == .identifier || t.kind.isReserved
    | "global" => c.sees 1 .lBrace
    | _ => false
  | _ => false

def interfaceRest (g : Inner) : Parser Decl := do
  expectWord "interface"
  let name ← identifier
  let typeParams ← optionalTypeParams g
  let bases ← if ← accept .kwExtends then typeList g else pure []
  return .interface name typeParams bases (← typeMembers g)

def aliasRest (g : Inner) : Parser Decl := do
  expectWord "type"
  let name ← identifier
  let typeParams ← optionalTypeParams g
  discard <| expect .eq
  let type ← g.type
  endStatement
  return .alias_ name typeParams type

def enumMember (g : Inner) : Parser Member := do
  let start ← here
  let c ← get
  let k ←
    if c.at_ .string then do
      let t ← take
      pure (Key.string t.value)
    else if c.atName then Key.ident <$> anyName
    else complain .expectedEnumMember
  let init ← after .eq (withIn true g.assign)
  return .field (← since start) k none init {}

def enumRest (g : Inner) (isConst isDeclare : Bool) : Parser Decl := do
  discard <| expect .kwEnum
  let name ← identifier
  discard <| expect .lBrace
  let members ← commaSeparated .rBrace (enumMember g)
  discard <| expect .rBrace
  return .enumeration name members isConst isDeclare

def namespaceItems (item : Parser Item) : Parser (List Item) := do
  discard <| expect .lBrace
  let items ← collectUntil .rBrace item
  discard <| expect .rBrace
  return items

def namespaceUpTo (item : Parser Item) (isDeclare : Bool) : Nat → Parser Namespace
  | 0 => complain .tooDeep
  | fuel + 1 => do
    if (← get).at_ .string then
      let name := ModuleName.string (← take).value
      if (← get).at_ .lBrace then return .block name (← namespaceItems item) isDeclare
      endStatement
      return .ambient name isDeclare
    let name := ModuleName.ident (← identifier)
    if ← accept .dot then
      let start ← here
      let inner ← namespaceUpTo item isDeclare fuel
      return .dotted name (← since start) inner isDeclare
    return .block name (← namespaceItems item) isDeclare

def namespaceRest (item : Parser Item) (isDeclare : Bool) : Parser Decl := do
  return .namespace_ (← namespaceUpTo item isDeclare (← get).remaining)

def globalRest (item : Parser Item) : Parser Decl := do
  let name ← identifier
  return .namespace_ (.block (.ident name) (← namespaceItems item) true)

/-- A declaration that a word which is not reserved starts. -/
def wordDeclaration (g : Inner) (item : Parser Item) (isDeclare : Bool) (word : String) :
    Parser Decl := do
  match word with
  | "async" =>
    skip
    return .function (← function g true isDeclare true)
  | "abstract" =>
    skip
    return .cls (← classRest g (leftHandSide g) true isDeclare)
  | "interface" => interfaceRest g
  | "type" => aliasRest g
  | "namespace" | "module" =>
    skip
    namespaceRest item isDeclare
  | "global" => globalRest item
  | _ => complain (.expectedDeclarationNotWord word)

def declarationBody (g : Inner) (item : Parser Item) (isDeclare : Bool) : Parser Decl := do
  let c ← get
  match c.current.kind with
  | .kwFunction => return .function (← function g false isDeclare true)
  | .kwClass => return .cls (← classRest g (leftHandSide g) false isDeclare)
  | .kwEnum => enumRest g false isDeclare
  | .kwConst =>
    if c.sees 1 .kwEnum then
      skip
      enumRest g true isDeclare
    else complainFound .expectedDeclaration
  | .identifier => wordDeclaration g item isDeclare c.current.value
  | _ => complainFound .expectedDeclaration

def ambientDeclaration (g : Inner) (item : Parser Item) : Parser Decl := do
  let c ← get
  if (varKind? c.current.kind).isSome && !c.sees 1 .kwEnum then varDeclaration g true
  else declarationBody g item true

/-- A declaration other than of variables, given the parser of the items of a namespace. -/
def declaration (g : Inner) (item : Parser Item) : Parser Decl := do
  if ← acceptWord "declare" then ambientDeclaration g item else declarationBody g item false

end TypeStrip.Grammar
