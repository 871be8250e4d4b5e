import TypeStrip.Grammar.Inner

/-! Names, property keys, and the words in front of a method's name. -/
namespace TypeStrip.Grammar
open TypeStrip.Token (Kind)

def identifier : Parser Name := do
  let t ← expect .identifier
  return ⟨t.span, t.value⟩

def anyName : Parser Name := do
  if (← get).atName then
    let t ← take
    return ⟨t.span, t.value⟩
  else complainFound .expectedIdentifier

/-- The number that a numeric token stands for. One too large for its notation is none. -/
def numberOf (t : Token) : Float := t.numberValue?.getD (0.0 / 0.0)

def key (g : Inner) : Parser Key := do
  let c ← get
  match c.current.kind with
  | .string => return .string (← take).value
  | .number => return .number (numberOf (← take))
  | .lBracket =>
    skip
    let e ← withIn true g.assign
    discard <| expect .rBracket
    return .computed e
  | _ => if c.atName then return .ident (← anyName) else complain .expectedPropertyName

structure MethodWords where
  kind : MethodKind := .method
  isAsync : Bool := false
  isGenerator : Bool := false

def keyFollows (c : Cursor) : Bool :=
  c.sameLine 1 && (c.peek? 1).any fun t =>
    [Kind.identifier, .string, .number, .lBracket, .star].contains t.kind || t.kind.isReserved

/-- The words `get`, `set` and `async`, and a star, as far as a key follows them. A word that
none follows is itself a key. -/
def methodWords : Parser MethodWords := do
  let c ← get
  let words : MethodWords :=
    if !keyFollows c then {}
    else if c.atWord "get" then { kind := .getter }
    else if c.atWord "set" then { kind := .setter }
    else if c.atWord "async" then { isAsync := true }
    else {}
  if words.kind ≠ .method || words.isAsync then skip
  if words.kind = .method then return { words with isGenerator := ← accept .star }
  return words

end TypeStrip.Grammar
