import TypeStrip.Grammar.Key

/-! Binding patterns. -/
namespace TypeStrip.Grammar

def defaulted (g : Inner) (p : Pattern) : Parser Pattern := do
  match ← after .eq (withIn true g.assign) with
  | some e => return .withDefault (p.span.merge e.span) p e
  | none => return p

/-- The rest of an array or object pattern, which has to be its last element. -/
def restPattern (pattern : Parser Pattern) : Parser (Option Pattern) :=
  after .dotDotDot do
    let p ← pattern
    if (← get).at_ .comma then complain .restNotLast
    return p

/-- The next element of an array pattern, if there is one in front of the rest. A comma without an
element leaves one out. -/
def arrayElement (g : Inner) (pattern : Parser Pattern) : Parser (Option Pattern) := do
  let c ← get
  if c.at_ .rBracket || c.atEnd || c.at_ .dotDotDot then return none
  if ← accept .comma then return some .omitted
  let p ← defaulted g (← pattern)
  unless (← get).at_ .rBracket do discard <| expect .comma
  return some p

def arrayPattern (g : Inner) (pattern : Parser Pattern) : Parser Pattern := do
  let start ← here
  discard <| expect .lBracket
  let elements ← collect (arrayElement g pattern)
  let rest ← restPattern pattern
  discard <| expect .rBracket
  return .array (← since start) elements rest

/-- One property of an object pattern. A key without a pattern binds the variable of that
name. -/
def patternField (g : Inner) (pattern : Parser Pattern) : Parser PatternField := do
  let k ← key g
  if ← accept .colon then return .mk k (← defaulted g (← pattern)) false
  match k with
  | .ident name => return .mk k (← defaulted g (.ident name.span name)) true
  | _ => complain .expectedColonInPattern

def objectField (g : Inner) (pattern : Parser Pattern) : Parser (Option PatternField) := do
  let c ← get
  if c.at_ .rBrace || c.atEnd || c.at_ .dotDotDot then return none
  let f ← patternField g pattern
  unless (← get).at_ .rBrace do discard <| expect .comma
  return some f

def objectPattern (g : Inner) (pattern : Parser Pattern) : Parser Pattern := do
  let start ← here
  discard <| expect .lBrace
  let fields ← collect (objectField g pattern)
  let rest ← restPattern pattern
  discard <| expect .rBrace
  return .object (← since start) fields rest

/-- A pattern with at most so many patterns around each other. -/
def patternUpTo (g : Inner) : Nat → Parser Pattern
  | 0 => complain .tooDeep
  | fuel + 1 => do
    match (← get).current.kind with
    | .identifier =>
      let name ← identifier
      return .ident name.span name
    | .lBracket => arrayPattern g (patternUpTo g fuel)
    | .lBrace => objectPattern g (patternUpTo g fuel)
    | _ => complainFound .expectedPattern

/-- A pattern. Every pattern inside another takes at least one token more. -/
def pattern (g : Inner) : Parser Pattern := do
  patternUpTo g (← get).remaining

end TypeStrip.Grammar
