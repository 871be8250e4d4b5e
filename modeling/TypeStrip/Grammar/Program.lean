import TypeStrip.Grammar.Statement

/-!
Modules and expressions as a whole: the grammar with its bound on nesting, and going on after a
complaint.
-/
namespace TypeStrip.Grammar
open TypeStrip.Token (Kind)

/-! ### Nesting -/

def Inner.outward (g : Inner) : Inner where
  assign := nested (assignBody g)
  unary := nested (unaryBody g)
  stmt := nested (stmtBody g)
  type := nested (typeBody g)
  substitution := g.substitution

def levels (substitution : List Token → Except ParseError Expr) : Nat → Inner
  | 0 => .bottom substitution
  | n + 1 => (levels substitution n).outward

def wholeExpression (g : Inner) : Parser Expr := do
  let e ← expression g
  if !(← get).atEnd then complainFound .unexpectedAfterExpression
  return e

/-- The expression that tokens stand for, with templates at most so deep inside each other.
Every template starts anew, with one level more than may be entered. -/
def substitutionUpTo : Nat → List Token → Except ParseError Expr
  | 0, tokens => .error ⟨.tooDeep, (tokens.head?.map Token.span).getD default⟩
  | fuel + 1, tokens =>
    let g := levels (substitutionUpTo fuel) (maxNesting + 1)
    match wholeExpression g (Tape.ofTokens tokens) with
    | .ok e _ => .ok e
    | .error e _ => .error e

/-- A bound on the depth of templates inside each other: the source of a substitution is
shorter than the template around it. -/
def templateDepth (tokens : List Token) : Nat :=
  (tokens.map fun t => if t.kind = .template then t.value.length + 1 else 0).foldl max 0

def grammar (tokens : List Token) : Inner :=
  levels (substitutionUpTo (templateDepth tokens)) (maxNesting + 1)

def parseExpression (tokens : List Token) : Except ParseError Expr :=
  substitutionUpTo (templateDepth tokens + 1) tokens

/-! ### Going on after a complaint -/

def resumingKinds : List Kind :=
  [.kwClass, .kwFunction, .kwLet, .kwConst, .kwVar, .kwFor, .kwIf, .kwWhile, .kwReturn,
    .kwImport, .kwExport]

/-- Whether parsing goes on here after a complaint: at the end, after a semicolon or closing
brace, or before a word that starts a statement. -/
def Cursor.resumes (c : Cursor) : Bool :=
  c.atEnd || [Kind.semicolon, .rBrace].contains c.previous.kind
    || resumingKinds.contains c.current.kind

def seekUpTo : Nat → Tape → Tape
  | 0, t => t
  | fuel + 1, t => if t.cursor.resumes then t else seekUpTo fuel t.advance

def synchronize (t : Tape) : Tape :=
  seekUpTo t.cursor.remaining t.advance

/-! ### Modules -/

/-- One step through a module: an item, or a complaint, and where to go on. -/
def itemStep (g : Inner) (t : Tape) : Except ParseError Item × Tape :=
  if t.current.kind = .error then
    (.error ⟨.malformedToken t.current.value, t.current.span⟩, t.advance)
  else
    match item g t with
    | .ok i t' => (.ok i, t')
    | .error e t' => (.error e, synchronize t')

def itemStepsUpTo (g : Inner) : Nat → Tape → List (Except ParseError Item)
  | 0, _ => []
  | fuel + 1, t =>
    if t.cursor.atEnd then []
    else
      let (step, t') := itemStep g t
      step :: itemStepsUpTo g fuel t'

def complaints (steps : List (Except ParseError Item)) : List ParseError :=
  steps.filterMap fun
    | .error e => some e
    | .ok _ => none

def itemsOf (steps : List (Except ParseError Item)) : List Item :=
  steps.filterMap fun
    | .ok i => some i
    | .error _ => none

/-- The module that tokens stand for, or all complaints about them. Its place reaches from the
first token to the end of the last item. -/
def parseProgram (tokens : List Token) : Except (List ParseError) Program :=
  let t := Tape.ofTokens tokens
  let steps := itemStepsUpTo (grammar tokens) t.cursor.remaining t
  match complaints steps with
  | [] =>
    let items := itemsOf steps
    let first := t.current.span
    let last := (items.getLast?.map Item.span).getD first
    .ok ⟨items, first.merge last⟩
  | errors => .error errors

def parseModule (source : String) (file : Nat) : Except (List ParseError) Program :=
  parseProgram (Token.tokenize source file 0)

end TypeStrip.Grammar
