import TypeStrip.Grammar.Item

/-! Statements. -/
namespace TypeStrip.Grammar
open TypeStrip.Token (Kind)

def ifStatement (g : Inner) (start : Span) : Parser Stmt := do
  discard <| expect .kwIf
  let test ← parenthesized g
  let yes ← g.stmt
  if ← accept .kwElse then
    let no ← g.stmt
    return .ifElse (← since start) test yes no
  return .ifThen (← since start) test yes

/-! ### Loops -/

/-- The part of a loop in front of `in`, `of` or the first semicolon, and whether there is but one
variable or target. -/
def forHead (g : Inner) : Parser (ForHead × Bool) := do
  let c ← get
  if c.at_ .semicolon then return (.none, false)
  if (varKind? c.current.kind).isSome then
    let (kind, ds) ← declarators g
    return (.vars kind ds, ds.length == 1)
  return (.expr (← expression g), true)

def forEach (g : Inner) (start : Span) (object : Parser Expr) (make : Span → Expr → Stmt → Stmt) :
    Parser Stmt := do
  skip
  let e ← object
  discard <| expect .rParen
  let body ← g.stmt
  return make (← since start) e body

def forSteps (g : Inner) (start : Span) (head : ForHead) : Parser Stmt := do
  discard <| expect .semicolon
  let test ← if (← get).at_ .semicolon then pure none else some <$> withIn true (expression g)
  discard <| expect .semicolon
  let update ← if (← get).at_ .rParen then pure none else some <$> withIn true (expression g)
  discard <| expect .rParen
  let body ← g.stmt
  return .for_ (← since start) head test update body

/-- A `for` statement. In its head the operator `in` is not allowed. -/
def forStatement (g : Inner) (start : Span) : Parser Stmt := do
  discard <| expect .kwFor
  let isAwait ← accept .kwAwait
  discard <| expect .lParen
  let (head, single) ← withIn false (forHead g)
  let c ← get
  if single && c.at_ .kwIn then
    forEach g start (withIn true (expression g)) (.forIn · head)
  else if single && c.atWord "of" then
    forEach g start (withIn true g.assign) (.forOf · head · · isAwait)
  else if isAwait then complain .awaitWithoutOf
  else forSteps g start head

def whileStatement (g : Inner) (start : Span) : Parser Stmt := do
  discard <| expect .kwWhile
  let test ← parenthesized g
  let body ← g.stmt
  return .while_ (← since start) test body

/-- A `do` statement. The semicolon after it may be left out anywhere. -/
def doStatement (g : Inner) (start : Span) : Parser Stmt := do
  discard <| expect .kwDo
  let body ← g.stmt
  discard <| expect .kwWhile
  let test ← parenthesized g
  discard <| accept .semicolon
  return .doWhile (← since start) body test

/-! ### Jumps -/

/-- A `return` statement. A line break ends it. -/
def returnStatement (g : Inner) (start : Span) : Parser Stmt := do
  discard <| expect .kwReturn
  let c ← get
  let ends := c.at_ .semicolon || c.at_ .rBrace || c.atEnd || c.current.newlineBefore
  let value ← if ends then pure none else some <$> expression g
  endStatement
  return .return_ (← since start) value

def jumpLabel : Parser (Option Name) := do
  let c ← get
  let label ←
    if c.at_ .identifier && !c.current.newlineBefore then some <$> identifier else pure none
  endStatement
  return label

def throwStatement (g : Inner) (start : Span) : Parser Stmt := do
  discard <| expect .kwThrow
  if (← get).current.newlineBefore then complain .lineBreakAfterThrow
  let e ← expression g
  endStatement
  return .throw (← since start) e

/-! ### Blocks with clauses -/

/-- What a `catch` clause binds. Its type is forgotten. -/
def catchParam (g : Inner) : Parser (Option Pattern) :=
  after .lParen do
    let p ← pattern g
    discard <| after .colon g.type
    discard <| expect .rParen
    return p

def tryStatement (g : Inner) (start : Span) : Parser Stmt := do
  discard <| expect .kwTry
  let (blockSpan, stmts) ← block g
  let caught ← after .kwCatch do
    let p ← catchParam g
    return (p, ← blockBody g)
  let finalizer ← after .kwFinally (blockBody g)
  if caught.isNone && finalizer.isNone then complain .tryAlone
  let (p, handler) := caught.getD (none, .absent)
  return .try_ (← since start) blockSpan stmts p handler (finalizer.getD .absent)

def clauseStmt (g : Inner) : Parser (Option Stmt) := do
  if (← get).seesAny 0 [.kwCase, .kwDefault, .rBrace, .eof] then return none
  return some (← g.stmt)

def caseBody (g : Inner) : Parser (List Stmt) := collect (clauseStmt g)

/-- A clause of a `switch` statement, after clauses of which one may be the default. -/
def switchCase (g : Inner) (hasDefault : Bool) : Parser Case := do
  let c ← get
  let test ←
    if c.at_ .kwCase then do
      skip
      some <$> withIn true (expression g)
    else if c.at_ .kwDefault then do
      if hasDefault then complain .secondDefault
      skip
      pure none
    else complain .expectedCase
  discard <| expect .colon
  return .mk test (← caseBody g)

def isDefault : Case → Bool
  | .mk test _ => test.isNone

def withCase (g : Inner) (found : List Case) : Parser (Option (List Case)) := do
  let c ← get
  if c.at_ .rBrace || c.atEnd then return none
  return some (found ++ [← switchCase g (found.any isDefault)])

def switchCases (g : Inner) : Parser (List Case) := extend (withCase g) []

def switchStatement (g : Inner) (start : Span) : Parser Stmt := do
  discard <| expect .kwSwitch
  let subject ← parenthesized g
  discard <| expect .lBrace
  let cases ← switchCases g
  discard <| expect .rBrace
  return .switch (← since start) subject cases

/-! ### All statements -/

/-- A statement that starts with none of the reserved words for statements: a declaration, a
labelled statement, or an expression. -/
def otherStatement (g : Inner) (start : Span) : Parser Stmt := do
  let c ← get
  if c.atDeclaration then
    let d ← declaration g (item g)
    return .decl (← since start) d
  if c.at_ .identifier && c.sees 1 .colon then
    let label ← identifier
    discard <| expect .colon
    let body ← g.stmt
    return .labeled (← since start) label body
  let e ← expression g
  endStatement
  return .expr (← since start) e

def stmtBody (g : Inner) : Parser Stmt := do
  let c ← get
  let start := c.current.span
  match c.current.kind with
  | .lBrace =>
    let (_, stmts) ← block g
    return .block (← since start) stmts
  | .semicolon =>
    skip
    return .empty (← since start)
  | .kwLet | .kwVar =>
    let d ← varDeclaration g false
    return .decl (← since start) d
  | .kwConst =>
    if c.sees 1 .kwEnum then otherStatement g start
    else
      let d ← varDeclaration g false
      return .decl (← since start) d
  | .kwIf => ifStatement g start
  | .kwFor => forStatement g start
  | .kwWhile => whileStatement g start
  | .kwDo => doStatement g start
  | .kwReturn => returnStatement g start
  | .kwBreak =>
    skip
    let label ← jumpLabel
    return .break_ (← since start) label
  | .kwContinue =>
    skip
    let label ← jumpLabel
    return .continue_ (← since start) label
  | .kwThrow => throwStatement g start
  | .kwTry => tryStatement g start
  | .kwSwitch => switchStatement g start
  | .kwDebugger =>
    skip
    endStatement
    return .debugger (← since start)
  | .kwWith => complain .withStatement
  | .kwImport =>
    if c.atImport then
      let d ← importDecl g
      return .import_ (← since start) d
    else otherStatement g start
  | .kwExport => complain .nestedExport
  | _ => otherStatement g start

end TypeStrip.Grammar
