import TypeStrip.Lowering.Interface
import TypeStrip.Lowering.Constant
import TypeStrip.Code.Layout

/-!
What single constructs are lowered to, once their parts are: template literals, conditionals,
constructors, enums and namespaces.
-/
namespace TypeStrip.Lowering

/-! ### Expressions -/

/-- A template literal as a chain of additions: the texts after the first, and the values between
them. Empty texts are left out. -/
def concatenation : Code.Expr → List String → List Code.Expr → Code.Expr
  | acc, _, [] => acc
  | acc, [], v :: vs => concatenation (.binary acc .add v) [] vs
  | acc, t :: ts, v :: vs =>
    let joined := Code.Expr.binary acc .add v
    concatenation (if t.isEmpty then joined else .binary joined .add (.literal (.string t))) ts vs

/-- A template literal. Its first text is kept even when it is empty, so that the result is a
string. -/
def lowerTemplate (ctx : Context) (texts : List String) (values : List Code.Expr) : Code.Expr :=
  if ctx.options.target.lacksArrows then
    concatenation (.literal (.string (texts.headD ""))) texts.tail values
  else .template texts values

/-- An arrow function. As a plain function it has to be bound where it uses `this`. -/
def lowerArrow (ctx : Context) (usesThis : Bool) (f : Code.Func) : Code.Expr :=
  if ctx.options.target.lacksArrows then
    if usesThis then .call (.member (.function f) "bind") [.this] else .function f
  else .arrow f

/-- Whether the digits of a number literal would swallow the dot of a member access. -/
def swallowsDot : Expr → Bool
  | .literal _ (.number x) => (Code.numberText x).toList.all Char.isDigit
  | _ => false

/-- The object of a member access, in parentheses where it is an integer. -/
def accessed (source : Expr) (lowered : Code.Expr) : Code.Expr :=
  if swallowsDot source then .paren lowered else lowered

def instantiated (source : Expr) (lowered : Code.Expr) : Code.Expr :=
  match source with
  | .call .. | .optionalCall .. => .paren lowered
  | _ => lowered

def isVariableOf : Key → Expr → Bool
  | .ident key, .ident _ name => key.text == name
  | _, _ => false

/-! ### Statements -/

/-- The keyword of variables, of which there is only one without block scopes. -/
def variableKind (ctx : Context) (kind : VarKind) : VarKind :=
  if ctx.options.target.lacksArrows then .var else kind

/-- The statements of a body, which is always written as a block. -/
def branch : List Code.Stmt → List Code.Stmt
  | [.block stmts] => stmts
  | stmts => stmts

/-- A conditional with an alternative. One conditional right after another is not nested. -/
def alternative (test : Code.Expr) (yes : List Code.Stmt) : List Code.Stmt → Code.Stmt
  | [.ifThen e s] => .elseIf test yes (.ifThen e s)
  | [.ifElse e s t] => .elseIf test yes (.ifElse e s t)
  | [.elseIf e s next] => .elseIf test yes (.elseIf e s next)
  | no => .ifElse test yes (branch no)

/-! ### Constructors -/

/-- The assignments that parameters stand for which are also properties. -/
def propertyAssignments (params : List Param) : List Code.Stmt :=
  (params.filter Param.isProperty).flatMap fun p => p.pattern.boundNames.map fun name =>
    assignment (.member .this name) (.ident name)

def isSuperCall : Stmt → Bool
  | .expr _ (.call _ (.super _) _ _) => true
  | _ => false

/-- How many statements of a constructor come before the assignments of its properties: those up
to the first call of `super`, if the class extends another. -/
def statementsBefore (derived : Bool) (stmts : List Stmt) : Nat :=
  if derived then ((stmts.findIdx? isSuperCall).map (· + 1)).getD 0 else 0

def constructorBody (derived : Bool) (params : List Param) (stmts : List Stmt)
    (lowered : List (List Code.Stmt)) : List Code.Stmt :=
  let before := statementsBefore derived stmts
  (lowered.take before).flatten ++ propertyAssignments params ++ (lowered.drop before).flatten

/-! ### Enums and namespaces -/

def orEmptyObject (target : Code.Expr) : Code.Expr :=
  .binary target .or (.assign target .assign (.object []))

inductive MemberValue where
  | known (value : Constant)
  | computed (value : Code.Expr)

def memberSlot (enum key : String) : Code.Expr :=
  .index (.ident enum) (.literal (.string key))

/-- The entry of a value that is a number, under its key, and of the key under the value. -/
def bothWays (enum key : String) (value : Code.Expr) : Code.Stmt :=
  assignment (.index (.ident enum) (.assign (memberSlot enum key) .assign value))
    (.literal (.string key))

/-- The statement that defines an enum member. Only a string has no entry from value to key. -/
def memberStatement (enum : String) : String × MemberValue → Code.Stmt
  | (key, .known (.string s)) => assignment (memberSlot enum key) (.literal (.string s))
  | (key, .known (.number x)) => bothWays enum key (.literal (.number x))
  | (key, .computed value) => bothWays enum key value

/-- What a member without a value gets when the value before it is not known: one more than it, or
zero for the first member. -/
def successor (enum : String) : Option String → Code.Expr
  | some previous => .binary (memberSlot enum previous) .add (.literal (.number 1))
  | none => .literal (.number 0)

/-- What is known when an enum member is lowered: the values of earlier members, the value of the
next one, and the key of the last. -/
structure MemberScope where
  known : List (String × Constant) := []
  next : Option Float := some 0
  previous : Option String := none

def MemberScope.after (scope : MemberScope) (key : String) : MemberValue → MemberScope
  | .known (.number x) => ⟨(key, .number x) :: scope.known, some (x + 1), some key⟩
  | .known (.string s) => ⟨(key, .string s) :: scope.known, none, some key⟩
  | .computed _ => ⟨scope.known, none, some key⟩

def MemberScope.constant? (scope : MemberScope) : Option Expr → Option Constant
  | some e => fold? scope.known e
  | none => scope.next.map .number

def lowerEnum (name : String) (members : List (String × MemberValue)) : List Code.Stmt :=
  [emptyVariable name,
    .scope name (members.map (memberStatement name)) (orEmptyObject (.ident name))]

def lowerNamespaceBody (parent : Option String) (name : String) (body : List Code.Stmt) :
    List Code.Stmt :=
  let object := match parent with
    | some parent =>
      .assign (.ident name) .assign (orEmptyObject (.member (.ident parent) name))
    | none => orEmptyObject (.ident name)
  [emptyVariable name, .scope name body object]

end TypeStrip.Lowering
