import Mathlib.Logic.Function.Basic
import TypeStrip.Proofs.Exports.Bindings

/-!
How the code of namespaces runs: functions that are called once fill objects, which are kept in
variables and in properties of other objects.
-/
namespace TypeStrip.Namespaces
open Lowering Code

/-! ### States -/

/-- A value: none yet, an object that is known by its address, or the value of a literal. -/
inductive Value where
  | undefined
  | object (address : Nat)
  | literal (value : Literal)
deriving DecidableEq

abbrev Scope := String → Option Value

abbrev Properties := String → Value

def noProperties : Properties := fun _ => .undefined

/-- What code changes when it runs: the variables of the functions that are running, those of the
innermost first, and the properties of objects. The address of the next new object is known. -/
structure State where
  scopes : List Scope
  objects : Nat → Properties
  next : Nat

def hoisted (stmts : List Code.Stmt) : Scope := fun name =>
  if name ∈ declaredNames stmts then some .undefined else none

namespace State

/-- The value of a variable, which is that of the innermost function that has it. -/
def lookup (m : State) (name : String) : Option Value := m.scopes.findSome? fun scope => scope name

def enter (m : State) (param : String) (argument : Value) (body : List Code.Stmt) : State :=
  { m with scopes := Function.update (hoisted body) param (some argument) :: m.scopes }

def leave (m : State) : State := { m with scopes := m.scopes.tail }

/-- A declared variable of the innermost function gets its value. Only one that is declared with
`var` may have a value before. -/
def declare (m : State) (kind : VarKind) (name : String) (v : Value) : Option State :=
  match m.scopes with
  | scope :: outer =>
    if kind = .var ∨ scope name = some .undefined then
      some { m with scopes := Function.update scope name (some v) :: outer }
    else none
  | [] => none

def assignIn (name : String) (v : Value) : List Scope → Option (List Scope)
  | [] => none
  | scope :: outer =>
    if (scope name).isSome then some (Function.update scope name (some v) :: outer)
    else (assignIn name v outer).map (scope :: ·)

def assign (m : State) (name : String) (v : Value) : Option State :=
  (assignIn name v m.scopes).map fun scopes => { m with scopes }

def read (m : State) (name : String) : Value → Option Value
  | .object address => some (m.objects address name)
  | _ => none

def write (m : State) (name : String) (v : Value) : Value → Option State
  | .object address =>
    some { m with
      objects := Function.update m.objects address (Function.update (m.objects address) name v) }
  | _ => none

def create (m : State) : Value × State :=
  (.object m.next,
    { m with objects := Function.update m.objects m.next noProperties, next := m.next + 1 })

end State

/-! ### Code -/

/-- An expression is evaluated. The code of namespaces with constants has no other expressions, and
never asks whether a literal counts as true. -/
def evaluate (m : State) : Code.Expr → Option (Value × State)
  | .ident name => (m.lookup name).map (·, m)
  | .literal value => some (.literal value, m)
  | .object [] => some m.create
  | .member object name | .index object (.literal (.string name)) =>
    (evaluate m object).bind fun r => (r.2.read name r.1).map (·, r.2)
  | .binary left .or right => (evaluate m left).bind fun r =>
    match r.1 with
    | .undefined => evaluate r.2 right
    | .object _ => some r
    | .literal _ => none
  | .assign (.ident name) .assign value =>
    (evaluate m value).bind fun r => (r.2.assign name r.1).map (r.1, ·)
  | .assign (.member object name) .assign value
  | .assign (.index object (.literal (.string name))) .assign value =>
    (evaluate m object).bind fun o => (evaluate o.2 value).bind fun r =>
      (r.2.write name r.1 o.1).map (r.1, ·)
  | _ => none

def declareAll (m : State) (kind : VarKind) : List Code.Declarator → Option State
  | [] => some m
  | .mk (.ident _) none :: ds => declareAll m kind ds
  | .mk (.ident name) (some e) :: ds => (evaluate m e).bind fun r =>
    (r.2.declare kind name r.1).bind fun m => declareAll m kind ds
  | _ => none

mutual

def step (m : State) : Code.Stmt → Option State
  | .vars kind ds => declareAll m kind ds
  | .expr e => (evaluate m e).map Prod.snd
  | .scope param body argument => (evaluate m argument).bind fun r =>
    (run (r.2.enter param r.1 body) body).map State.leave
  | _ => none

def run (m : State) : List Code.Stmt → Option State
  | [] => some m
  | s :: stmts => (step m s).bind fun m => run m stmts

end

/-- A file is run: its variables have no values yet, and there are no objects. -/
def runFile (stmts : List Code.Stmt) : Option State :=
  run ⟨[hoisted stmts], fun _ => noProperties, 0⟩ stmts

variable {scope : Scope} {outer : List Scope} {objects : Nat → Properties} {next : Nat}
  {name : String} {v : Value}

namespace State

theorem lookup_of_scope (h : scope name = some v) :
    lookup ⟨scope :: outer, objects, next⟩ name = some v :=
  List.findSome?_cons_of_isSome (h ▸ rfl) |>.trans h

theorem assign_of_scope {v' : Value} (h : scope name = some v') (v : Value) :
    assign ⟨scope :: outer, objects, next⟩ name v =
      some ⟨Function.update scope name (some v) :: outer, objects, next⟩ := by
  rw [assign, assignIn, if_pos (h ▸ rfl)]
  rfl

end State

theorem run_append (m : State) (stmts stmts' : List Code.Stmt) :
    run m (stmts ++ stmts') = (run m stmts).bind fun m => run m stmts' := by
  induction stmts generalizing m with
  | nil => rfl
  | cons s stmts ih =>
    rw [List.cons_append, run, run, Option.bind_assoc]
    exact congrArg _ (funext fun m => ih m)

theorem evaluate_ident (h : scope name = some v) :
    evaluate ⟨scope :: outer, objects, next⟩ (.ident name) =
      some (v, ⟨scope :: outer, objects, next⟩) := by
  rw [evaluate, State.lookup_of_scope h]
  rfl

theorem evaluate_assign {m : State} {e : Code.Expr} {v' : Value}
    (he : evaluate m e = some (v, ⟨scope :: outer, objects, next⟩)) (h : scope name = some v') :
    evaluate m (.assign (.ident name) .assign e) =
      some (v, ⟨Function.update scope name (some v) :: outer, objects, next⟩) := by
  rw [evaluate, he, Option.bind_some]
  dsimp only
  rw [State.assign_of_scope h]
  rfl

/-! ### Objects and their properties -/

/-- A variable without an object gets a new one. -/
theorem evaluate_new_variable (h : scope name = some .undefined) :
    evaluate ⟨scope :: outer, objects, next⟩ (orEmptyObject (.ident name)) =
      some (.object next, ⟨Function.update scope name (some (.object next)) :: outer,
        Function.update objects next noProperties, next + 1⟩) := by
  have hcreate : evaluate ⟨scope :: outer, objects, next⟩ (.object []) = some (.object next,
      ⟨scope :: outer, Function.update objects next noProperties, next + 1⟩) := by
    rw [evaluate]
    rfl
  rw [orEmptyObject, evaluate, evaluate_ident h]
  exact evaluate_assign hcreate h

variable {address address' : Nat} {object : String}

theorem evaluate_old_variable (h : scope name = some (.object address)) :
    evaluate ⟨scope :: outer, objects, next⟩ (orEmptyObject (.ident name)) =
      some (.object address, ⟨scope :: outer, objects, next⟩) := by
  rw [orEmptyObject, evaluate, evaluate_ident h]
  rfl

/-- A property without an object gets a new one. -/
theorem evaluate_new_property (h : scope object = some (.object address)) (hne : address ≠ next)
    (hproperty : objects address name = .undefined) :
    evaluate ⟨scope :: outer, objects, next⟩ (orEmptyObject (.member (.ident object) name)) =
      some (.object next, ⟨scope :: outer,
        Function.update (Function.update objects next noProperties) address
          (Function.update (objects address) name (.object next)), next + 1⟩) := by
  have hread : evaluate ⟨scope :: outer, objects, next⟩ (.member (.ident object) name) =
      some (.undefined, ⟨scope :: outer, objects, next⟩) := by
    rw [evaluate, evaluate_ident h, ← hproperty]
    rfl
  rw [orEmptyObject, evaluate, hread, Option.bind_some]
  dsimp only
  rw [evaluate, evaluate_ident h, Option.bind_some, evaluate, Option.bind_some]
  dsimp only [State.create, State.write]
  rw [Function.update_of_ne hne]
  rfl

theorem evaluate_old_property (h : scope object = some (.object address))
    (hproperty : objects address name = .object address') :
    evaluate ⟨scope :: outer, objects, next⟩ (orEmptyObject (.member (.ident object) name)) =
      some (.object address', ⟨scope :: outer, objects, next⟩) := by
  have hread : evaluate ⟨scope :: outer, objects, next⟩ (.member (.ident object) name) =
      some (.object address', ⟨scope :: outer, objects, next⟩) := by
    rw [evaluate, evaluate_ident h, ← hproperty]
    rfl
  rw [orEmptyObject, evaluate, hread]
  rfl

/-- A variable is copied into a property, whether the name of the property is a word or not. -/
theorem step_exported {local_ : String} (h : scope object = some (.object address))
    (hlocal : scope local_ = some v) (name : String) :
    step ⟨scope :: outer, objects, next⟩ (exported object name (.ident local_)) =
      some ⟨scope :: outer,
        Function.update objects address (Function.update (objects address) name v), next⟩ := by
  rw [exported, assignment, property, step]
  split <;>
  · rw [evaluate, evaluate_ident h, Option.bind_some, evaluate_ident hlocal]
    rfl

/-- A function that is called with an object, and ends without a change to the variables around
it. -/
theorem step_scope {m : State} {param : String} {body : List Code.Stmt} {argument : Code.Expr}
    {inner : Scope} {objects' : Nat → Properties} {next' : Nat}
    (hargument : evaluate m argument = some (v, ⟨outer, objects, next⟩))
    (hbody : run ⟨Function.update (hoisted body) param (some v) :: outer, objects, next⟩ body =
      some ⟨inner :: outer, objects', next'⟩) :
    step m (.scope param body argument) = some ⟨outer, objects', next'⟩ := by
  rw [step, hargument, Option.bind_some, State.enter, hbody]
  rfl

end TypeStrip.Namespaces
