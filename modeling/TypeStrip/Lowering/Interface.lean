import TypeStrip.Code.Tree
import TypeStrip.Text.Word
import TypeStrip.Lowering.Options
import TypeStrip.Lowering.Reference
import TypeStrip.Lowering.Temporary

/-!
What imports and exports are lowered to. Where modules are required, an import copies the exports
of a module into variables, and an export copies a variable into the object of exports.
-/
namespace TypeStrip.Lowering
open TypeStrip.Code (Binding)

structure Context where
  options : CompilerOptions
  valueNames : List String
  typeOnlyNames : List String

/-- Where exports go: into the exports of the module or of a namespace, or they stay exports. -/
inductive Destination where
  | exports
  | kept
  | namespace_ (name : String)
deriving DecidableEq, Repr

def Destination.object? : Destination → Option String
  | .exports => some "exports"
  | .kept => none
  | .namespace_ name => some name

def Context.destination (ctx : Context) : Destination :=
  if ctx.options.format.usesRequire then .exports else .kept

/-! ### Code -/

def variable_ (name : String) (value : Code.Expr) : Code.Stmt :=
  .vars .var [.mk (.ident name) (some value)]

def emptyVariable (name : String) : Code.Stmt := .vars .var [.mk (.ident name) none]

/-- A property of a named object, in brackets where its name is no word. -/
def property (object name : String) : Code.Expr :=
  if Text.isWord name then .member (.ident object) name
  else .index (.ident object) (.literal (.string name))

def assignment (target value : Code.Expr) : Code.Stmt := .expr (.assign target .assign value)

def exported (object name : String) (value : Code.Expr) : Code.Stmt :=
  assignment (property object name) value

/-! ### Imports -/

def binding : ImportSpecifier → Binding
  | .default name => .default name.text
  | .whole name => .whole name.text
  | .named imported renamed _ => .named imported.text (renamed.getD imported).text

/-- The parts of an import that are needed when the code runs. -/
def keptBindings (ctx : Context) (d : Import) : List Binding :=
  (d.specifiers.filter fun s => !s.isTypeOnly && ctx.valueNames.contains s.localName.text).map
    binding

def bindFrom (holder : String) : Binding → List Code.Stmt
  | .default name => [variable_ name (.member (.ident holder) "default")]
  | .named imported name => [variable_ name (property holder imported)]
  | .whole _ => []

def wholeName? (bindings : List Binding) : Option String :=
  bindings.findSome? fun
    | .whole name => some name
    | _ => none

/-- The variables of an import. A module is required once for all of them. -/
def requiredBindings (source : String) : List Binding → Lower (List Code.Stmt)
  | [] => pure [.expr (.require source)]
  | [.default name] => pure [variable_ name (.member (.require source) "default")]
  | [.whole name] => pure [variable_ name (.require source)]
  | bindings => do
    let holder ← match wholeName? bindings with
      | some name => pure name
      | none => fresh (temporaryBase source)
    return variable_ holder (.require source) :: bindings.flatMap (bindFrom holder)

/-- An import. One that binds something, but nothing that is needed, is dropped. -/
def lowerImport (ctx : Context) (dest : Destination) (d : Import) : Lower (List Code.Stmt) :=
  let kept := keptBindings ctx d
  if d.typeOnly || (!d.specifiers.isEmpty && kept.isEmpty) then pure []
  else if dest = .kept then pure [.import_ kept d.source]
  else requiredBindings d.source kept

/-! ### Exports -/

def defaultName : String := "default_1"

def namedFunction : Code.Func → Code.Func
  | .mk name ps body isAsync isGenerator =>
    .mk (some (name.getD defaultName)) ps body isAsync isGenerator

def namedClass : Code.Class → Code.Class
  | .mk name base members => .mk (some (name.getD defaultName)) base members

/-- The name of a class, or else that of the default export. -/
def className : Code.Class → String
  | .mk name _ _ => name.getD defaultName

def defaultValue (dest : Destination) (value : Code.Expr) : Code.Stmt :=
  match dest.object? with
  | some object => exported object "default" value
  | none => .exportValue value

/-- The default export of a declaration, given what the declaration is lowered to. Functions were
assigned before all other code. -/
def defaultDeclaration (dest : Destination) : List Code.Stmt → List Code.Stmt
  | [.function f] =>
    match dest.object? with
    | some _ => [.function (namedFunction f)]
    | none => [.exportDefault (.function f)]
  | [.cls c] =>
    match dest.object? with
    | some object => [.cls (namedClass c), exported object "default" (.ident (className c))]
    | none => [.exportDefault (.cls c)]
  | stmts => stmts

def isFunction : Decl → Bool
  | .function _ => true
  | _ => false

def exportedDeclaration (dest : Destination) (d : Decl) (stmts : List Code.Stmt) :
    List Code.Stmt :=
  if d.isTypeOnly then []
  else match dest.object? with
    | none => [.export_ stmts]
    | some object =>
      if isFunction d && dest = .exports then stmts
      else stmts ++ d.boundNames.map fun name => exported object name (.ident name)

/-- The parts of an export list that are needed when the code runs: local names with the names
they are exported under. -/
def keptExports (ctx : Context) (specifiers : List ExportSpecifier) (source : Option String) :
    List (String × String) :=
  (specifiers.filter fun s =>
    !s.typeOnly && (source.isSome || !ctx.typeOnlyNames.contains s.inner.text)).map
      fun s => (s.inner.text, s.exportedName.text)

def lowerExportNames (ctx : Context) (dest : Destination) (specifiers : List ExportSpecifier)
    (source : Option String) : Lower (List Code.Stmt) :=
  let kept := keptExports ctx specifiers source
  if kept.isEmpty && !specifiers.isEmpty then pure []
  else match dest.object?, source with
    | none, source => pure [.exportNames kept source]
    | some object, none =>
      pure (kept.map fun (name, exportedName) => exported object exportedName (.ident name))
    | some object, some source =>
      if kept.isEmpty then pure []
      else do
        let holder ← fresh (temporaryBase source)
        return variable_ holder (.require source) ::
          kept.map fun (name, exportedName) => exported object exportedName (property holder name)

def lowerExportAll (dest : Destination) (source : String) (name : Option String) :
    Lower (List Code.Stmt) :=
  match dest.object?, name with
  | none, name => pure [.exportAll source name]
  | some object, some name => pure [exported object name (.require source)]
  | some object, none => do
    let holder ← fresh (temporaryBase source)
    return [variable_ holder (.require source), .copyExports holder object]

/-- The exports of functions, which are assigned before all other code, since functions can be
called before they are declared. -/
def hoistedExports : Item → List Code.Stmt
  | .exportDecl _ _ (.function f) =>
    if (Decl.function f).isTypeOnly then []
    else f.name?.toList.map fun n => exported "exports" n.text (.ident n.text)
  | .exportDefaultDecl _ _ (.function f) =>
    if (Decl.function f).isTypeOnly then []
    else [exported "exports" "default" (.ident ((f.name?.map Name.text).getD defaultName))]
  | _ => []

end TypeStrip.Lowering
