import TypeStrip.Lowering.Shape

/-!
The lowering of a module to code without types: types are erased, and what the target lacks is
expressed by what it has. Parts are lowered in the order in which their temporaries are numbered.
-/
namespace TypeStrip.Lowering

mutual

/-- The lowering of an expression. Assertions about its type leave nothing behind. -/
def lowerExpr (ctx : Context) : Expr → Lower Code.Expr
  | .literal _ value => return .literal value
  | .ident _ name => return .ident name
  | .this _ => return .this
  | .super _ => return .super
  | .binary _ a op b => do
    let left ← lowerExpr ctx a
    return .binary left op (← lowerExpr ctx b)
  | .unary _ op a => return .unary op (← lowerExpr ctx a)
  | .assign _ a op b => do
    let target ← lowerExpr ctx a
    return .assign target op (← lowerExpr ctx b)
  | .call _ f _ args => do
    let callee ← lowerExpr ctx f
    return .call callee (← lowerExprs ctx args)
  | .optionalCall _ f _ args => do
    let callee ← lowerExpr ctx f
    return .optionalCall callee (← lowerExprs ctx args)
  | .new _ f _ args => do
    let callee ← lowerExpr ctx f
    return .new (instantiated f callee) (← lowerExprs ctx args)
  | .member _ a name => return .member (accessed a (← lowerExpr ctx a)) name.text
  | .optionalMember _ a name => return .optionalMember (accessed a (← lowerExpr ctx a)) name.text
  | .index _ a i => do
    let object ← lowerExpr ctx a
    return .index (accessed a object) (← lowerExpr ctx i)
  | .optionalIndex _ a i => do
    let object ← lowerExpr ctx a
    return .optionalIndex (accessed a object) (← lowerExpr ctx i)
  | .array _ es => return .array (← lowerExprs ctx es)
  | .object _ ps => return .object (← lowerProperties ctx ps)
  | .arrow _ f => return lowerArrow ctx f.usesThis (← lowerFunc ctx f)
  | .function _ f => return .function (← lowerFunc ctx f)
  | .cls _ c => return .cls (← lowerClass ctx c)
  | .conditional _ a b c => do
    let test ← lowerExpr ctx a
    let yes ← lowerExpr ctx b
    return .conditional test yes (← lowerExpr ctx c)
  | .template _ texts es => return lowerTemplate ctx texts (← lowerExprs ctx es)
  | .cast _ a _ | .satisfies _ a _ | .nonNull _ a => lowerExpr ctx a
  | .await _ a => return .await (← lowerExpr ctx a)
  | .yield _ a delegate => return .yield (← lowerExpr? ctx a) delegate
  | .paren _ a => return .paren (← lowerExpr ctx a)
  | .sequence _ es => return .sequence (← lowerExprs ctx es)
  | .spread _ a => return .spread (← lowerExpr ctx a)
  | .omitted => return .omitted

def lowerExprs (ctx : Context) : List Expr → Lower (List Code.Expr)
  | [] => return []
  | e :: es => do
    let first ← lowerExpr ctx e
    return first :: (← lowerExprs ctx es)

def lowerExpr? (ctx : Context) : Option Expr → Lower (Option Code.Expr)
  | some e => return some (← lowerExpr ctx e)
  | none => return none

def lowerKey (ctx : Context) : Key → Lower Code.Key
  | .ident name => return .word name.text
  | .string s => return .string s
  | .number x => return .number x
  | .computed e => return .computed (← lowerExpr ctx e)

/-- The lowering of a property of an object literal. A shorthand stands for a variable, and for an
assignment where the literal is assigned to. -/
def lowerProperty (ctx : Context) : Property → Lower Code.Property
  | .pair k (.assign _ _ _ fallback) true => do
    let key ← lowerKey ctx k
    return .withDefault key (← lowerExpr ctx fallback)
  | .pair k v shorthand => do
    let key ← lowerKey ctx k
    if shorthand && isVariableOf k v then return .shorthand key
    else return .pair key (← lowerExpr ctx v)
  | .method k kind f => do
    let key ← lowerKey ctx k
    return .method key kind (← lowerFunc ctx f)
  | .spread e => return .spread (← lowerExpr ctx e)

def lowerProperties (ctx : Context) : List Property → Lower (List Code.Property)
  | [] => return []
  | p :: ps => do
    let first ← lowerProperty ctx p
    return first :: (← lowerProperties ctx ps)

def lowerPattern (ctx : Context) : Pattern → Lower Code.Pattern
  | .ident _ name => return .ident name.text
  | .array _ ps rest => do
    let elements ← lowerPatterns ctx ps
    return .array elements (← lowerPattern? ctx rest)
  | .object _ fs rest => do
    let fields ← lowerFields ctx fs
    return .object fields (← lowerPattern? ctx rest)
  | .withDefault _ p e => do
    let pattern ← lowerPattern ctx p
    return .withDefault pattern (← lowerExpr ctx e)
  | .omitted => return .omitted

def lowerPatterns (ctx : Context) : List Pattern → Lower (List Code.Pattern)
  | [] => return []
  | p :: ps => do
    let first ← lowerPattern ctx p
    return first :: (← lowerPatterns ctx ps)

def lowerPattern? (ctx : Context) : Option Pattern → Lower (Option Code.Pattern)
  | some p => return some (← lowerPattern ctx p)
  | none => return none

/-- The lowering of a property of an object pattern, the pattern before the key. -/
def lowerField (ctx : Context) : PatternField → Lower Code.PatternField
  | .mk k p shorthand => do
    let pattern ← lowerPattern ctx p
    if shorthand then return .shorthand pattern
    else return .pair (← lowerKey ctx k) pattern

def lowerFields (ctx : Context) : List PatternField → Lower (List Code.PatternField)
  | [] => return []
  | f :: fs => do
    let first ← lowerField ctx f
    return first :: (← lowerFields ctx fs)

/-- The lowering of parameters. One that only states the type of `this` is dropped. -/
def lowerParams (ctx : Context) : List Param → Lower (List Code.Param)
  | [] => return []
  | .mk p type isOptional isRest access isReadonly :: ps => do
    if (Param.mk p type isOptional isRest access isReadonly).isThis then lowerParams ctx ps
    else
      let pattern ← lowerPattern ctx p
      return .mk pattern isRest :: (← lowerParams ctx ps)

def lowerFunc (ctx : Context) : Func → Lower Code.Func
  | .mk name _ ps _ body isAsync isGenerator _ => do
    let params ← lowerParams ctx ps
    return .mk (name.map Name.text) params (← lowerBody ctx body) isAsync isGenerator

def lowerBody (ctx : Context) : Body → Lower Code.Body
  | .absent => return .block []
  | .block _ stmts => return .block (← lowerStmts ctx stmts).flatten
  | .value e => return .value (← lowerExpr ctx e)

def lowerClass (ctx : Context) : Class → Lower Code.Class
  | .mk name _ base _ _ ms _ _ => do
    let extended ← lowerExpr? ctx base
    return .mk (name.map Name.text) extended (← lowerMembers ctx base.isSome ms).flatten

/-- The lowering of a class member. Members without a body or a value leave nothing behind. -/
def lowerMember (ctx : Context) (derived : Bool) : Member → Lower (List Code.Member)
  | .constructor _ (.mk _ _ ps _ (.block _ stmts) _ _ _) => do
    let params ← lowerParams ctx ps
    let lowered ← lowerStmts ctx stmts
    return [.constructor params (constructorBody derived ps stmts lowered)]
  | .method _ k kind f modifiers => do
    if f.body.isPresent then
      let key ← lowerKey ctx k
      return [.method modifiers.isStatic key kind (← lowerFunc ctx f)]
    else return []
  | .field _ k _ (some e) modifiers => do
    if modifiers.isAbstract || modifiers.isDeclare then return []
    else
      let key ← lowerKey ctx k
      return [.field modifiers.isStatic key (← lowerExpr ctx e)]
  | _ => return []

def lowerMembers (ctx : Context) (derived : Bool) : List Member → Lower (List (List Code.Member))
  | [] => return []
  | m :: ms => do
    let first ← lowerMember ctx derived m
    return first :: (← lowerMembers ctx derived ms)

/-- The keys and values of enum members. Values that can be told beforehand are computed. -/
def lowerEnumMembers (ctx : Context) (enum : String) (scope : MemberScope) :
    List Member → Lower (List (String × MemberValue))
  | .field _ k _ init _ :: ms => do
    let key := k.staticName?.getD ""
    let value ← match scope.constant? init with
      | some value => pure (MemberValue.known value)
      | none => do
        let value ← lowerExpr? ctx init
        pure (.computed (value.getD (successor enum scope.previous)))
    return (key, value) :: (← lowerEnumMembers ctx enum (scope.after key value) ms)
  | _ => return []

def lowerDeclarators (ctx : Context) : List Declarator → Lower (List Code.Declarator)
  | [] => return []
  | .mk p _ init :: ds => do
    let pattern ← lowerPattern ctx p
    let value ← lowerExpr? ctx init
    return .mk pattern value :: (← lowerDeclarators ctx ds)

/-- The lowering of a declaration. One of which nothing is left at run time is dropped. -/
def lowerDecl (ctx : Context) : Decl → Lower (List Code.Stmt)
  | .function f => do
    if (Decl.function f).isTypeOnly then return []
    else return [.function (← lowerFunc ctx f)]
  | .cls c => do
    if (Decl.cls c).isTypeOnly then return []
    else return [.cls (← lowerClass ctx c)]
  | .vars kind ds isDeclare => do
    if isDeclare then return []
    else return [.vars (variableKind ctx kind) (← lowerDeclarators ctx ds)]
  | .enumeration name ms _ isDeclare => do
    if isDeclare then return []
    else return lowerEnum name.text (← lowerEnumMembers ctx name.text {} ms)
  | .namespace_ n => lowerNamespace ctx none n
  | .interface .. | .alias_ .. => return []

/-- The lowering of a namespace, which is a property of its parent if its name is dotted. -/
def lowerNamespace (ctx : Context) (parent : Option String) : Namespace → Lower (List Code.Stmt)
  | .block (.ident name) items isDeclare => do
    if isDeclare || !anyRuntimeContent items then return []
    else
      let body ← lowerItems ctx (.namespace_ name.text) items
      return lowerNamespaceBody parent name.text body.flatten
  | .dotted (.ident name) _ inner isDeclare => do
    if isDeclare || !inner.hasRuntimeContent then return []
    else return lowerNamespaceBody parent name.text (← lowerNamespace ctx (some name.text) inner)
  | _ => return []

def lowerForHead (ctx : Context) : ForHead → Lower Code.ForHead
  | .none => return .none
  | .vars kind ds => return .vars (variableKind ctx kind) (← lowerDeclarators ctx ds)
  | .expr e => return .expr (← lowerExpr ctx e)

def lowerStmt (ctx : Context) : Stmt → Lower (List Code.Stmt)
  | .expr _ e => return [.expr (← lowerExpr ctx e)]
  | .decl _ d => lowerDecl ctx d
  | .return_ _ e => return [.return_ (← lowerExpr? ctx e)]
  | .ifThen _ e s => do
    let test ← lowerExpr ctx e
    return [.ifThen test (branch (← lowerStmt ctx s))]
  | .ifElse _ e s t => do
    let test ← lowerExpr ctx e
    let yes ← lowerStmt ctx s
    return [alternative test (branch yes) (← lowerStmt ctx t)]
  | .for_ _ head test update s => do
    let head ← lowerForHead ctx head
    let test ← lowerExpr? ctx test
    let update ← lowerExpr? ctx update
    return [.for_ head test update (branch (← lowerStmt ctx s))]
  | .forIn _ head e s => do
    let head ← lowerForHead ctx head
    let object ← lowerExpr ctx e
    return [.forIn head object (branch (← lowerStmt ctx s))]
  | .forOf _ head e s isAwait => do
    let head ← lowerForHead ctx head
    let object ← lowerExpr ctx e
    return [.forOf head object (branch (← lowerStmt ctx s)) isAwait]
  | .while_ _ e s => do
    let test ← lowerExpr ctx e
    return [.while_ test (branch (← lowerStmt ctx s))]
  | .doWhile _ s e => do
    let body ← lowerStmt ctx s
    return [.doWhile (branch body) (← lowerExpr ctx e)]
  | .block _ stmts => return [.block (← lowerStmts ctx stmts).flatten]
  | .break_ _ label => return [.break_ (label.map Name.text)]
  | .continue_ _ label => return [.continue_ (label.map Name.text)]
  | .throw _ e => return [.throw (← lowerExpr ctx e)]
  | .try_ _ _ stmts param handler finalizer => do
    let block ← lowerStmts ctx stmts
    let caught ← lowerBlock? ctx handler
    let param ← lowerPattern? ctx param
    let final ← lowerBlock? ctx finalizer
    return [.try_ block.flatten (caught.map (.mk param)) final]
  | .switch _ e cases => do
    let subject ← lowerExpr ctx e
    return [.switch subject (← lowerCases ctx cases)]
  | .labeled _ label s => return [.labeled label.text (← lowerStmt ctx s)]
  | .empty _ => return [.empty]
  | .debugger _ => return [.debugger]
  | .import_ _ d => lowerImport ctx ctx.destination d

def lowerBlock? (ctx : Context) : Body → Lower (Option (List Code.Stmt))
  | .block _ stmts => return some (← lowerStmts ctx stmts).flatten
  | _ => return none

def lowerCases (ctx : Context) : List Case → Lower (List Code.Case)
  | [] => return []
  | .mk test stmts :: cases => do
    let test ← lowerExpr? ctx test
    let body ← lowerStmts ctx stmts
    return .mk test body.flatten :: (← lowerCases ctx cases)

def lowerStmts (ctx : Context) : List Stmt → Lower (List (List Code.Stmt))
  | [] => return []
  | s :: stmts => do
    let first ← lowerStmt ctx s
    return first :: (← lowerStmts ctx stmts)

def lowerItem (ctx : Context) (dest : Destination) : Item → Lower (List Code.Stmt)
  | .stmt _ s => lowerStmt ctx s
  | .import_ _ d => lowerImport ctx dest d
  | .exportDecl _ _ d => return exportedDeclaration dest d (← lowerDecl ctx d)
  | .exportDefault _ e => return [defaultValue dest (← lowerExpr ctx e)]
  | .exportDefaultDecl _ _ d => return defaultDeclaration dest (← lowerDecl ctx d)
  | .exportNamed _ specifiers source typeOnly =>
    if typeOnly then return [] else lowerExportNames ctx dest specifiers source
  | .exportAll _ source name typeOnly =>
    if typeOnly then return [] else lowerExportAll dest source (name.map Name.text)

def lowerItems (ctx : Context) (dest : Destination) : List Item → Lower (List (List Code.Stmt))
  | [] => return []
  | i :: items => do
    let first ← lowerItem ctx dest i
    return first :: (← lowerItems ctx dest items)

end

def contextOf (options : CompilerOptions) (p : Program) : Context :=
  ⟨options, p.valueNames, p.typeOnlyNames⟩

def moduleMark : Code.Stmt :=
  .expr (.call (.member (.ident "Object") "defineProperty")
    [.ident "exports", .literal (.string "__esModule"),
      .object [.pair (.word "value") (.literal (.boolean true))]])

/-- What comes before the items of a module. A file without imports and exports has nothing. -/
def prologue (ctx : Context) (p : Program) : List Code.Stmt :=
  if p.isModule then
    .expr (.literal (.string "use strict")) ::
      if ctx.options.format.usesRequire then moduleMark :: p.items.flatMap hoistedExports else []
  else []

def lowerProgram (options : CompilerOptions) (p : Program) : List Code.Stmt :=
  let ctx := contextOf options p
  prologue ctx p ++ ((lowerItems ctx ctx.destination p.items).run []).1.flatten

end TypeStrip.Lowering
