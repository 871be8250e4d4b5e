import TypeStrip.Syntax.Tree

/-! Syntax with parts left out that are about types only. -/
namespace TypeStrip

/-- What a reduction leaves out: whatever is written about types, and the type-only wrappers
around expressions. A type that cannot be left out is replaced. -/
structure Reduction where
  annotations : Bool := false
  wrappers : Bool := false
  type : TypeExpr → TypeExpr := id

namespace Reduction
variable (r : Reduction)

def annotation (t : Option TypeExpr) : Option TypeExpr :=
  if r.annotations then none else t.map r.type

def types (ts : List TypeExpr) : List TypeExpr := if r.annotations then [] else ts.map r.type

def typeParams (ps : List TypeParam) : List TypeParam := if r.annotations then [] else ps

def asserted (t : TypeExpr) : TypeExpr :=
  if r.annotations then .keyword default .any else r.type t

def mark (b : Bool) : Bool := !r.annotations && b

/-- The modifiers of a class member. Those stay that say what the member is. -/
def modifiers (m : Modifiers) : Modifiers :=
  if r.annotations then
    { m with access := none, isReadonly := false, isOptional := false, isOverride := false }
  else m

end Reduction

mutual

def Expr.reduce (r : Reduction) : Expr → Expr
  | .literal s v => .literal s v
  | .ident s n => .ident s n
  | .this s => .this s
  | .super s => .super s
  | .binary s a op b => .binary s (a.reduce r) op (b.reduce r)
  | .unary s op a => .unary s op (a.reduce r)
  | .assign s a op b => .assign s (a.reduce r) op (b.reduce r)
  | .call s f ts args => .call s (f.reduce r) (r.types ts) (reduceExprs r args)
  | .optionalCall s f ts args => .optionalCall s (f.reduce r) (r.types ts) (reduceExprs r args)
  | .new s f ts args => .new s (f.reduce r) (r.types ts) (reduceExprs r args)
  | .member s a n => .member s (a.reduce r) n
  | .optionalMember s a n => .optionalMember s (a.reduce r) n
  | .index s a i => .index s (a.reduce r) (i.reduce r)
  | .optionalIndex s a i => .optionalIndex s (a.reduce r) (i.reduce r)
  | .array s es => .array s (reduceExprs r es)
  | .object s ps => .object s (reduceProperties r ps)
  | .arrow s f => .arrow s (f.reduce r)
  | .function s f => .function s (f.reduce r)
  | .cls s c => .cls s (c.reduce r)
  | .conditional s a b c => .conditional s (a.reduce r) (b.reduce r) (c.reduce r)
  | .template s texts es => .template s texts (reduceExprs r es)
  | .cast s a t => if r.wrappers then a.reduce r else .cast s (a.reduce r) (r.asserted t)
  | .satisfies s a t => if r.wrappers then a.reduce r else .satisfies s (a.reduce r) (r.asserted t)
  | .nonNull s a => if r.wrappers then a.reduce r else .nonNull s (a.reduce r)
  | .await s a => .await s (a.reduce r)
  | .yield s a delegate => .yield s (reduceExpr? r a) delegate
  | .paren s a => .paren s (a.reduce r)
  | .sequence s es => .sequence s (reduceExprs r es)
  | .spread s a => .spread s (a.reduce r)
  | .omitted => .omitted

def reduceExprs (r : Reduction) : List Expr → List Expr
  | [] => []
  | e :: es => e.reduce r :: reduceExprs r es

def reduceExpr? (r : Reduction) : Option Expr → Option Expr
  | some e => some (e.reduce r)
  | none => none

def Key.reduce (r : Reduction) : Key → Key
  | .ident n => .ident n
  | .string s => .string s
  | .number x => .number x
  | .computed e => .computed (e.reduce r)

def Property.reduce (r : Reduction) : Property → Property
  | .pair k v shorthand => .pair (k.reduce r) (v.reduce r) shorthand
  | .method k kind f => .method (k.reduce r) kind (f.reduce r)
  | .spread e => .spread (e.reduce r)

def reduceProperties (r : Reduction) : List Property → List Property
  | [] => []
  | p :: ps => p.reduce r :: reduceProperties r ps

def Pattern.reduce (r : Reduction) : Pattern → Pattern
  | .ident s n => .ident s n
  | .array s ps rest => .array s (reducePatterns r ps) (reducePattern? r rest)
  | .object s fs rest => .object s (reduceFields r fs) (reducePattern? r rest)
  | .withDefault s p e => .withDefault s (p.reduce r) (e.reduce r)
  | .omitted => .omitted

def reducePatterns (r : Reduction) : List Pattern → List Pattern
  | [] => []
  | p :: ps => p.reduce r :: reducePatterns r ps

def reducePattern? (r : Reduction) : Option Pattern → Option Pattern
  | some p => some (p.reduce r)
  | none => none

def PatternField.reduce (r : Reduction) : PatternField → PatternField
  | .mk k p shorthand => .mk (k.reduce r) (p.reduce r) shorthand

def reduceFields (r : Reduction) : List PatternField → List PatternField
  | [] => []
  | f :: fs => f.reduce r :: reduceFields r fs

/-- A parameter with parts left out. Whether it is also a property is not about types only. -/
def Param.reduce (r : Reduction) : Param → Param
  | .mk p type isOptional isRest access isReadonly =>
    .mk (p.reduce r) (r.annotation type) (r.mark isOptional) isRest access isReadonly

def reduceParams (r : Reduction) : List Param → List Param
  | [] => []
  | p :: ps => p.reduce r :: reduceParams r ps

def Func.reduce (r : Reduction) : Func → Func
  | .mk name typeParams ps returns body isAsync isGenerator isDeclare =>
    .mk name (r.typeParams typeParams) (reduceParams r ps) (r.annotation returns) (body.reduce r)
      isAsync isGenerator isDeclare

def Body.reduce (r : Reduction) : Body → Body
  | .absent => .absent
  | .block s stmts => .block s (reduceStmts r stmts)
  | .value e => .value (e.reduce r)

def Class.reduce (r : Reduction) : Class → Class
  | .mk name typeParams base baseArgs interfaces ms isAbstract isDeclare =>
    .mk name (r.typeParams typeParams) (reduceExpr? r base) (r.types baseArgs)
      (r.types interfaces) (reduceMembers r ms) isAbstract isDeclare

def Member.reduce (r : Reduction) : Member → Member
  | .constructor s f => .constructor s (f.reduce r)
  | .method s k kind f m => .method s (k.reduce r) kind (f.reduce r) (r.modifiers m)
  | .field s k type init m =>
    .field s (k.reduce r) (r.annotation type) (reduceExpr? r init) (r.modifiers m)
  | .index s name keyType valueType isReadonly =>
    .index s name (r.type keyType) (r.type valueType) isReadonly
  | .call s f => .call s (f.reduce r)

def reduceMembers (r : Reduction) : List Member → List Member
  | [] => []
  | m :: ms => m.reduce r :: reduceMembers r ms

/-- A declaration with parts left out. One of a type stays a declaration of a type. -/
def Decl.reduce (r : Reduction) : Decl → Decl
  | .function f => .function (f.reduce r)
  | .cls c => .cls (c.reduce r)
  | .interface name typeParams bases ms =>
    .interface name (r.typeParams typeParams) (bases.map r.type) (reduceMembers r ms)
  | .alias_ name typeParams type => .alias_ name (r.typeParams typeParams) (r.type type)
  | .enumeration name ms isConst isDeclare =>
    .enumeration name (reduceMembers r ms) isConst isDeclare
  | .namespace_ n => .namespace_ (n.reduce r)
  | .vars kind ds isDeclare => .vars kind (reduceDeclarators r ds) isDeclare

def Namespace.reduce (r : Reduction) : Namespace → Namespace
  | .block name items isDeclare => .block name (reduceItems r items) isDeclare
  | .dotted name s inner isDeclare => .dotted name s (inner.reduce r) isDeclare
  | .ambient name isDeclare => .ambient name isDeclare

def Declarator.reduce (r : Reduction) : Declarator → Declarator
  | .mk p type init => .mk (p.reduce r) (r.annotation type) (reduceExpr? r init)

def reduceDeclarators (r : Reduction) : List Declarator → List Declarator
  | [] => []
  | d :: ds => d.reduce r :: reduceDeclarators r ds

def Stmt.reduce (r : Reduction) : Stmt → Stmt
  | .expr s e => .expr s (e.reduce r)
  | .decl s d => .decl s (d.reduce r)
  | .return_ s e => .return_ s (reduceExpr? r e)
  | .ifThen s e yes => .ifThen s (e.reduce r) (yes.reduce r)
  | .ifElse s e yes no => .ifElse s (e.reduce r) (yes.reduce r) (no.reduce r)
  | .for_ s head test update body =>
    .for_ s (head.reduce r) (reduceExpr? r test) (reduceExpr? r update) (body.reduce r)
  | .forIn s head e body => .forIn s (head.reduce r) (e.reduce r) (body.reduce r)
  | .forOf s head e body isAwait => .forOf s (head.reduce r) (e.reduce r) (body.reduce r) isAwait
  | .while_ s e body => .while_ s (e.reduce r) (body.reduce r)
  | .doWhile s body e => .doWhile s (body.reduce r) (e.reduce r)
  | .block s stmts => .block s (reduceStmts r stmts)
  | .break_ s label => .break_ s label
  | .continue_ s label => .continue_ s label
  | .throw s e => .throw s (e.reduce r)
  | .try_ s blockSpan stmts param handler finalizer =>
    .try_ s blockSpan (reduceStmts r stmts) (reducePattern? r param) (handler.reduce r)
      (finalizer.reduce r)
  | .switch s e cases => .switch s (e.reduce r) (reduceCases r cases)
  | .labeled s label body => .labeled s label (body.reduce r)
  | .empty s => .empty s
  | .debugger s => .debugger s
  | .import_ s d => .import_ s d

def reduceStmts (r : Reduction) : List Stmt → List Stmt
  | [] => []
  | s :: stmts => s.reduce r :: reduceStmts r stmts

def ForHead.reduce (r : Reduction) : ForHead → ForHead
  | .none => .none
  | .vars kind ds => .vars kind (reduceDeclarators r ds)
  | .expr e => .expr (e.reduce r)

def Case.reduce (r : Reduction) : Case → Case
  | .mk test stmts => .mk (reduceExpr? r test) (reduceStmts r stmts)

def reduceCases (r : Reduction) : List Case → List Case
  | [] => []
  | c :: cases => c.reduce r :: reduceCases r cases

def Item.reduce (r : Reduction) : Item → Item
  | .import_ s d => .import_ s d
  | .exportNamed s specifiers source typeOnly => .exportNamed s specifiers source typeOnly
  | .exportDefault s e => .exportDefault s (e.reduce r)
  | .exportDefaultDecl s declSpan d => .exportDefaultDecl s declSpan (d.reduce r)
  | .exportAll s source name typeOnly => .exportAll s source name typeOnly
  | .exportDecl s declSpan d => .exportDecl s declSpan (d.reduce r)
  | .stmt s t => .stmt s (t.reduce r)

def reduceItems (r : Reduction) : List Item → List Item
  | [] => []
  | i :: items => i.reduce r :: reduceItems r items

end

def Program.reduce (r : Reduction) (p : Program) : Program :=
  { p with items := reduceItems r p.items }

/-! ### Lists -/

/-- A walk through a list that treats every member alike. -/
private theorem eq_map_of_cons {α β : Type} {f : α → β} {g : List α → List β} (hn : g [] = [])
    (hc : ∀ a as, g (a :: as) = f a :: g as) (as : List α) : g as = as.map f := by
  induction as with
  | nil => exact hn
  | cons a as ih => rw [hc, ih, List.map_cons]

variable (r : Reduction)

@[simp] theorem reduceExprs_eq_map (es : List Expr) : reduceExprs r es = es.map (Expr.reduce r) :=
  eq_map_of_cons (by rw [reduceExprs]) (fun _ _ => by rw [reduceExprs]) es

@[simp] theorem reduceExpr?_eq_map (e : Option Expr) :
    reduceExpr? r e = e.map (Expr.reduce r) := by
  cases e <;> rfl

@[simp] theorem reduceProperties_eq_map (ps : List Property) :
    reduceProperties r ps = ps.map (Property.reduce r) :=
  eq_map_of_cons (by rw [reduceProperties]) (fun _ _ => by rw [reduceProperties]) ps

@[simp] theorem reducePatterns_eq_map (ps : List Pattern) :
    reducePatterns r ps = ps.map (Pattern.reduce r) :=
  eq_map_of_cons (by rw [reducePatterns]) (fun _ _ => by rw [reducePatterns]) ps

@[simp] theorem reducePattern?_eq_map (p : Option Pattern) :
    reducePattern? r p = p.map (Pattern.reduce r) := by
  cases p <;> rfl

@[simp] theorem reduceFields_eq_map (fs : List PatternField) :
    reduceFields r fs = fs.map (PatternField.reduce r) :=
  eq_map_of_cons (by rw [reduceFields]) (fun _ _ => by rw [reduceFields]) fs

@[simp] theorem reduceParams_eq_map (ps : List Param) :
    reduceParams r ps = ps.map (Param.reduce r) :=
  eq_map_of_cons (by rw [reduceParams]) (fun _ _ => by rw [reduceParams]) ps

@[simp] theorem reduceMembers_eq_map (ms : List Member) :
    reduceMembers r ms = ms.map (Member.reduce r) :=
  eq_map_of_cons (by rw [reduceMembers]) (fun _ _ => by rw [reduceMembers]) ms

@[simp] theorem reduceDeclarators_eq_map (ds : List Declarator) :
    reduceDeclarators r ds = ds.map (Declarator.reduce r) :=
  eq_map_of_cons (by rw [reduceDeclarators]) (fun _ _ => by rw [reduceDeclarators]) ds

@[simp] theorem reduceStmts_eq_map (stmts : List Stmt) :
    reduceStmts r stmts = stmts.map (Stmt.reduce r) :=
  eq_map_of_cons (by rw [reduceStmts]) (fun _ _ => by rw [reduceStmts]) stmts

@[simp] theorem reduceCases_eq_map (cases : List Case) :
    reduceCases r cases = cases.map (Case.reduce r) :=
  eq_map_of_cons (by rw [reduceCases]) (fun _ _ => by rw [reduceCases]) cases

@[simp] theorem reduceItems_eq_map (items : List Item) :
    reduceItems r items = items.map (Item.reduce r) :=
  eq_map_of_cons (by rw [reduceItems]) (fun _ _ => by rw [reduceItems]) items

end TypeStrip
