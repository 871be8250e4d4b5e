import TypeStrip.Syntax.Extent

/-!
The outline of a module: the nodes that carry a span, the way they stand inside each other. Omitted
elements are no part of it.
-/
namespace TypeStrip

/-- What a node says about the text at its span: nothing, that it is a name, or that it is a
template with these texts and expressions. -/
inductive Label where
  | plain
  | name (text : String)
  | template (texts : List String) (exprs : List Expr)

inductive Outline where
  | node (span : Span) (label : Label) (parts : List Outline)

namespace Outline

def span : Outline → Span
  | node s _ _ => s

def label : Outline → Label
  | node _ l _ => l

def parts : Outline → List Outline
  | node _ _ ps => ps

def leaf (s : Span) : Outline := node s .plain []

inductive Inside (o : Outline) : Outline → Prop where
  | refl : o.Inside o
  | part {p q : Outline} (hp : p ∈ q.parts) (h : o.Inside p) : o.Inside q

end Outline

/-- A name. What it says is not always how it is written. -/
def Name.outline (n : Name) : Outline := .leaf n.span

def ImportSpecifier.outline : ImportSpecifier → List Outline
  | .default n | .whole n => [n.outline]
  | .named n renamed _ => n.outline :: renamed.toList.map Name.outline

def Import.outline (d : Import) : List Outline := d.specifiers.flatMap ImportSpecifier.outline

def ExportSpecifier.outline (s : ExportSpecifier) : List Outline :=
  s.inner.outline :: s.renamed.toList.map Name.outline

def ModuleName.outline : ModuleName → List Outline
  | .ident n => [n.outline]
  | .string _ => []

mutual

def TypeExpr.outline : TypeExpr → List Outline
  | .keyword s _ | .literal s _ => [.leaf s]
  | .reference s ns ts => [.node s .plain (ns.map Name.outline ++ outlineTypes ts)]
  | .array s t | .keyof s t | .paren s t => [.node s .plain t.outline]
  | .tuple s ts | .union s ts | .intersection s ts => [.node s .plain (outlineTypes ts)]
  | .function s f => [.node s .plain f.outline]
  | .object s ms => [.node s .plain (outlineMembers ms)]
  | .typeof s ns => [.node s .plain (ns.map Name.outline)]
  | .indexed s t i => [.node s .plain (t.outline ++ i.outline)]
  | .conditional s a b t e => [.node s .plain (a.outline ++ b.outline ++ t.outline ++ e.outline)]
  | .mapped s n t v => [.node s .plain (n.outline :: t.outline ++ outlineType? v)]
  | .infer s n => [.node s .plain [n.outline]]

def outlineTypes : List TypeExpr → List Outline
  | [] => []
  | t :: ts => t.outline ++ outlineTypes ts

def outlineType? : Option TypeExpr → List Outline
  | some t => t.outline
  | none => []

def TypeParam.outline : TypeParam → List Outline
  | .mk n bound fallback => n.outline :: outlineType? bound ++ outlineType? fallback

def outlineTypeParams : List TypeParam → List Outline
  | [] => []
  | p :: ps => p.outline ++ outlineTypeParams ps

def Key.outline : Key → List Outline
  | .ident n => [.node n.span (.name n.text) []]
  | .string _ | .number _ => []
  | .computed e => e.outline

def Expr.outline : Expr → List Outline
  | .literal s _ | .this s | .super s => [.leaf s]
  | .ident s name => [.node s (.name name) []]
  | .binary s a _ b | .assign s a _ b | .index s a b | .optionalIndex s a b =>
    [.node s .plain (a.outline ++ b.outline)]
  | .unary s _ a | .nonNull s a | .await s a | .paren s a | .spread s a =>
      [.node s .plain a.outline]
  | .call s f ts es | .optionalCall s f ts es | .new s f ts es =>
    [.node s .plain (f.outline ++ outlineTypes ts ++ outlineExprs es)]
  | .member s a n | .optionalMember s a n => [.node s .plain (n.outline :: a.outline)]
  | .array s es | .sequence s es => [.node s .plain (outlineExprs es)]
  | .object s ps => [.node s .plain (outlineProperties ps)]
  | .arrow s f | .function s f => [.node s .plain f.outline]
  | .cls s c => [.node s .plain c.outline]
  | .conditional s a b c => [.node s .plain (a.outline ++ b.outline ++ c.outline)]
  | .template s texts es => [.node s (.template texts es) (outlineExprs es)]
  | .cast s a t | .satisfies s a t => [.node s .plain (a.outline ++ t.outline)]
  | .yield s a _ => [.node s .plain (outlineExpr? a)]
  | .omitted => []

def outlineExprs : List Expr → List Outline
  | [] => []
  | e :: es => e.outline ++ outlineExprs es

def outlineExpr? : Option Expr → List Outline
  | some e => e.outline
  | none => []

def Property.outline : Property → List Outline
  | .pair k v _ => k.outline ++ v.outline
  | .method k _ f => k.outline ++ f.outline
  | .spread e => e.outline

def outlineProperties : List Property → List Outline
  | [] => []
  | p :: ps => p.outline ++ outlineProperties ps

def Pattern.outline : Pattern → List Outline
  | .ident s n => [.node s .plain [n.outline]]
  | .array s ps rest => [.node s .plain (outlinePatterns ps ++ outlinePattern? rest)]
  | .object s fs rest => [.node s .plain (outlineFields fs ++ outlinePattern? rest)]
  | .withDefault s p e => [.node s .plain (p.outline ++ e.outline)]
  | .omitted => []

def outlinePatterns : List Pattern → List Outline
  | [] => []
  | p :: ps => p.outline ++ outlinePatterns ps

def outlinePattern? : Option Pattern → List Outline
  | some p => p.outline
  | none => []

def PatternField.outline : PatternField → List Outline
  | .mk k p _ => k.outline ++ p.outline

def outlineFields : List PatternField → List Outline
  | [] => []
  | f :: fs => f.outline ++ outlineFields fs

def Param.outline : Param → List Outline
  | .mk p t _ _ _ _ => p.outline ++ outlineType? t

def outlineParams : List Param → List Outline
  | [] => []
  | p :: ps => p.outline ++ outlineParams ps

def Func.outline : Func → List Outline
  | .mk n tps ps t body _ _ _ =>
    n.toList.map Name.outline ++ outlineTypeParams tps ++ outlineParams ps ++ outlineType? t
      ++ body.outline

def Body.outline : Body → List Outline
  | .absent => []
  | .block s stmts => [.node s .plain (outlineStmts stmts)]
  | .value e => e.outline

def Class.outline : Class → List Outline
  | .mk n tps base ts is ms _ _ =>
    n.toList.map Name.outline ++ outlineTypeParams tps ++ outlineExpr? base ++ outlineTypes ts
      ++ outlineTypes is ++ outlineMembers ms

def Member.outline : Member → List Outline
  | .constructor s f | .call s f => [.node s .plain f.outline]
  | .method s k _ f _ => [.node s .plain (k.outline ++ f.outline)]
  | .field s k t e _ => [.node s .plain (k.outline ++ outlineType? t ++ outlineExpr? e)]
  | .index s n k v _ => [.node s .plain (n.outline :: k.outline ++ v.outline)]

def outlineMembers : List Member → List Outline
  | [] => []
  | m :: ms => m.outline ++ outlineMembers ms

def Decl.outline : Decl → List Outline
  | .function f => f.outline
  | .cls c => c.outline
  | .interface n tps ts ms =>
      n.outline :: outlineTypeParams tps ++ outlineTypes ts ++ outlineMembers ms
  | .alias_ n tps t => n.outline :: outlineTypeParams tps ++ t.outline
  | .enumeration n ms _ _ => n.outline :: outlineMembers ms
  | .namespace_ n => n.outline
  | .vars _ ds _ => outlineDeclarators ds

def Namespace.outline : Namespace → List Outline
  | .block n is _ => n.outline ++ outlineItems is
  | .dotted n s inner _ => n.outline ++ [.node s .plain inner.outline]
  | .ambient n _ => n.outline

def Declarator.outline : Declarator → List Outline
  | .mk p t e => p.outline ++ outlineType? t ++ outlineExpr? e

def outlineDeclarators : List Declarator → List Outline
  | [] => []
  | d :: ds => d.outline ++ outlineDeclarators ds

def Stmt.outline : Stmt → List Outline
  | .expr s e | .throw s e => [.node s .plain e.outline]
  | .decl s d => [.node s .plain d.outline]
  | .return_ s e => [.node s .plain (outlineExpr? e)]
  | .ifThen s e a | .while_ s e a | .doWhile s a e => [.node s .plain (e.outline ++ a.outline)]
  | .ifElse s e a b => [.node s .plain (e.outline ++ a.outline ++ b.outline)]
  | .for_ s head e u a =>
    [.node s .plain (head.outline ++ outlineExpr? e ++ outlineExpr? u ++ a.outline)]
  | .forIn s head e a | .forOf s head e a _ =>
    [.node s .plain (head.outline ++ e.outline ++ a.outline)]
  | .block s stmts => [.node s .plain (outlineStmts stmts)]
  | .break_ s n | .continue_ s n => [.node s .plain (n.toList.map Name.outline)]
  | .try_ s b stmts p handler finalizer =>
    [.node s .plain (.node b .plain (outlineStmts stmts) :: outlinePattern? p ++ handler.outline
      ++ finalizer.outline)]
  | .switch s e cs => [.node s .plain (e.outline ++ outlineCases cs)]
  | .labeled s n a => [.node s .plain (n.outline :: a.outline)]
  | .empty s | .debugger s => [.leaf s]
  | .import_ s d => [.node s .plain d.outline]

def outlineStmts : List Stmt → List Outline
  | [] => []
  | s :: ss => s.outline ++ outlineStmts ss

def ForHead.outline : ForHead → List Outline
  | .none => []
  | .vars _ ds => outlineDeclarators ds
  | .expr e => e.outline

def Case.outline : Case → List Outline
  | .mk e stmts => outlineExpr? e ++ outlineStmts stmts

def outlineCases : List Case → List Outline
  | [] => []
  | c :: cs => c.outline ++ outlineCases cs

def Item.outline : Item → List Outline
  | .import_ s d => [.node s .plain d.outline]
  | .exportNamed s es _ _ => [.node s .plain (es.flatMap ExportSpecifier.outline)]
  | .exportDefault s e => [.node s .plain e.outline]
  | .exportDefaultDecl s s' d | .exportDecl s s' d => [.node s .plain [.node s' .plain d.outline]]
  | .exportAll s _ n _ => [.node s .plain (n.toList.map Name.outline)]
  | .stmt s a => [.node s .plain a.outline]

def outlineItems : List Item → List Outline
  | [] => []
  | i :: is => i.outline ++ outlineItems is

end

/-! ### Outlines of constructs -/

namespace Expr

theorem outline_ident (s : Span) (name : String) :
    (ident s name).outline = [.node s (.name name) []] := by rw [Expr.outline]

theorem outline_template (s : Span) (texts : List String) (es : List Expr) :
    (template s texts es).outline = [.node s (.template texts es) (outlineExprs es)] := by
  rw [Expr.outline]

end Expr

namespace Decl

theorem outline_function (f : Func) : (function f).outline = f.outline := rfl

theorem outline_cls (c : Class) : (cls c).outline = c.outline := rfl

theorem outline_interface (n : Name) (tps : List TypeParam) (ts : List TypeExpr)
    (ms : List Member) : (interface n tps ts ms).outline =
      n.outline :: outlineTypeParams tps ++ outlineTypes ts ++ outlineMembers ms := rfl

theorem outline_alias (n : Name) (tps : List TypeParam) (t : TypeExpr) :
    (alias_ n tps t).outline = n.outline :: outlineTypeParams tps ++ t.outline := rfl

theorem outline_enumeration (n : Name) (ms : List Member) (isConst isDeclare : Bool) :
    (enumeration n ms isConst isDeclare).outline = n.outline :: outlineMembers ms := rfl

theorem outline_namespace (n : Namespace) : (namespace_ n).outline = n.outline := rfl

theorem outline_vars (k : VarKind) (ds : List Declarator) (isDeclare : Bool) :
    (vars k ds isDeclare).outline = outlineDeclarators ds := rfl

end Decl

def Program.outline (p : Program) : Outline := .node p.span .plain (outlineItems p.items)

end TypeStrip
