import TypeStrip.Grammar.Key
import TypeStrip.Grammar.Function

/-!
Syntax with other texts. Every name and string is reworded alike, but what stands for a template is
left alone, since the strings in a template are no tokens of the text around it.
-/
namespace TypeStrip

class Reworded (α : Type) where
  reword : (String → String) → α → α

open Reworded

variable (σ : String → String)

instance : Reworded Unit := ⟨fun _ u => u⟩
instance : Reworded Bool := ⟨fun _ b => b⟩
instance : Reworded Span := ⟨fun _ s => s⟩
instance : Reworded VarKind := ⟨fun _ k => k⟩
instance : Reworded Access := ⟨fun _ a => a⟩
instance : Reworded Modifiers := ⟨fun _ m => m⟩
instance : Reworded Grammar.MethodWords := ⟨fun _ w => w⟩
instance : Reworded String := ⟨fun σ s => σ s⟩
instance {α β : Type} [Reworded α] [Reworded β] : Reworded (α × β) :=
  ⟨fun σ p => (reword σ p.1, reword σ p.2)⟩
instance {α : Type} [Reworded α] : Reworded (Option α) := ⟨fun σ a => a.map (reword σ)⟩
instance {α : Type} [Reworded α] : Reworded (List α) := ⟨fun σ as => as.map (reword σ)⟩

/-- A token with another text, if it is a string. -/
def Token.reword (t : Token) : Token :=
  { t with value := if t.kind = .string then σ t.value else t.value }

def Name.reword (n : Name) : Name := ⟨n.span, σ n.text⟩

instance : Reworded Token := ⟨Token.reword⟩
instance : Reworded Name := ⟨Name.reword⟩

def Literal.reword : Literal → Literal
  | .string s => .string (σ s)
  | l => l

def LiteralType.reword : LiteralType → LiteralType
  | .string s => .string (σ s)
  | l => l

def ImportSpecifier.reword : ImportSpecifier → ImportSpecifier
  | .default n => .default (n.reword σ)
  | .whole n => .whole (n.reword σ)
  | .named imported renamed typeOnly =>
    .named (imported.reword σ) (renamed.map (Name.reword σ)) typeOnly

def Import.reword (d : Import) : Import :=
  ⟨d.specifiers.map (ImportSpecifier.reword σ), σ d.source, d.typeOnly⟩

def ExportSpecifier.reword (s : ExportSpecifier) : ExportSpecifier :=
  ⟨s.inner.reword σ, s.renamed.map (Name.reword σ), s.typeOnly⟩

def ModuleName.reword : ModuleName → ModuleName
  | .ident n => .ident (n.reword σ)
  | .string s => .string (σ s)

mutual

def TypeExpr.reword (σ : String → String) : TypeExpr → TypeExpr
  | .keyword s k => .keyword s k
  | .reference s ns args => .reference s (ns.map (Name.reword σ)) (rewordTypes σ args)
  | .array s t => .array s (t.reword σ)
  | .tuple s ts => .tuple s (rewordTypes σ ts)
  | .union s ts => .union s (rewordTypes σ ts)
  | .intersection s ts => .intersection s (rewordTypes σ ts)
  | .function s f => .function s (f.reword σ)
  | .object s ms => .object s (rewordMembers σ ms)
  | .literal s l => .literal s (l.reword σ)
  | .keyof s t => .keyof s (t.reword σ)
  | .typeof s ns => .typeof s (ns.map (Name.reword σ))
  | .indexed s t i => .indexed s (t.reword σ) (i.reword σ)
  | .paren s t => .paren s (t.reword σ)
  | .conditional s check bound yes no =>
    .conditional s (check.reword σ) (bound.reword σ) (yes.reword σ) (no.reword σ)
  | .mapped s n keys value => .mapped s (n.reword σ) (keys.reword σ) (rewordType? σ value)
  | .infer s n => .infer s (n.reword σ)

def rewordTypes (σ : String → String) : List TypeExpr → List TypeExpr
  | [] => []
  | t :: ts => t.reword σ :: rewordTypes σ ts

def rewordType? (σ : String → String) : Option TypeExpr → Option TypeExpr
  | some t => some (t.reword σ)
  | none => none

def TypeParam.reword (σ : String → String) : TypeParam → TypeParam
  | .mk n bound fallback => .mk (n.reword σ) (rewordType? σ bound) (rewordType? σ fallback)

def rewordTypeParams (σ : String → String) : List TypeParam → List TypeParam
  | [] => []
  | p :: ps => p.reword σ :: rewordTypeParams σ ps

def Key.reword (σ : String → String) : Key → Key
  | .ident n => .ident (n.reword σ)
  | .string s => .string (σ s)
  | .number x => .number x
  | .computed e => .computed (e.reword σ)

def Expr.reword (σ : String → String) : Expr → Expr
  | .literal s l => .literal s (l.reword σ)
  | .ident s n => .ident s (σ n)
  | .this s => .this s
  | .super s => .super s
  | .binary s a op b => .binary s (a.reword σ) op (b.reword σ)
  | .unary s op a => .unary s op (a.reword σ)
  | .assign s a op b => .assign s (a.reword σ) op (b.reword σ)
  | .call s f ts args => .call s (f.reword σ) (rewordTypes σ ts) (rewordExprs σ args)
  | .optionalCall s f ts args =>
    .optionalCall s (f.reword σ) (rewordTypes σ ts) (rewordExprs σ args)
  | .new s f ts args => .new s (f.reword σ) (rewordTypes σ ts) (rewordExprs σ args)
  | .member s a n => .member s (a.reword σ) (n.reword σ)
  | .optionalMember s a n => .optionalMember s (a.reword σ) (n.reword σ)
  | .index s a i => .index s (a.reword σ) (i.reword σ)
  | .optionalIndex s a i => .optionalIndex s (a.reword σ) (i.reword σ)
  | .array s es => .array s (rewordExprs σ es)
  | .object s ps => .object s (rewordProperties σ ps)
  | .arrow s f => .arrow s (f.reword σ)
  | .function s f => .function s (f.reword σ)
  | .cls s c => .cls s (c.reword σ)
  | .conditional s a b c => .conditional s (a.reword σ) (b.reword σ) (c.reword σ)
  | .template s texts es => .template s texts es
  | .cast s a t => .cast s (a.reword σ) (t.reword σ)
  | .satisfies s a t => .satisfies s (a.reword σ) (t.reword σ)
  | .nonNull s a => .nonNull s (a.reword σ)
  | .await s a => .await s (a.reword σ)
  | .yield s a delegate => .yield s (rewordExpr? σ a) delegate
  | .paren s a => .paren s (a.reword σ)
  | .sequence s es => .sequence s (rewordExprs σ es)
  | .spread s a => .spread s (a.reword σ)
  | .omitted => .omitted

def rewordExprs (σ : String → String) : List Expr → List Expr
  | [] => []
  | e :: es => e.reword σ :: rewordExprs σ es

def rewordExpr? (σ : String → String) : Option Expr → Option Expr
  | some e => some (e.reword σ)
  | none => none

def Property.reword (σ : String → String) : Property → Property
  | .pair k v shorthand => .pair (k.reword σ) (v.reword σ) shorthand
  | .method k kind f => .method (k.reword σ) kind (f.reword σ)
  | .spread e => .spread (e.reword σ)

def rewordProperties (σ : String → String) : List Property → List Property
  | [] => []
  | p :: ps => p.reword σ :: rewordProperties σ ps

def Pattern.reword (σ : String → String) : Pattern → Pattern
  | .ident s n => .ident s (n.reword σ)
  | .array s ps rest => .array s (rewordPatterns σ ps) (rewordPattern? σ rest)
  | .object s fs rest => .object s (rewordFields σ fs) (rewordPattern? σ rest)
  | .withDefault s p e => .withDefault s (p.reword σ) (e.reword σ)
  | .omitted => .omitted

def rewordPatterns (σ : String → String) : List Pattern → List Pattern
  | [] => []
  | p :: ps => p.reword σ :: rewordPatterns σ ps

def rewordPattern? (σ : String → String) : Option Pattern → Option Pattern
  | some p => some (p.reword σ)
  | none => none

def PatternField.reword (σ : String → String) : PatternField → PatternField
  | .mk k p shorthand => .mk (k.reword σ) (p.reword σ) shorthand

def rewordFields (σ : String → String) : List PatternField → List PatternField
  | [] => []
  | f :: fs => f.reword σ :: rewordFields σ fs

def Param.reword (σ : String → String) : Param → Param
  | .mk p type isOptional isRest access isReadonly =>
    .mk (p.reword σ) (rewordType? σ type) isOptional isRest access isReadonly

def rewordParams (σ : String → String) : List Param → List Param
  | [] => []
  | p :: ps => p.reword σ :: rewordParams σ ps

def Func.reword (σ : String → String) : Func → Func
  | .mk name typeParams ps returns body isAsync isGenerator isDeclare =>
    .mk (name.map (Name.reword σ)) (rewordTypeParams σ typeParams) (rewordParams σ ps)
      (rewordType? σ returns) (body.reword σ) isAsync isGenerator isDeclare

def Body.reword (σ : String → String) : Body → Body
  | .absent => .absent
  | .block s stmts => .block s (rewordStmts σ stmts)
  | .value e => .value (e.reword σ)

def Class.reword (σ : String → String) : Class → Class
  | .mk name typeParams base baseArgs interfaces ms isAbstract isDeclare =>
    .mk (name.map (Name.reword σ)) (rewordTypeParams σ typeParams) (rewordExpr? σ base)
      (rewordTypes σ baseArgs) (rewordTypes σ interfaces) (rewordMembers σ ms) isAbstract isDeclare

def Member.reword (σ : String → String) : Member → Member
  | .constructor s f => .constructor s (f.reword σ)
  | .method s k kind f m => .method s (k.reword σ) kind (f.reword σ) m
  | .field s k type init m => .field s (k.reword σ) (rewordType? σ type) (rewordExpr? σ init) m
  | .index s name keyType valueType isReadonly =>
    .index s (name.reword σ) (keyType.reword σ) (valueType.reword σ) isReadonly
  | .call s f => .call s (f.reword σ)

def rewordMembers (σ : String → String) : List Member → List Member
  | [] => []
  | m :: ms => m.reword σ :: rewordMembers σ ms

def Decl.reword (σ : String → String) : Decl → Decl
  | .function f => .function (f.reword σ)
  | .cls c => .cls (c.reword σ)
  | .interface name typeParams bases ms =>
    .interface (name.reword σ) (rewordTypeParams σ typeParams) (rewordTypes σ bases)
      (rewordMembers σ ms)
  | .alias_ name typeParams type =>
    .alias_ (name.reword σ) (rewordTypeParams σ typeParams) (type.reword σ)
  | .enumeration name ms isConst isDeclare =>
    .enumeration (name.reword σ) (rewordMembers σ ms) isConst isDeclare
  | .namespace_ n => .namespace_ (n.reword σ)
  | .vars kind ds isDeclare => .vars kind (rewordDeclarators σ ds) isDeclare

def Namespace.reword (σ : String → String) : Namespace → Namespace
  | .block name items isDeclare => .block (name.reword σ) (rewordItems σ items) isDeclare
  | .dotted name s inner isDeclare => .dotted (name.reword σ) s (inner.reword σ) isDeclare
  | .ambient name isDeclare => .ambient (name.reword σ) isDeclare

def Declarator.reword (σ : String → String) : Declarator → Declarator
  | .mk p type init => .mk (p.reword σ) (rewordType? σ type) (rewordExpr? σ init)

def rewordDeclarators (σ : String → String) : List Declarator → List Declarator
  | [] => []
  | d :: ds => d.reword σ :: rewordDeclarators σ ds

def Stmt.reword (σ : String → String) : Stmt → Stmt
  | .expr s e => .expr s (e.reword σ)
  | .decl s d => .decl s (d.reword σ)
  | .return_ s e => .return_ s (rewordExpr? σ e)
  | .ifThen s e yes => .ifThen s (e.reword σ) (yes.reword σ)
  | .ifElse s e yes no => .ifElse s (e.reword σ) (yes.reword σ) (no.reword σ)
  | .for_ s head test update body =>
    .for_ s (head.reword σ) (rewordExpr? σ test) (rewordExpr? σ update) (body.reword σ)
  | .forIn s head e body => .forIn s (head.reword σ) (e.reword σ) (body.reword σ)
  | .forOf s head e body isAwait => .forOf s (head.reword σ) (e.reword σ) (body.reword σ) isAwait
  | .while_ s e body => .while_ s (e.reword σ) (body.reword σ)
  | .doWhile s body e => .doWhile s (body.reword σ) (e.reword σ)
  | .block s stmts => .block s (rewordStmts σ stmts)
  | .break_ s label => .break_ s (label.map (Name.reword σ))
  | .continue_ s label => .continue_ s (label.map (Name.reword σ))
  | .throw s e => .throw s (e.reword σ)
  | .try_ s blockSpan stmts param handler finalizer =>
    .try_ s blockSpan (rewordStmts σ stmts) (rewordPattern? σ param) (handler.reword σ)
      (finalizer.reword σ)
  | .switch s e cases => .switch s (e.reword σ) (rewordCases σ cases)
  | .labeled s label body => .labeled s (label.reword σ) (body.reword σ)
  | .empty s => .empty s
  | .debugger s => .debugger s
  | .import_ s d => .import_ s (d.reword σ)

def rewordStmts (σ : String → String) : List Stmt → List Stmt
  | [] => []
  | s :: stmts => s.reword σ :: rewordStmts σ stmts

def ForHead.reword (σ : String → String) : ForHead → ForHead
  | .none => .none
  | .vars kind ds => .vars kind (rewordDeclarators σ ds)
  | .expr e => .expr (e.reword σ)

def Case.reword (σ : String → String) : Case → Case
  | .mk test stmts => .mk (rewordExpr? σ test) (rewordStmts σ stmts)

def rewordCases (σ : String → String) : List Case → List Case
  | [] => []
  | c :: cases => c.reword σ :: rewordCases σ cases

def Item.reword (σ : String → String) : Item → Item
  | .import_ s d => .import_ s (d.reword σ)
  | .exportNamed s specifiers source typeOnly =>
    .exportNamed s (specifiers.map (ExportSpecifier.reword σ)) (source.map σ) typeOnly
  | .exportDefault s e => .exportDefault s (e.reword σ)
  | .exportDefaultDecl s declSpan d => .exportDefaultDecl s declSpan (d.reword σ)
  | .exportAll s source name typeOnly =>
    .exportAll s (σ source) (name.map (Name.reword σ)) typeOnly
  | .exportDecl s declSpan d => .exportDecl s declSpan (d.reword σ)
  | .stmt s t => .stmt s (t.reword σ)

def rewordItems (σ : String → String) : List Item → List Item
  | [] => []
  | i :: items => i.reword σ :: rewordItems σ items

end

def Program.reword (p : Program) : Program := ⟨rewordItems σ p.items, p.span⟩

instance : Reworded ImportSpecifier := ⟨ImportSpecifier.reword⟩
instance : Reworded Import := ⟨Import.reword⟩
instance : Reworded ExportSpecifier := ⟨ExportSpecifier.reword⟩
instance : Reworded TypeExpr := ⟨TypeExpr.reword⟩
instance : Reworded TypeParam := ⟨TypeParam.reword⟩
instance : Reworded Key := ⟨Key.reword⟩
instance : Reworded Expr := ⟨Expr.reword⟩
instance : Reworded Property := ⟨Property.reword⟩
instance : Reworded Pattern := ⟨Pattern.reword⟩
instance : Reworded PatternField := ⟨PatternField.reword⟩
instance : Reworded Param := ⟨Param.reword⟩
instance : Reworded Func := ⟨Func.reword⟩
instance : Reworded Body := ⟨Body.reword⟩
instance : Reworded Class := ⟨Class.reword⟩
instance : Reworded Member := ⟨Member.reword⟩
instance : Reworded Decl := ⟨Decl.reword⟩
instance : Reworded Namespace := ⟨Namespace.reword⟩
instance : Reworded Declarator := ⟨Declarator.reword⟩
instance : Reworded Stmt := ⟨Stmt.reword⟩
instance : Reworded ForHead := ⟨ForHead.reword⟩
instance : Reworded Case := ⟨Case.reword⟩
instance : Reworded Item := ⟨Item.reword⟩

attribute [simp] TypeExpr.reword TypeParam.reword Key.reword Expr.reword Property.reword
  Pattern.reword Param.reword Func.reword Body.reword Class.reword Member.reword Decl.reword
  Namespace.reword Declarator.reword Stmt.reword ForHead.reword Case.reword

/-! ### Places -/

variable {σ}

@[simp] theorem TypeExpr.span_reword (t : TypeExpr) : (t.reword σ).span = t.span := by
  cases t <;> rfl

@[simp] theorem Expr.span_reword (e : Expr) : (e.reword σ).span = e.span := by
  cases e <;> rfl

@[simp] theorem Pattern.span_reword (p : Pattern) : (p.reword σ).span = p.span := by
  cases p <;> rfl

@[simp] theorem Item.span_reword (i : Item) : (i.reword σ).span = i.span := by
  cases i <;> rfl

variable (σ)

/-! ### Lists -/

/-- A walk through a list that treats every member alike. -/
private theorem reword_eq_of_cons {α : Type} [Reworded α] {g : List α → List α} (hn : g [] = [])
    (hc : ∀ a as, g (a :: as) = reword σ a :: g as) (as : List α) : g as = reword σ as := by
  induction as with
  | nil => exact hn
  | cons a as ih =>
    rw [hc, ih]
    rfl

@[simp] theorem rewordTypes_eq (ts : List TypeExpr) : rewordTypes σ ts = reword σ ts :=
  reword_eq_of_cons σ rfl (fun _ _ => rfl) ts

@[simp] theorem rewordType?_eq (t : Option TypeExpr) : rewordType? σ t = reword σ t := by
  cases t <;> rfl

@[simp] theorem rewordTypeParams_eq (ps : List TypeParam) : rewordTypeParams σ ps = reword σ ps :=
  reword_eq_of_cons σ rfl (fun _ _ => rfl) ps

@[simp] theorem rewordExprs_eq (es : List Expr) : rewordExprs σ es = reword σ es :=
  reword_eq_of_cons σ rfl (fun _ _ => rfl) es

@[simp] theorem rewordExpr?_eq (e : Option Expr) : rewordExpr? σ e = reword σ e := by
  cases e <;> rfl

@[simp] theorem rewordProperties_eq (ps : List Property) : rewordProperties σ ps = reword σ ps :=
  reword_eq_of_cons σ rfl (fun _ _ => rfl) ps

@[simp] theorem rewordPatterns_eq (ps : List Pattern) : rewordPatterns σ ps = reword σ ps :=
  reword_eq_of_cons σ rfl (fun _ _ => rfl) ps

@[simp] theorem rewordPattern?_eq (p : Option Pattern) : rewordPattern? σ p = reword σ p := by
  cases p <;> rfl

@[simp] theorem rewordFields_eq (fs : List PatternField) : rewordFields σ fs = reword σ fs :=
  reword_eq_of_cons σ rfl (fun _ _ => rfl) fs

@[simp] theorem rewordParams_eq (ps : List Param) : rewordParams σ ps = reword σ ps :=
  reword_eq_of_cons σ rfl (fun _ _ => rfl) ps

@[simp] theorem rewordMembers_eq (ms : List Member) : rewordMembers σ ms = reword σ ms :=
  reword_eq_of_cons σ rfl (fun _ _ => rfl) ms

@[simp] theorem rewordDeclarators_eq (ds : List Declarator) :
    rewordDeclarators σ ds = reword σ ds :=
  reword_eq_of_cons σ rfl (fun _ _ => rfl) ds

@[simp] theorem rewordStmts_eq (stmts : List Stmt) : rewordStmts σ stmts = reword σ stmts :=
  reword_eq_of_cons σ rfl (fun _ _ => rfl) stmts

@[simp] theorem rewordCases_eq (cases : List Case) : rewordCases σ cases = reword σ cases :=
  reword_eq_of_cons σ rfl (fun _ _ => rfl) cases

@[simp] theorem rewordItems_eq (items : List Item) : rewordItems σ items = reword σ items :=
  reword_eq_of_cons σ rfl (fun _ _ => rfl) items

end TypeStrip
