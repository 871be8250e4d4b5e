import TypeStrip.Proofs.Grammar.Levels

/-!
Which names a module uses as values, by recursion on its syntax. The walk over its sites, which
decides what imports are needed, finds the same names.
-/
namespace TypeStrip

mutual

def Key.uses : Key → List String
  | .ident _ | .string _ | .number _ => []
  | .computed e => e.uses

def Expr.uses : Expr → List String
  | .literal .. | .this _ | .super _ | .omitted => []
  | .ident _ name => [name]
  | .binary _ a _ b | .assign _ a _ b | .index _ a b | .optionalIndex _ a b => a.uses ++ b.uses
  | .unary _ _ a | .member _ a _ | .optionalMember _ a _ | .cast _ a _ | .satisfies _ a _
  | .nonNull _ a | .await _ a | .paren _ a | .spread _ a => a.uses
  | .call _ f _ args | .optionalCall _ f _ args | .new _ f _ args => f.uses ++ usesOfExprs args
  | .array _ es | .template _ _ es | .sequence _ es => usesOfExprs es
  | .object _ ps => usesOfProperties ps
  | .arrow _ f | .function _ f => f.uses
  | .cls _ c => c.uses
  | .conditional _ a b c => a.uses ++ b.uses ++ c.uses
  | .yield _ a _ => usesOfExpr? a

def usesOfExprs : List Expr → List String
  | [] => []
  | e :: es => e.uses ++ usesOfExprs es

def usesOfExpr? : Option Expr → List String
  | some e => e.uses
  | none => []

def Property.uses : Property → List String
  | .pair k v _ => k.uses ++ v.uses
  | .method k _ f => k.uses ++ f.uses
  | .spread e => e.uses

def usesOfProperties : List Property → List String
  | [] => []
  | p :: ps => p.uses ++ usesOfProperties ps

/-- The names that a pattern uses: those in its defaults and keys, not those that it binds. -/
def Pattern.uses : Pattern → List String
  | .ident .. | .omitted => []
  | .array _ ps rest => usesOfPatterns ps ++ usesOfPattern? rest
  | .object _ fs rest => usesOfFields fs ++ usesOfPattern? rest
  | .withDefault _ p e => p.uses ++ e.uses

def usesOfPatterns : List Pattern → List String
  | [] => []
  | p :: ps => p.uses ++ usesOfPatterns ps

def usesOfPattern? : Option Pattern → List String
  | some p => p.uses
  | none => []

def usesOfFields : List PatternField → List String
  | [] => []
  | .mk k p _ :: fs => k.uses ++ p.uses ++ usesOfFields fs

def usesOfParams : List Param → List String
  | [] => []
  | .mk p _ _ _ _ _ :: ps => p.uses ++ usesOfParams ps

def Func.uses : Func → List String
  | .mk _ _ ps _ body _ _ _ => usesOfParams ps ++ body.uses

def Body.uses : Body → List String
  | .absent => []
  | .block _ stmts => usesOfStmts stmts
  | .value e => e.uses

def Class.uses : Class → List String
  | .mk _ _ base _ _ ms _ _ => usesOfExpr? base ++ usesOfMembers ms

def Member.uses : Member → List String
  | .constructor _ f => f.uses
  | .method _ k _ f _ => k.uses ++ f.uses
  | .field _ k _ init _ => k.uses ++ usesOfExpr? init
  | .index .. | .call .. => []

def usesOfMembers : List Member → List String
  | [] => []
  | m :: ms => m.uses ++ usesOfMembers ms

def usesOfDeclarators : List Declarator → List String
  | [] => []
  | .mk p _ init :: ds => p.uses ++ usesOfExpr? init ++ usesOfDeclarators ds

def Decl.uses : Decl → List String
  | .function f => f.uses
  | .cls c => c.uses
  | .vars _ ds _ => usesOfDeclarators ds
  | .enumeration _ ms _ _ => usesOfMembers ms
  | .namespace_ n => n.uses
  | .interface .. | .alias_ .. => []

def Namespace.uses : Namespace → List String
  | .block _ items _ => usesOfItems items
  | .dotted _ _ inner _ => inner.uses
  | .ambient .. => []

def ForHead.uses : ForHead → List String
  | .none => []
  | .vars _ ds => usesOfDeclarators ds
  | .expr e => e.uses

def Stmt.uses : Stmt → List String
  | .break_ .. | .continue_ .. | .empty _ | .debugger _ | .import_ .. => []
  | .expr _ e | .throw _ e => e.uses
  | .decl _ d => d.uses
  | .return_ _ e => usesOfExpr? e
  | .ifThen _ e s | .while_ _ e s | .doWhile _ s e => e.uses ++ s.uses
  | .ifElse _ e s t => e.uses ++ s.uses ++ t.uses
  | .for_ _ head test update s => head.uses ++ usesOfExpr? test ++ usesOfExpr? update ++ s.uses
  | .forIn _ head e s | .forOf _ head e s _ => head.uses ++ e.uses ++ s.uses
  | .block _ stmts => usesOfStmts stmts
  | .try_ _ _ stmts param handler finalizer =>
    usesOfStmts stmts ++ usesOfPattern? param ++ handler.uses ++ finalizer.uses
  | .switch _ e cases => e.uses ++ usesOfCases cases
  | .labeled _ _ s => s.uses

def usesOfStmts : List Stmt → List String
  | [] => []
  | s :: stmts => s.uses ++ usesOfStmts stmts

def usesOfCases : List Case → List String
  | [] => []
  | .mk test stmts :: cases => usesOfExpr? test ++ usesOfStmts stmts ++ usesOfCases cases

/-- The names that an item uses. An export of names uses those that are its own and no types. -/
def Item.uses : Item → List String
  | .import_ .. | .exportAll .. => []
  | .exportNamed _ specifiers none false =>
    (specifiers.filter fun s => !s.typeOnly).map fun s => s.inner.text
  | .exportNamed .. => []
  | .exportDefault _ e => e.uses
  | .exportDefaultDecl _ _ d | .exportDecl _ _ d => d.uses
  | .stmt _ s => s.uses

def usesOfItems : List Item → List String
  | [] => []
  | i :: items => i.uses ++ usesOfItems items

end

/-- The names that a module uses as values: those of its variables, wherever they stand outside
types, and those that it exports by name. -/
def Program.uses (p : Program) : List String := usesOfItems p.items

namespace Site

/-- The names that are used at a site and inside it. A statement exports nothing. -/
def uses : Site → List String
  | .export_ (.stmt ..) => []
  | .item i | .export_ i => i.uses
  | .import_ _ => []
  | .stmt s => s.uses
  | .decl d => d.uses
  | .expr e => e.uses
  | .pattern p => p.uses
  | .function f | .arrow f => f.uses
  | .cls c => c.uses
  | .key k => k.uses

/-! ### Several sites -/

theorem flatMap_uses_ofExprs (es : List Expr) : (ofExprs es).flatMap uses = usesOfExprs es := by
  induction es with
  | nil => rfl
  | cons e es ih =>
    rw [ofExprs_cons, List.flatMap_append, ih]
    cases e with
    | omitted => rfl
    | _ => exact congrArg (· ++ _) (List.append_nil _)

theorem flatMap_uses_ofExpr? (e : Option Expr) : (ofExpr? e).flatMap uses = usesOfExpr? e := by
  rw [ofExpr?, flatMap_uses_ofExprs]
  cases e with
  | none => rfl
  | some e => exact List.append_nil _

theorem flatMap_uses_ofPatterns (ps : List Pattern) :
    (ofPatterns ps).flatMap uses = usesOfPatterns ps := by
  induction ps with
  | nil => rfl
  | cons p ps ih =>
    rw [ofPatterns_cons, List.flatMap_append, ih]
    cases p with
    | omitted => rfl
    | _ => exact congrArg (· ++ _) (List.append_nil _)

theorem flatMap_uses_ofPattern? (p : Option Pattern) :
    (ofPatterns p.toList).flatMap uses = usesOfPattern? p := by
  rw [flatMap_uses_ofPatterns]
  cases p with
  | none => rfl
  | some p => exact List.append_nil _

theorem flatMap_uses_stmts (stmts : List Stmt) :
    (stmts.map Site.stmt).flatMap uses = usesOfStmts stmts := by
  induction stmts with
  | nil => rfl
  | cons s stmts ih => exact congrArg (_ ++ ·) ih

theorem flatMap_uses_items (items : List Item) :
    (items.map Site.item).flatMap uses = usesOfItems items := by
  induction items with
  | nil => rfl
  | cons i items ih => exact congrArg (_ ++ ·) ih

theorem flatMap_uses_ofBody (b : Body) : (ofBody b).flatMap uses = b.uses := by
  cases b with
  | absent => rfl
  | block s stmts => exact flatMap_uses_stmts stmts
  | value e => exact (flatMap_uses_ofExprs [e]).trans (List.append_nil _)

theorem flatMap_uses_params (ps : List Param) :
    (ps.flatMap fun | .mk p _ _ _ _ _ => ofPatterns [p]).flatMap uses = usesOfParams ps := by
  induction ps with
  | nil => rfl
  | cons param ps ih =>
    obtain ⟨p, type, isOptional, isRest, access, isReadonly⟩ := param
    rw [List.flatMap_cons, List.flatMap_append, ih, flatMap_uses_ofPatterns]
    exact congrArg (· ++ _) (List.append_nil _)

theorem flatMap_uses_ofFunc (f : Func) : (ofFunc f).flatMap uses = f.uses := by
  obtain ⟨name, tps, ps, ret, body, a, g, d⟩ := f
  rw [ofFunc, List.flatMap_append, flatMap_uses_ofBody]
  exact congrArg (· ++ _) (flatMap_uses_params ps)

theorem flatMap_uses_ofDeclarators (ds : List Declarator) :
    (ofDeclarators ds).flatMap uses = usesOfDeclarators ds := by
  induction ds with
  | nil => rfl
  | cons d ds ih =>
    obtain ⟨p, type, init⟩ := d
    rw [ofDeclarators, List.flatMap_cons, ← ofDeclarators, List.flatMap_append, ih,
      List.flatMap_append, flatMap_uses_ofPatterns, flatMap_uses_ofExpr?, usesOfPatterns,
      usesOfPatterns, List.append_nil]
    rfl

theorem flatMap_uses_ofForHead (head : ForHead) : (ofForHead head).flatMap uses = head.uses := by
  cases head with
  | none => rfl
  | vars kind ds => exact flatMap_uses_ofDeclarators ds
  | expr e => exact (flatMap_uses_ofExprs [e]).trans (List.append_nil _)

theorem flatMap_uses_ofProperty (p : Property) : (ofProperty p).flatMap uses = p.uses := by
  cases p with
  | pair k v shorthand =>
    rw [ofProperty, List.flatMap_cons, flatMap_uses_ofExprs, usesOfExprs, usesOfExprs,
      List.append_nil]
    rfl
  | method k kind f => exact congrArg (_ ++ ·) (List.append_nil _)
  | spread e => exact (flatMap_uses_ofExprs [e]).trans (List.append_nil _)

theorem flatMap_uses_properties (ps : List Property) :
    (ps.flatMap ofProperty).flatMap uses = usesOfProperties ps := by
  induction ps with
  | nil => rfl
  | cons p ps ih =>
    rw [List.flatMap_cons, List.flatMap_append, flatMap_uses_ofProperty, ih]
    rfl

theorem flatMap_uses_fields (fs : List PatternField) :
    (fs.flatMap fun | .mk k p _ => .key k :: ofPatterns [p]).flatMap uses = usesOfFields fs := by
  induction fs with
  | nil => rfl
  | cons f fs ih =>
    obtain ⟨k, p, shorthand⟩ := f
    rw [List.flatMap_cons, List.flatMap_append, ih, List.flatMap_cons, flatMap_uses_ofPatterns,
      usesOfPatterns, usesOfPatterns, List.append_nil]
    rfl

theorem flatMap_uses_ofMember (m : Member) : (ofMember m).flatMap uses = m.uses := by
  cases m with
  | constructor s f => exact List.append_nil _
  | method s k kind f modifiers => exact congrArg (_ ++ ·) (List.append_nil _)
  | field s k type init modifiers => exact congrArg (_ ++ ·) (flatMap_uses_ofExpr? init)
  | index | call => rfl

theorem flatMap_uses_members (ms : List Member) :
    (ms.flatMap ofMember).flatMap uses = usesOfMembers ms := by
  induction ms with
  | nil => rfl
  | cons m ms ih =>
    rw [List.flatMap_cons, List.flatMap_append, flatMap_uses_ofMember, ih]
    rfl

theorem uses_of_isNamed {m : Member} (h : m.isNamed = true) :
    (ofEnumMember m).flatMap uses = m.uses := by
  cases m with
  | field s k type init modifiers =>
    rw [ofEnumMember, flatMap_uses_ofExpr?]
    cases k with
    | computed e => cases h
    | _ => rfl
  | _ => cases h

/-- The names of the members of an enum use nothing. -/
theorem flatMap_uses_enumMembers {ms : List Member} (h : ∀ m ∈ ms, m.isNamed = true) :
    (ms.flatMap ofEnumMember).flatMap uses = usesOfMembers ms := by
  induction ms with
  | nil => rfl
  | cons m ms ih =>
    obtain ⟨hm, hms⟩ := List.forall_mem_cons.1 h
    rw [List.flatMap_cons, List.flatMap_append, uses_of_isNamed hm, ih hms]
    rfl

theorem flatMap_uses_ofNamespace (n : Namespace) : (ofNamespace n).flatMap uses = n.uses := by
  match n with
  | .block name items isDeclare => exact flatMap_uses_items items
  | .dotted name s inner isDeclare => exact flatMap_uses_ofNamespace inner
  | .ambient .. => rfl

theorem flatMap_uses_cases (cases : List Case) :
    (cases.flatMap fun | .mk test body => ofExpr? test ++ body.map .stmt).flatMap uses =
      usesOfCases cases := by
  induction cases with
  | nil => rfl
  | cons c cases ih =>
    obtain ⟨test, body⟩ := c
    rw [List.flatMap_cons, List.flatMap_append, ih, List.flatMap_append, flatMap_uses_ofExpr?,
      flatMap_uses_stmts]
    rfl

/-! ### What is used at a site and inside it -/

theorem uses_expr (e : Expr) :
    e.uses = (Site.expr e).valueNames ++ (ofExprParts e).flatMap uses := by
  cases e with
  | literal | this | super | omitted | ident => rfl
  | binary | assign | index | optionalIndex | conditional | unary | member | optionalMember | cast
  | satisfies | nonNull | await | paren | spread | call | optionalCall | new | array | template
  | sequence =>
    rw [ofExprParts, flatMap_uses_ofExprs]
    simp only [Expr.uses, usesOfExprs, valueNames, List.nil_append, List.append_nil,
      List.append_assoc]
  | object s ps => exact (flatMap_uses_properties ps).symm
  | arrow s f | function s f | cls s f => exact (List.append_nil _).symm
  | yield s a delegate => exact (flatMap_uses_ofExpr? a).symm

theorem uses_pattern (p : Pattern) : p.uses = (ofPatternParts p).flatMap uses := by
  cases p with
  | ident | omitted => rfl
  | array s ps rest =>
    rw [ofPatternParts, ofPatterns_append, List.flatMap_append, flatMap_uses_ofPatterns,
      flatMap_uses_ofPattern?]
    rfl
  | object s fs rest =>
    rw [ofPatternParts, List.flatMap_append, flatMap_uses_ofPattern?]
    exact congrArg (· ++ _) (flatMap_uses_fields fs).symm
  | withDefault s p e =>
    rw [ofPatternParts, List.flatMap_append, flatMap_uses_ofPatterns, flatMap_uses_ofExprs,
      usesOfPatterns, usesOfPatterns, usesOfExprs, usesOfExprs, List.append_nil, List.append_nil]
    rfl

theorem uses_stmt (t : Stmt) : t.uses = (ofStmtParts t).flatMap uses := by
  cases t with
  | break_ | continue_ | empty | debugger | import_ => rfl
  | decl s d | labeled s label d => exact (List.append_nil _).symm
  | return_ s e => exact (flatMap_uses_ofExpr? e).symm
  | block s stmts => exact (flatMap_uses_stmts stmts).symm
  | switch s e cases =>
    rw [ofStmtParts, List.flatMap_append, flatMap_uses_ofExprs, usesOfExprs, usesOfExprs,
      List.append_nil]
    exact congrArg (_ ++ ·) (flatMap_uses_cases cases).symm
  | expr | throw | ifThen | while_ | doWhile | ifElse | for_ | forIn | forOf | try_ =>
    simp only [ofStmtParts, List.flatMap_append, flatMap_uses_ofExprs, flatMap_uses_ofExpr?,
      flatMap_uses_ofForHead, flatMap_uses_stmts, flatMap_uses_ofPattern?, flatMap_uses_ofBody,
      List.flatMap_cons, List.flatMap_nil, Stmt.uses, usesOfExprs, uses, List.append_nil,
      List.append_assoc]

theorem uses_decl {d : Decl} (h : (Site.decl d).IsSound) :
    d.uses = (ofDeclParts d).flatMap uses := by
  cases d with
  | function f | cls c => exact (List.append_nil _).symm
  | vars kind ds isDeclare => exact (flatMap_uses_ofDeclarators ds).symm
  | enumeration name ms isConst isDeclare => exact (flatMap_uses_enumMembers h).symm
  | namespace_ n => exact (flatMap_uses_ofNamespace n).symm
  | interface | alias_ => rfl

/-- What is used at a site is used by the site itself or inside it. -/
theorem uses_eq {s : Site} (h : s.IsSound) :
    s.uses = s.valueNames ++ s.children.flatMap uses := by
  cases s with
  | item i => cases i <;> exact (List.append_nil _).symm
  | import_ d => rfl
  | export_ i =>
    cases i with
    | exportNamed s specifiers source typeOnly =>
      cases source <;> cases typeOnly <;> exact (List.append_nil _).symm
    | exportDefault s e => exact ((flatMap_uses_ofExprs [e]).trans (List.append_nil _)).symm
    | exportDefaultDecl s declSpan d | exportDecl s declSpan d => exact (List.append_nil _).symm
    | exportAll | import_ | stmt => rfl
  | stmt t => exact uses_stmt t
  | decl d => exact uses_decl h
  | expr e => exact uses_expr e
  | pattern p => exact uses_pattern p
  | function f | arrow f => exact (flatMap_uses_ofFunc f).symm
  | cls c =>
    obtain ⟨name, tps, base, baseArgs, interfaces, ms, a, d⟩ := c
    rw [children, List.flatMap_append, flatMap_uses_ofExpr?, flatMap_uses_members]
    rfl
  | key k =>
    cases k with
    | computed e => exact ((flatMap_uses_ofExprs [e]).trans (List.append_nil _)).symm
    | ident | string | number => rfl

/-- The names that a walk finds are those that are used. -/
theorem flatMap_valueNames_walk {s : Site} (h : s.Deep) : s.walk.flatMap valueNames = s.uses := by
  induction s using induction_children with
  | h s ih =>
    obtain ⟨hs, hchildren⟩ := deep_iff.1 h
    rw [walk_eq, List.flatMap_cons, List.flatMap_assoc, uses_eq hs]
    congr 1
    exact List.flatMap_congr fun t ht => ih t ht (hchildren t ht)

end Site

/-- The names that the walk over a module finds are those that it uses. -/
theorem Program.valueNames_eq_uses {p : Program} (h : ∀ i ∈ p.items, (Site.item i).Deep) :
    p.valueNames = p.uses := by
  rw [valueNames, sites, List.flatMap_assoc, uses, ← Site.flatMap_uses_items, List.flatMap_map]
  exact List.flatMap_congr fun i hi => Site.flatMap_valueNames_walk (h i hi)

end TypeStrip
