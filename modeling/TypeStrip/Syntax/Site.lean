import TypeStrip.Syntax.Tree

/-!
The parts of a module that may run, as a tree of sites. Types are no part of it, and neither are
the names of declarations. Every analysis of a module is a walk over its sites.
-/
namespace TypeStrip

/-- A part of a module at which an analysis may look. An item that exports something is a site
twice: as an item, and as an export. -/
inductive Site where
  | item (item : Item)
  | import_ (decl : Import)
  | export_ (item : Item)
  | stmt (stmt : Stmt)
  | decl (decl : Decl)
  | expr (expr : Expr)
  | pattern (pattern : Pattern)
  | function (func : Func)
  | arrow (func : Func)
  | cls (cls : Class)
  | key (key : Key)

namespace Site

def ofExprs (es : List Expr) : List Site :=
  es.filterMap fun
    | .omitted => none
    | e => some (.expr e)

def ofExpr? (e : Option Expr) : List Site := ofExprs e.toList

def ofPatterns (ps : List Pattern) : List Site :=
  ps.filterMap fun
    | .omitted => none
    | p => some (.pattern p)

def ofBody : Body → List Site
  | .absent => []
  | .block _ stmts => stmts.map .stmt
  | .value e => ofExprs [e]

def ofFunc : Func → List Site
  | .mk _ _ params _ body _ _ _ =>
    params.flatMap (fun | .mk p _ _ _ _ _ => ofPatterns [p]) ++ ofBody body

def ofDeclarators (ds : List Declarator) : List Site :=
  ds.flatMap fun | .mk p _ init => ofPatterns [p] ++ ofExpr? init

def ofForHead : ForHead → List Site
  | .none => []
  | .vars _ ds => ofDeclarators ds
  | .expr e => ofExprs [e]

def ofProperty : Property → List Site
  | .pair k v _ => .key k :: ofExprs [v]
  | .method k _ f => [.key k, .function f]
  | .spread e => ofExprs [e]

def ofMember : Member → List Site
  | .constructor _ f => [.function f]
  | .method _ k _ f _ => [.key k, .function f]
  | .field _ k _ init _ => .key k :: ofExpr? init
  | .index .. | .call .. => []

def ofEnumMember : Member → List Site
  | .field _ _ _ init _ => ofExpr? init
  | _ => []

def ofNamespace : Namespace → List Site
  | .block _ items _ => items.map .item
  | .dotted _ _ inner _ => ofNamespace inner
  | .ambient .. => []

def ofExprParts : Expr → List Site
  | .literal .. | .ident .. | .this .. | .super .. | .omitted => []
  | .binary _ a _ b | .assign _ a _ b | .index _ a b | .optionalIndex _ a b => ofExprs [a, b]
  | .unary _ _ a | .cast _ a _ | .satisfies _ a _ | .nonNull _ a | .await _ a | .paren _ a
  | .spread _ a | .member _ a _ | .optionalMember _ a _ => ofExprs [a]
  | .call _ f _ args | .new _ f _ args | .optionalCall _ f _ args => ofExprs (f :: args)
  | .array _ es | .template _ _ es | .sequence _ es => ofExprs es
  | .object _ ps => ps.flatMap ofProperty
  | .arrow _ f => [.arrow f]
  | .function _ f => [.function f]
  | .cls _ c => [.cls c]
  | .conditional _ a b c => ofExprs [a, b, c]
  | .yield _ a _ => ofExpr? a

def ofPatternParts : Pattern → List Site
  | .ident .. | .omitted => []
  | .array _ ps rest => ofPatterns (ps ++ rest.toList)
  | .object _ fs rest =>
    fs.flatMap (fun | .mk k p _ => .key k :: ofPatterns [p]) ++ ofPatterns rest.toList
  | .withDefault _ p e => ofPatterns [p] ++ ofExprs [e]

/-- The parts of a statement. The test of a `do` loop comes before its body. -/
def ofStmtParts : Stmt → List Site
  | .expr _ e | .throw _ e => ofExprs [e]
  | .decl _ d => [.decl d]
  | .return_ _ e => ofExpr? e
  | .ifThen _ e s | .while_ _ e s | .doWhile _ s e => ofExprs [e] ++ [.stmt s]
  | .ifElse _ e s t => ofExprs [e] ++ [.stmt s, .stmt t]
  | .for_ _ head test update body =>
    ofForHead head ++ ofExpr? test ++ ofExpr? update ++ [.stmt body]
  | .forIn _ head e body | .forOf _ head e body _ => ofForHead head ++ ofExprs [e] ++ [.stmt body]
  | .block _ stmts => stmts.map .stmt
  | .try_ _ _ stmts param handler finalizer =>
    stmts.map .stmt ++ ofPatterns param.toList ++ ofBody handler ++ ofBody finalizer
  | .switch _ e cases =>
    ofExprs [e] ++ cases.flatMap (fun | .mk test body => ofExpr? test ++ body.map .stmt)
  | .labeled _ _ s => [.stmt s]
  | .import_ _ d => [.import_ d]
  | .break_ .. | .continue_ .. | .empty .. | .debugger .. => []

def ofDeclParts : Decl → List Site
  | .function f => [.function f]
  | .cls c => [.cls c]
  | .vars _ ds _ => ofDeclarators ds
  | .enumeration _ members _ _ => members.flatMap ofEnumMember
  | .namespace_ n => ofNamespace n
  | .interface .. | .alias_ .. => []

def ofExport : Item → List Site
  | .exportDefault _ e => ofExprs [e]
  | .exportDefaultDecl _ _ d | .exportDecl _ _ d => [.decl d]
  | .exportNamed .. | .exportAll .. | .import_ .. | .stmt .. => []

def children : Site → List Site
  | .item (.import_ _ d) => [.import_ d]
  | .item (.stmt _ s) => [.stmt s]
  | .item i => [.export_ i]
  | .import_ _ => []
  | .export_ i => ofExport i
  | .stmt s => ofStmtParts s
  | .decl d => ofDeclParts d
  | .expr e => ofExprParts e
  | .pattern p => ofPatternParts p
  | .function f | .arrow f => ofFunc f
  | .cls (.mk _ _ base _ _ members _ _) => ofExpr? base ++ members.flatMap ofMember
  | .key (.computed e) => ofExprs [e]
  | .key _ => []

noncomputable def size : Site → Nat
  | .item i => 2 * sizeOf i + 1
  | .import_ _ => 0
  | .export_ i => 2 * sizeOf i
  | .stmt s => 2 * sizeOf s
  | .decl d => 2 * sizeOf d
  | .expr e => 2 * sizeOf e
  | .pattern p => 2 * sizeOf p
  | .function f | .arrow f => 2 * sizeOf f
  | .cls c => 2 * sizeOf c
  | .key k => 2 * sizeOf k

/-! ### Sites get smaller inwards -/

theorem size_lt_of_mem_ofExprs {es : List Expr} {s : Site} (h : s ∈ ofExprs es) :
    s.size < 2 * sizeOf es := by
  simp only [ofExprs, List.mem_filterMap] at h
  obtain ⟨e, he, hs⟩ := h
  have := List.sizeOf_lt_of_mem he
  cases e <;> simp at hs <;> subst hs <;> simp only [size] <;> omega

/-- A site of a list of expressions is that of one of them. -/
theorem exists_mem_of_mem_ofExprs {es : List Expr} {s : Site} (h : s ∈ ofExprs es) :
    ∃ e ∈ es, s.size ≤ 2 * sizeOf e := by
  simp only [ofExprs, List.mem_filterMap] at h
  obtain ⟨e, he, hs⟩ := h
  refine ⟨e, he, ?_⟩
  cases e <;> simp at hs <;> subst hs <;> simp only [size] <;> omega

theorem size_le_of_mem_ofExprs_singleton {e : Expr} {s : Site} (h : s ∈ ofExprs [e]) :
    s.size ≤ 2 * sizeOf e := by
  cases e <;> simp [ofExprs] at h <;> subst h <;> simp only [size] <;> omega

theorem size_lt_of_mem_ofExpr? {e : Option Expr} {s : Site} (h : s ∈ ofExpr? e) :
    s.size < 2 * sizeOf e := by
  cases e with
  | none => simp [ofExpr?, ofExprs] at h
  | some e =>
    have := size_le_of_mem_ofExprs_singleton h
    simp only [Option.some.sizeOf_spec]
    omega

theorem size_lt_of_mem_ofPatterns {ps : List Pattern} {s : Site} (h : s ∈ ofPatterns ps) :
    s.size < 2 * sizeOf ps := by
  simp only [ofPatterns, List.mem_filterMap] at h
  obtain ⟨p, hp, hs⟩ := h
  have := List.sizeOf_lt_of_mem hp
  cases p <;> simp at hs <;> subst hs <;> simp only [size] <;> omega

theorem size_le_of_mem_ofPatterns_singleton {p : Pattern} {s : Site}
    (h : s ∈ ofPatterns [p]) : s.size ≤ 2 * sizeOf p := by
  cases p <;> simp [ofPatterns] at h <;> subst h <;> simp only [size] <;> omega

theorem size_lt_of_mem_ofPatterns_toList {p : Option Pattern} {s : Site}
    (h : s ∈ ofPatterns p.toList) : s.size < 2 * sizeOf p := by
  cases p with
  | none => simp [ofPatterns] at h
  | some p =>
    have := size_le_of_mem_ofPatterns_singleton h
    simp only [Option.some.sizeOf_spec]
    omega

theorem size_lt_of_mem_stmts {stmts : List Stmt} {s : Site} (h : s ∈ stmts.map Site.stmt) :
    s.size < 2 * sizeOf stmts := by
  obtain ⟨t, ht, rfl⟩ := List.mem_map.1 h
  have := List.sizeOf_lt_of_mem ht
  simp only [size]
  omega

theorem size_lt_of_mem_ofBody {b : Body} {s : Site} (h : s ∈ ofBody b) :
    s.size < 2 * sizeOf b := by
  cases b with
  | absent => simp [ofBody] at h
  | block span stmts =>
    have := size_lt_of_mem_stmts h
    simp only [Body.block.sizeOf_spec]
    omega
  | value e =>
    have := size_le_of_mem_ofExprs_singleton h
    simp only [Body.value.sizeOf_spec]
    omega

theorem size_lt_of_mem_ofFunc {f : Func} {s : Site} (h : s ∈ ofFunc f) :
    s.size < 2 * sizeOf f := by
  obtain ⟨name, tps, ps, ret, body, a, g, d⟩ := f
  simp only [ofFunc, List.mem_append, List.mem_flatMap] at h
  simp only [Func.mk.sizeOf_spec]
  rcases h with ⟨⟨p, t, o, r, acc, ro⟩, hp, hs⟩ | h
  · have := List.sizeOf_lt_of_mem hp
    have := size_le_of_mem_ofPatterns_singleton hs
    simp only [Param.mk.sizeOf_spec] at *
    omega
  · have := size_lt_of_mem_ofBody h
    omega

theorem size_lt_of_mem_ofDeclarators {ds : List Declarator} {s : Site}
    (h : s ∈ ofDeclarators ds) : s.size < 2 * sizeOf ds := by
  simp only [ofDeclarators, List.mem_flatMap] at h
  obtain ⟨⟨p, t, init⟩, hd, hs⟩ := h
  have := List.sizeOf_lt_of_mem hd
  simp only [Declarator.mk.sizeOf_spec] at this
  rcases List.mem_append.1 hs with hs | hs
  · have := size_le_of_mem_ofPatterns_singleton hs
    omega
  · have := size_lt_of_mem_ofExpr? hs
    omega

theorem size_lt_of_mem_ofForHead {head : ForHead} {s : Site} (h : s ∈ ofForHead head) :
    s.size < 2 * sizeOf head := by
  cases head with
  | none => simp [ofForHead] at h
  | vars kind ds =>
    have := size_lt_of_mem_ofDeclarators h
    simp only [ForHead.vars.sizeOf_spec]
    omega
  | expr e =>
    have := size_le_of_mem_ofExprs_singleton h
    simp only [ForHead.expr.sizeOf_spec]
    omega

theorem size_lt_of_mem_ofProperty {p : Property} {s : Site} (h : s ∈ ofProperty p) :
    s.size < 2 * sizeOf p := by
  cases p with
  | pair k v b =>
    simp only [Property.pair.sizeOf_spec]
    rcases List.mem_cons.1 h with rfl | h
    · simp only [size]; omega
    · have := size_le_of_mem_ofExprs_singleton h
      omega
  | method k kind f =>
    simp only [Property.method.sizeOf_spec]
    simp only [ofProperty, List.mem_cons, List.not_mem_nil, or_false] at h
    rcases h with rfl | rfl <;> simp only [size] <;> omega
  | spread e =>
    have := size_le_of_mem_ofExprs_singleton h
    simp only [Property.spread.sizeOf_spec]
    omega

theorem size_lt_of_mem_ofMember {m : Member} {s : Site} (h : s ∈ ofMember m) :
    s.size < 2 * sizeOf m := by
  cases m with
  | constructor span f =>
    simp only [ofMember, List.mem_cons, List.not_mem_nil, or_false] at h
    subst h
    simp only [size, Member.constructor.sizeOf_spec]
    omega
  | method span k kind f mods =>
    simp only [Member.method.sizeOf_spec]
    simp only [ofMember, List.mem_cons, List.not_mem_nil, or_false] at h
    rcases h with rfl | rfl <;> simp only [size] <;> omega
  | field span k type init mods =>
    simp only [Member.field.sizeOf_spec]
    rcases List.mem_cons.1 h with rfl | h
    · simp only [size]; omega
    · have := size_lt_of_mem_ofExpr? h
      omega
  | index | call => simp [ofMember] at h

theorem size_lt_of_mem_ofEnumMember {m : Member} {s : Site} (h : s ∈ ofEnumMember m) :
    s.size < 2 * sizeOf m := by
  cases m with
  | field span k type init mods =>
    have := size_lt_of_mem_ofExpr? h
    simp only [Member.field.sizeOf_spec]
    omega
  | constructor | method | index | call => simp [ofEnumMember] at h

theorem size_lt_of_mem_ofNamespace {n : Namespace} {s : Site} (h : s ∈ ofNamespace n) :
    s.size < 2 * sizeOf n := by
  match n with
  | .block name items d =>
    simp only [ofNamespace, List.mem_map] at h
    obtain ⟨i, hi, rfl⟩ := h
    have := List.sizeOf_lt_of_mem hi
    simp only [size, Namespace.block.sizeOf_spec]
    omega
  | .dotted name span inner d =>
    simp only [ofNamespace] at h
    have := size_lt_of_mem_ofNamespace h
    simp only [Namespace.dotted.sizeOf_spec]
    omega
  | .ambient name d => simp [ofNamespace] at h

theorem size_lt_of_mem_ofExprParts {e : Expr} {s : Site} (h : s ∈ ofExprParts e) :
    s.size < 2 * sizeOf e := by
  cases e with
  | object span ps =>
    obtain ⟨p, hp, hs⟩ := List.mem_flatMap.1 h
    have := List.sizeOf_lt_of_mem hp
    have := size_lt_of_mem_ofProperty hs
    simp only [Expr.object.sizeOf_spec]
    omega
  | yield span a d =>
    have := size_lt_of_mem_ofExpr? h
    simp only [Expr.yield.sizeOf_spec]
    omega
  | arrow span f | function span f | cls span f =>
    simp only [ofExprParts, List.mem_cons, List.not_mem_nil, or_false] at h
    subst h
    simp only [size, Expr.arrow.sizeOf_spec, Expr.function.sizeOf_spec, Expr.cls.sizeOf_spec]
    omega
  | literal | ident | this | super | omitted => simp [ofExprParts] at h
  | array span es | template span texts es | sequence span es =>
    have := size_lt_of_mem_ofExprs h
    simp only [Expr.array.sizeOf_spec, Expr.template.sizeOf_spec, Expr.sequence.sizeOf_spec]
    omega
  | call span f ts args | optionalCall span f ts args | new span f ts args =>
    obtain ⟨e, he, hs⟩ := exists_mem_of_mem_ofExprs h
    simp only [Expr.call.sizeOf_spec, Expr.optionalCall.sizeOf_spec, Expr.new.sizeOf_spec]
    rcases List.mem_cons.1 he with rfl | he
    · omega
    · have := List.sizeOf_lt_of_mem he
      omega
  | _ =>
    obtain ⟨e, he, hs⟩ := exists_mem_of_mem_ofExprs h
    simp only [List.mem_cons, List.not_mem_nil, or_false] at he
    rcases he with rfl | rfl | rfl <;> simp <;> omega

theorem size_lt_of_mem_ofPatternParts {p : Pattern} {s : Site} (h : s ∈ ofPatternParts p) :
    s.size < 2 * sizeOf p := by
  cases p with
  | ident | omitted => simp [ofPatternParts] at h
  | array span ps rest =>
    simp only [ofPatternParts, ofPatterns, List.filterMap_append, List.mem_append] at h
    simp only [Pattern.array.sizeOf_spec]
    rcases h with h | h
    · have := size_lt_of_mem_ofPatterns h
      omega
    · have := size_lt_of_mem_ofPatterns_toList h
      omega
  | object span fs rest =>
    simp only [ofPatternParts, List.mem_append, List.mem_flatMap] at h
    simp only [Pattern.object.sizeOf_spec]
    rcases h with ⟨⟨k, v, b⟩, hf, hs⟩ | h
    · have := List.sizeOf_lt_of_mem hf
      simp only [PatternField.mk.sizeOf_spec] at this
      rcases List.mem_cons.1 hs with rfl | hs
      · simp only [size]; omega
      · have := size_le_of_mem_ofPatterns_singleton hs
        omega
    · have := size_lt_of_mem_ofPatterns_toList h
      omega
  | withDefault span p e =>
    simp only [ofPatternParts, List.mem_append] at h
    simp only [Pattern.withDefault.sizeOf_spec]
    rcases h with h | h
    · have := size_le_of_mem_ofPatterns_singleton h
      omega
    · have := size_le_of_mem_ofExprs_singleton h
      omega

theorem size_lt_of_mem_ofStmtParts {t : Stmt} {s : Site} (h : s ∈ ofStmtParts t) :
    s.size < 2 * sizeOf t := by
  cases t with
  | break_ | continue_ | empty | debugger => simp [ofStmtParts] at h
  | expr span e | throw span e =>
    have := size_le_of_mem_ofExprs_singleton h
    simp only [Stmt.expr.sizeOf_spec, Stmt.throw.sizeOf_spec]
    omega
  | decl span d | labeled span label d | import_ span d =>
    simp only [ofStmtParts, List.mem_cons, List.not_mem_nil, or_false] at h
    subst h
    simp only [size, Stmt.decl.sizeOf_spec, Stmt.labeled.sizeOf_spec, Stmt.import_.sizeOf_spec]
    omega
  | return_ span e =>
    have := size_lt_of_mem_ofExpr? h
    simp only [Stmt.return_.sizeOf_spec]
    omega
  | ifThen span e t | while_ span e t | doWhile span t e =>
    simp only [ofStmtParts, List.mem_append, List.mem_cons, List.not_mem_nil, or_false] at h
    simp only [Stmt.ifThen.sizeOf_spec, Stmt.while_.sizeOf_spec, Stmt.doWhile.sizeOf_spec]
    rcases h with h | rfl
    · have := size_le_of_mem_ofExprs_singleton h
      omega
    · simp only [size]
      omega
  | ifElse span e t u =>
    simp only [ofStmtParts, List.mem_append, List.mem_cons, List.not_mem_nil, or_false] at h
    simp only [Stmt.ifElse.sizeOf_spec]
    rcases h with h | rfl | rfl
    · have := size_le_of_mem_ofExprs_singleton h
      omega
    · simp only [size]
      omega
    · simp only [size]
      omega
  | for_ span head test update body =>
    simp only [ofStmtParts, List.mem_append, List.mem_cons, List.not_mem_nil, or_false] at h
    simp only [Stmt.for_.sizeOf_spec]
    rcases h with ((h | h) | h) | rfl
    · have := size_lt_of_mem_ofForHead h
      omega
    · have := size_lt_of_mem_ofExpr? h
      omega
    · have := size_lt_of_mem_ofExpr? h
      omega
    · simp only [size]
      omega
  | forIn span head e body | forOf span head e body isAwait =>
    simp only [ofStmtParts, List.mem_append, List.mem_cons, List.not_mem_nil, or_false] at h
    simp only [Stmt.forIn.sizeOf_spec, Stmt.forOf.sizeOf_spec]
    rcases h with (h | h) | rfl
    · have := size_lt_of_mem_ofForHead h
      omega
    · have := size_le_of_mem_ofExprs_singleton h
      omega
    · simp only [size]
      omega
  | block span stmts =>
    have := size_lt_of_mem_stmts h
    simp only [Stmt.block.sizeOf_spec]
    omega
  | try_ span blockSpan stmts param handler finalizer =>
    simp only [ofStmtParts, List.mem_append] at h
    simp only [Stmt.try_.sizeOf_spec]
    rcases h with ((h | h) | h) | h
    · have := size_lt_of_mem_stmts h
      omega
    · have := size_lt_of_mem_ofPatterns_toList h
      omega
    · have := size_lt_of_mem_ofBody h
      omega
    · have := size_lt_of_mem_ofBody h
      omega
  | switch span e cases =>
    simp only [ofStmtParts, List.mem_append, List.mem_flatMap] at h
    simp only [Stmt.switch.sizeOf_spec]
    rcases h with h | ⟨⟨test, body⟩, hc, hs⟩
    · have := size_le_of_mem_ofExprs_singleton h
      omega
    · have := List.sizeOf_lt_of_mem hc
      simp only [Case.mk.sizeOf_spec] at this
      rcases List.mem_append.1 hs with hs | hs
      · have := size_lt_of_mem_ofExpr? hs
        omega
      · have := size_lt_of_mem_stmts hs
        omega

theorem size_lt_of_mem_ofDeclParts {d : Decl} {s : Site} (h : s ∈ ofDeclParts d) :
    s.size < 2 * sizeOf d := by
  cases d with
  | function f | cls f =>
    simp only [ofDeclParts, List.mem_cons, List.not_mem_nil, or_false] at h
    subst h
    simp only [size, Decl.function.sizeOf_spec, Decl.cls.sizeOf_spec]
    omega
  | vars kind ds isDeclare =>
    have := size_lt_of_mem_ofDeclarators h
    simp only [Decl.vars.sizeOf_spec]
    omega
  | enumeration name members isConst isDeclare =>
    obtain ⟨m, hm, hs⟩ := List.mem_flatMap.1 h
    have := List.sizeOf_lt_of_mem hm
    have := size_lt_of_mem_ofEnumMember hs
    simp only [Decl.enumeration.sizeOf_spec]
    omega
  | namespace_ n =>
    have := size_lt_of_mem_ofNamespace h
    simp only [Decl.namespace_.sizeOf_spec]
    omega
  | interface | alias_ => simp [ofDeclParts] at h

theorem size_lt_of_mem_ofExport {i : Item} {s : Site} (h : s ∈ ofExport i) :
    s.size < 2 * sizeOf i := by
  cases i with
  | exportDefault span e =>
    have := size_le_of_mem_ofExprs_singleton h
    simp only [Item.exportDefault.sizeOf_spec]
    omega
  | exportDefaultDecl span declSpan d | exportDecl span declSpan d =>
    simp only [ofExport, List.mem_cons, List.not_mem_nil, or_false] at h
    subst h
    simp only [size, Item.exportDefaultDecl.sizeOf_spec, Item.exportDecl.sizeOf_spec]
    omega
  | exportNamed | exportAll | import_ | stmt => simp [ofExport] at h

/-- What is inside a site is smaller than the site, which is what every walk ends by. -/
theorem size_lt_of_mem_children {s t : Site} (h : t ∈ s.children) : t.size < s.size := by
  cases s with
  | item i =>
    cases i <;> simp only [children, List.mem_cons, List.not_mem_nil, or_false] at h <;>
      subst h <;> simp only [size, Item.import_.sizeOf_spec, Item.stmt.sizeOf_spec] <;> omega
  | import_ d => simp [children] at h
  | export_ i => exact size_lt_of_mem_ofExport h
  | stmt s => exact size_lt_of_mem_ofStmtParts h
  | decl d => exact size_lt_of_mem_ofDeclParts h
  | expr e => exact size_lt_of_mem_ofExprParts h
  | pattern p => exact size_lt_of_mem_ofPatternParts h
  | function f | arrow f => exact size_lt_of_mem_ofFunc h
  | cls c =>
    obtain ⟨name, tps, base, baseArgs, interfaces, members, a, d⟩ := c
    simp only [children, List.mem_append, List.mem_flatMap] at h
    change t.size < 2 * sizeOf (Class.mk name tps base baseArgs interfaces members a d)
    simp only [Class.mk.sizeOf_spec]
    rcases h with h | ⟨m, hm, hs⟩
    · have := size_lt_of_mem_ofExpr? h
      omega
    · have := List.sizeOf_lt_of_mem hm
      have := size_lt_of_mem_ofMember hs
      omega
  | key k =>
    cases k with
    | computed e =>
      have := size_le_of_mem_ofExprs_singleton h
      change t.size < 2 * sizeOf (Key.computed e)
      simp only [Key.computed.sizeOf_spec]
      omega
    | ident | string | number => simp [children] at h

/-- All sites inside a site, itself first, each before what is inside it. -/
def walk (s : Site) : List Site :=
  s :: s.children.attach.flatMap fun ⟨t, _⟩ => t.walk
termination_by s.size
decreasing_by exact size_lt_of_mem_children (by assumption)

end Site

def Program.sites (p : Program) : List Site := p.items.flatMap fun i => (Site.item i).walk

end TypeStrip
