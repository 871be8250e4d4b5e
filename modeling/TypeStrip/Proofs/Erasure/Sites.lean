import TypeStrip.Lowering.Reference
import TypeStrip.Proofs.Erasure.Names

/-! The analyses of a module see the same sites when parts are left out. -/
namespace TypeStrip

namespace Site
variable (r : Reduction)

def reduce : Site → Site
  | .item i => .item (i.reduce r)
  | .import_ d => .import_ d
  | .export_ i => .export_ (i.reduce r)
  | .stmt s => .stmt (s.reduce r)
  | .decl d => .decl (d.reduce r)
  | .expr e => .expr (e.reduce r)
  | .pattern p => .pattern (p.reduce r)
  | .function f => .function (f.reduce r)
  | .arrow f => .arrow (f.reduce r)
  | .cls c => .cls (c.reduce r)
  | .key k => .key (k.reduce r)

def isWritten : Site → Bool
  | .expr .omitted => false
  | _ => true

/-- The sites with parts left out, those apart at which nothing is left. -/
def reduceAll (ss : List Site) : List Site := (ss.map (reduce r)).filter isWritten

/-! ### Parts of parts -/

@[simp] theorem reduceAll_nil : reduceAll r [] = [] := rfl

@[simp] theorem reduceAll_append (ss ts : List Site) :
    reduceAll r (ss ++ ts) = reduceAll r ss ++ reduceAll r ts := by
  simp [reduceAll]

theorem reduceAll_flatMap {α : Type} (as : List α) (f : α → List Site) :
    reduceAll r (as.flatMap f) = as.flatMap fun a => reduceAll r (f a) := by
  induction as with
  | nil => rfl
  | cons a as ih => rw [List.flatMap_cons, reduceAll_append, ih, List.flatMap_cons]

theorem reduceAll_cons {s : Site} (h : (s.reduce r).isWritten = true) (ss : List Site) :
    reduceAll r (s :: ss) = s.reduce r :: reduceAll r ss := by
  rw [reduceAll, List.map_cons, List.filter_cons_of_pos h, reduceAll]

/-- Sites of a form that is always written. -/
theorem reduceAll_map {α : Type} (as : List α) (f : α → Site)
    (h : ∀ a, ((f a).reduce r).isWritten = true) :
    reduceAll r (as.map f) = as.map fun a => (f a).reduce r := by
  induction as with
  | nil => rfl
  | cons a as ih => rw [List.map_cons, reduceAll_cons r (h a), ih, List.map_cons]

theorem ofExprs_cons (e : Expr) (es : List Expr) :
    ofExprs (e :: es) = ofExprs [e] ++ ofExprs es := by
  cases e <;> rfl

theorem ofPatterns_cons (p : Pattern) (ps : List Pattern) :
    ofPatterns (p :: ps) = ofPatterns [p] ++ ofPatterns ps := by
  cases p <;> rfl

theorem ofPatterns_append (ps qs : List Pattern) :
    ofPatterns (ps ++ qs) = ofPatterns ps ++ ofPatterns qs :=
  List.filterMap_append

@[simp] theorem ofExprs_reduce (es : List Expr) :
    ofExprs (es.map (Expr.reduce r)) = reduceAll r (ofExprs es) := by
  induction es with
  | nil => rfl
  | cons e es ih =>
    have hc (e : Expr) (es : List Expr) :
        ofExprs (e :: es) = [Site.expr e].filter isWritten ++ ofExprs es := by
      cases e <;> rfl
    rw [List.map_cons, hc, ih, hc e, reduceAll_append]
    congr 1
    cases e <;> rfl

@[simp] theorem ofExpr?_reduce (e : Option Expr) :
    ofExpr? (e.map (Expr.reduce r)) = reduceAll r (ofExpr? e) := by
  rw [ofExpr?, ofExpr?, ← ofExprs_reduce]
  cases e <;> rfl

theorem ofExprs_singleton_reduce (e : Expr) :
    ofExprs [e.reduce r] = reduceAll r (ofExprs [e]) := ofExprs_reduce r [e]

@[simp] theorem ofPatterns_reduce (ps : List Pattern) :
    ofPatterns (ps.map (Pattern.reduce r)) = reduceAll r (ofPatterns ps) := by
  induction ps with
  | nil => rfl
  | cons p ps ih =>
    rw [List.map_cons, ofPatterns_cons, ih, ofPatterns_cons p, reduceAll_append]
    cases p <;> rfl

theorem ofPatterns_singleton_reduce (p : Pattern) :
    ofPatterns [p.reduce r] = reduceAll r (ofPatterns [p]) := ofPatterns_reduce r [p]

theorem ofPatterns_toList_reduce (p : Option Pattern) :
    ofPatterns (p.map (Pattern.reduce r)).toList = reduceAll r (ofPatterns p.toList) := by
  rw [← ofPatterns_reduce]
  cases p <;> rfl

theorem ofStmts_reduce (stmts : List Stmt) :
    (stmts.map (Stmt.reduce r)).map Site.stmt = reduceAll r (stmts.map Site.stmt) := by
  rw [reduceAll_map r stmts Site.stmt fun _ => rfl, List.map_map]
  rfl

theorem ofBody_reduce (b : Body) : ofBody (b.reduce r) = reduceAll r (ofBody b) := by
  cases b with
  | absent => rfl
  | block s stmts =>
    rw [Body.reduce, ofBody, reduceStmts_eq_map, ofStmts_reduce, ofBody]
  | value e => exact ofExprs_singleton_reduce r e

theorem ofFunc_reduce (f : Func) : ofFunc (f.reduce r) = reduceAll r (ofFunc f) := by
  obtain ⟨name, tps, ps, ret, body, a, g, d⟩ := f
  rw [Func.reduce, ofFunc, ofFunc, reduceAll_append, ofBody_reduce, reduceParams_eq_map,
    List.flatMap_map, reduceAll_flatMap]
  congr 2
  funext p
  cases p with
  | mk p => exact ofPatterns_singleton_reduce r p

theorem ofDeclarators_reduce (ds : List Declarator) :
    ofDeclarators (ds.map (Declarator.reduce r)) = reduceAll r (ofDeclarators ds) := by
  rw [ofDeclarators, ofDeclarators, List.flatMap_map, reduceAll_flatMap]
  congr 1
  funext d
  obtain ⟨p, type, init⟩ := d
  simp only [Declarator.reduce, reduceExpr?_eq_map, ofExpr?_reduce, ofPatterns_singleton_reduce,
    reduceAll_append]

theorem ofForHead_reduce (h : ForHead) : ofForHead (h.reduce r) = reduceAll r (ofForHead h) := by
  cases h with
  | none => rfl
  | vars kind ds =>
    rw [ForHead.reduce, ofForHead, reduceDeclarators_eq_map, ofDeclarators_reduce, ofForHead]
  | expr e => exact ofExprs_singleton_reduce r e

theorem ofProperty_reduce (p : Property) :
    ofProperty (p.reduce r) = reduceAll r (ofProperty p) := by
  cases p with
  | pair k v shorthand =>
    rw [Property.reduce, ofProperty, ofProperty, reduceAll_cons r rfl, ofExprs_singleton_reduce]
    rfl
  | method k kind f => rfl
  | spread e => exact ofExprs_singleton_reduce r e

theorem ofMember_reduce (m : Member) : ofMember (m.reduce r) = reduceAll r (ofMember m) := by
  cases m with
  | field s k type init mods =>
    rw [Member.reduce, ofMember, ofMember, reduceAll_cons r rfl, reduceExpr?_eq_map,
      ofExpr?_reduce]
    rfl
  | _ => rfl

theorem ofEnumMember_reduce (m : Member) :
    ofEnumMember (m.reduce r) = reduceAll r (ofEnumMember m) := by
  cases m with
  | field s k type init mods =>
    rw [Member.reduce, ofEnumMember, ofEnumMember, reduceExpr?_eq_map, ofExpr?_reduce]
  | _ => rfl

theorem ofNamespace_reduce (n : Namespace) :
    ofNamespace (n.reduce r) = reduceAll r (ofNamespace n) := by
  match n with
  | .block name items isDeclare =>
    rw [Namespace.reduce, ofNamespace, ofNamespace, reduceItems_eq_map,
      reduceAll_map r items Site.item fun _ => rfl, List.map_map]
    rfl
  | .dotted name s inner isDeclare =>
    rw [Namespace.reduce, ofNamespace, ofNamespace, ofNamespace_reduce inner]
  | .ambient name isDeclare => rfl

/-! ### Parts of whole sites -/

def wrapped? : Expr → Option Expr
  | .cast _ e _ | .satisfies _ e _ | .nonNull _ e => some e
  | _ => none

/-- A wrapper that is left out is replaced by what is inside it; of all other expressions the
parts are those that there were. -/
theorem ofExprParts_reduce (e : Expr) (h : r.wrappers = true → wrapped? e = none) :
    ofExprParts (e.reduce r) = reduceAll r (ofExprParts e) := by
  cases e with
  | cast s a t | satisfies s a t | nonNull s a =>
    have hr : r.wrappers = false := by
      cases hr : r.wrappers with
      | false => rfl
      | true => cases h hr
    simp only [Expr.reduce, hr, Bool.false_eq_true, if_false, ofExprParts,
      ofExprs_singleton_reduce]
  | object s ps =>
    simp only [Expr.reduce, ofExprParts, reduceProperties_eq_map, List.flatMap_map,
      reduceAll_flatMap, ofProperty_reduce]
  | literal | ident | this | super | omitted | arrow | function | cls => rfl
  | _ =>
    simp only [Expr.reduce, ofExprParts, reduceExprs_eq_map, reduceExpr?_eq_map, ofExpr?_reduce,
      ← ofExprs_reduce, List.map_cons, List.map_nil]

theorem ofPatternParts_reduce (p : Pattern) :
    ofPatternParts (p.reduce r) = reduceAll r (ofPatternParts p) := by
  cases p with
  | ident | omitted => rfl
  | array s ps rest =>
    simp only [Pattern.reduce, ofPatternParts, reducePatterns_eq_map, reducePattern?_eq_map,
      ← ofPatterns_reduce, List.map_append]
    cases rest <;> rfl
  | object s fs rest =>
    simp only [Pattern.reduce, ofPatternParts, reduceFields_eq_map, reducePattern?_eq_map,
      ofPatterns_toList_reduce, reduceAll_append, List.flatMap_map, reduceAll_flatMap]
    congr 2
    funext f
    cases f with
    | mk k p shorthand =>
      change Site.key (k.reduce r) :: ofPatterns [p.reduce r] = _
      rw [reduceAll_cons r rfl, ofPatterns_singleton_reduce]
      rfl
  | withDefault s p e =>
    simp only [Pattern.reduce, ofPatternParts, ofPatterns_singleton_reduce,
      ofExprs_singleton_reduce, reduceAll_append]

theorem ofStmtParts_reduce (t : Stmt) :
    ofStmtParts (t.reduce r) = reduceAll r (ofStmtParts t) := by
  have hs (t : Stmt) : [Site.stmt (t.reduce r)] = reduceAll r [.stmt t] := rfl
  cases t with
  | break_ | continue_ | empty | debugger | decl | labeled | import_ => rfl
  | switch s e cases =>
    simp only [Stmt.reduce, ofStmtParts, reduceCases_eq_map, ofExprs_singleton_reduce,
      reduceAll_append, List.flatMap_map, reduceAll_flatMap]
    congr 2
    funext c
    cases c with
    | mk test body =>
      simp only [Case.reduce, reduceExpr?_eq_map, reduceStmts_eq_map, ofExpr?_reduce,
        ofStmts_reduce, reduceAll_append]
  | ifElse s e yes no =>
    rw [Stmt.reduce, ofStmtParts, ofStmtParts, ofExprs_singleton_reduce, reduceAll_append]
    rfl
  | _ =>
    simp only [Stmt.reduce, ofStmtParts, reduceExpr?_eq_map, ofExpr?_reduce,
      ofExprs_singleton_reduce, ofForHead_reduce, ofBody_reduce, reduceStmts_eq_map,
      ofStmts_reduce, reducePattern?_eq_map, ofPatterns_toList_reduce, reduceAll_append, hs]

theorem ofDeclParts_reduce (d : Decl) :
    ofDeclParts (d.reduce r) = reduceAll r (ofDeclParts d) := by
  cases d with
  | function | cls | interface | alias_ => rfl
  | vars kind ds isDeclare =>
    rw [Decl.reduce, ofDeclParts, reduceDeclarators_eq_map, ofDeclarators_reduce, ofDeclParts]
  | enumeration name ms isConst isDeclare =>
    simp only [Decl.reduce, ofDeclParts, reduceMembers_eq_map, List.flatMap_map,
      reduceAll_flatMap, ofEnumMember_reduce]
  | namespace_ n => exact ofNamespace_reduce r n

theorem ofExport_reduce (i : Item) : ofExport (i.reduce r) = reduceAll r (ofExport i) := by
  cases i with
  | exportDefault s e => exact ofExprs_singleton_reduce r e
  | _ => rfl

def dropped? (s : Site) : Option Expr :=
  match s with
  | .expr e => if r.wrappers then wrapped? e else none
  | _ => none

/-- The sites inside a reduced site are the reduced sites inside it. -/
theorem children_reduce (s : Site) (h : s.dropped? r = none) :
    (s.reduce r).children = reduceAll r s.children := by
  cases s with
  | item i => cases i <;> rfl
  | import_ d => rfl
  | export_ i => exact ofExport_reduce r i
  | stmt t => exact ofStmtParts_reduce r t
  | decl d => exact ofDeclParts_reduce r d
  | expr e =>
    refine ofExprParts_reduce r e fun hr => ?_
    simpa only [dropped?, hr, if_true] using h
  | pattern p => exact ofPatternParts_reduce r p
  | function f | arrow f => exact ofFunc_reduce r f
  | cls c =>
    obtain ⟨name, tps, base, baseArgs, interfaces, ms, a, d⟩ := c
    simp only [reduce, Class.reduce, children, reduceExpr?_eq_map, ofExpr?_reduce,
      reduceMembers_eq_map, List.flatMap_map, reduceAll_append, reduceAll_flatMap,
      ofMember_reduce]
  | key k =>
    cases k with
    | computed e => exact ofExprs_singleton_reduce r e
    | _ => rfl

end Site
end TypeStrip
