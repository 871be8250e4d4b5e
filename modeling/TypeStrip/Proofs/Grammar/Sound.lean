import TypeStrip.Grammar.Inner
import TypeStrip.Lowering.Shape
import TypeStrip.Proofs.Erasure.Analysis

/-!
What holds of all that the grammar reads. The only nodes that it puts a condition on are the
shorthands of object literals, whose value is the variable that they name or an assignment to it,
and enums, whose members have names that are written out.
-/
namespace TypeStrip

/-- Whether an expression is the variable that a key names, or an assignment to it. -/
def Expr.isShorthandOf (k : Key) : Expr → Bool
  | .assign _ target _ _ => Lowering.isVariableOf k target
  | e => Lowering.isVariableOf k e

def Property.IsSound : Property → Prop
  | .pair k v true => v.isShorthandOf k = true
  | _ => True

def Member.isNamed : Member → Bool
  | .field _ k _ _ _ => k.staticName?.isSome
  | _ => false

namespace Site

/-- An object literal has sound properties, and an enum has members with names. -/
def IsSound : Site → Prop
  | .expr (.object _ ps) => ∀ p ∈ ps, p.IsSound
  | .decl (.enumeration _ ms _ _) => ∀ m ∈ ms, m.isNamed = true
  | _ => True

def Deep (s : Site) : Prop := ∀ t ∈ s.walk, t.IsSound

def AllDeep (ss : List Site) : Prop := ∀ s ∈ ss, s.Deep

theorem deep_iff {s : Site} : s.Deep ↔ s.IsSound ∧ AllDeep s.children := by
  rw [Deep, walk_eq, List.forall_mem_cons]
  simp only [List.mem_flatMap, AllDeep, Deep]
  exact and_congr_right fun _ =>
    ⟨fun h t ht u hu => h u ⟨t, ht, hu⟩, fun h u ⟨t, ht, hu⟩ => h t ht u hu⟩

@[simp] theorem allDeep_nil : AllDeep [] := fun _ h => nomatch h

@[simp] theorem allDeep_cons {s : Site} {ss : List Site} :
    AllDeep (s :: ss) ↔ s.Deep ∧ AllDeep ss := List.forall_mem_cons

@[simp] theorem allDeep_append {ss ts : List Site} :
    AllDeep (ss ++ ts) ↔ AllDeep ss ∧ AllDeep ts := List.forall_mem_append

@[simp] theorem allDeep_flatMap {α : Type} {f : α → List Site} {as : List α} :
    AllDeep (as.flatMap f) ↔ ∀ a ∈ as, AllDeep (f a) := by
  simp only [AllDeep, List.mem_flatMap]
  exact ⟨fun h a ha s hs => h s ⟨a, ha, hs⟩, fun h s ⟨a, ha, hs⟩ => h a ha s hs⟩

@[simp] theorem allDeep_map {α : Type} {f : α → Site} {as : List α} :
    AllDeep (as.map f) ↔ ∀ a ∈ as, (f a).Deep := List.forall_mem_map

end Site

open Site

/-- Values that the grammar reads, with what holds of them. -/
class Read (α : Type) where
  Sound : α → Prop

export Read (Sound)

/-- Nothing is asked of most values. -/
instance (priority := low) {α : Type} : Read α := ⟨fun _ => True⟩

instance {α : Type} [Read α] : Read (List α) := ⟨fun as => ∀ a ∈ as, Sound a⟩
instance {α : Type} [Read α] : Read (Option α) := ⟨fun a? => ∀ a, a? = some a → Sound a⟩
instance {α β : Type} [Read α] [Read β] : Read (α × β) := ⟨fun p => Sound p.1 ∧ Sound p.2⟩
instance : Read Expr := ⟨fun e => AllDeep (ofExprs [e])⟩
instance : Read Key := ⟨fun k => Deep (.key k)⟩
instance : Read Property := ⟨fun p => p.IsSound ∧ AllDeep (ofProperty p)⟩
instance : Read Pattern := ⟨fun p => AllDeep (ofPatterns [p])⟩
instance : Read PatternField := ⟨fun | .mk k p _ => Sound k ∧ Sound p⟩
instance : Read Param := ⟨fun p => Sound p.pattern⟩
instance : Read Func := ⟨fun f => AllDeep (ofFunc f)⟩
instance : Read Body := ⟨fun b => AllDeep (ofBody b)⟩
instance : Read Class := ⟨fun c => Deep (.cls c)⟩
instance : Read Member := ⟨fun m => AllDeep (ofMember m)⟩
instance : Read Decl := ⟨fun d => Deep (.decl d)⟩
instance : Read Namespace := ⟨fun n => AllDeep (ofNamespace n)⟩
instance : Read Declarator := ⟨fun d => AllDeep (ofDeclarators [d])⟩
instance : Read Stmt := ⟨fun t => Deep (.stmt t)⟩
instance : Read ForHead := ⟨fun h => AllDeep (ofForHead h)⟩
instance : Read Case := ⟨fun | .mk test body => Sound test ∧ Sound body⟩
instance : Read Item := ⟨fun i => Deep (.item i)⟩

/-! ### Parts of sites -/

@[simp] theorem sound_none {α : Type} [Read α] : Sound (none : Option α) := fun _ h => nomatch h

@[simp] theorem sound_some {α : Type} [Read α] {a : α} : Sound (some a) ↔ Sound a :=
  ⟨fun h => h a rfl, fun h _ e => Option.some.inj e ▸ h⟩

@[simp] theorem sound_nil {α : Type} [Read α] : Sound ([] : List α) := fun _ h => nomatch h

@[simp] theorem sound_cons {α : Type} [Read α] {a : α} {as : List α} :
    Sound (a :: as) ↔ Sound a ∧ Sound as := List.forall_mem_cons

@[simp] theorem sound_prod {α β : Type} [Read α] [Read β] {a : α} {b : β} :
    Sound (a, b) ↔ Sound a ∧ Sound b := Iff.rfl

@[simp] theorem allDeep_ofExprs {es : List Expr} : AllDeep (ofExprs es) ↔ Sound es := by
  induction es with
  | nil => simp [ofExprs]
  | cons e es ih =>
    rw [sound_cons, ← ih, show Sound e ↔ AllDeep (ofExprs [e]) from Iff.rfl, ← allDeep_append]
    cases e <;> rfl

@[simp] theorem allDeep_ofExpr? {e : Option Expr} : AllDeep (ofExpr? e) ↔ Sound e := by
  rw [ofExpr?, allDeep_ofExprs]
  cases e <;> simp

@[simp] theorem allDeep_ofPatterns {ps : List Pattern} : AllDeep (ofPatterns ps) ↔ Sound ps := by
  induction ps with
  | nil => simp [ofPatterns]
  | cons p ps ih =>
    rw [sound_cons, ← ih, show Sound p ↔ AllDeep (ofPatterns [p]) from Iff.rfl, ← allDeep_append]
    cases p <;> rfl

/-! ### Nodes -/

theorem Expr.sound {e : Expr} (hn : (Site.expr e).IsSound) (h : AllDeep (ofExprParts e)) :
    Sound e := by
  cases e with
  | omitted => exact allDeep_nil
  | _ => exact allDeep_cons.2 ⟨deep_iff.2 ⟨hn, h⟩, allDeep_nil⟩

theorem Pattern.sound {p : Pattern} (h : AllDeep (ofPatternParts p)) : Sound p := by
  cases p with
  | omitted => exact allDeep_nil
  | _ => exact allDeep_cons.2 ⟨deep_iff.2 ⟨trivial, h⟩, allDeep_nil⟩

theorem Stmt.sound {t : Stmt} (h : AllDeep (ofStmtParts t)) : Sound t := deep_iff.2 ⟨trivial, h⟩

theorem Decl.sound {d : Decl} (hn : (Site.decl d).IsSound) (h : AllDeep (ofDeclParts d)) :
    Sound d :=
  deep_iff.2 ⟨hn, h⟩

theorem Item.sound {i : Item} (h : AllDeep (Site.item i).children) : Sound i :=
  deep_iff.2 ⟨trivial, h⟩

theorem Item.sound_export {i : Item} (h : AllDeep (ofExport i)) : (Site.export_ i).Deep :=
  deep_iff.2 ⟨trivial, h⟩

theorem Key.sound {k : Key} (h : AllDeep (Site.key k).children) : Sound k :=
  deep_iff.2 ⟨trivial, h⟩

@[simp] theorem deep_function {f : Func} : (Site.function f).Deep ↔ Sound f :=
  deep_iff.trans (and_iff_right trivial)

@[simp] theorem deep_arrow {f : Func} : (Site.arrow f).Deep ↔ Sound f :=
  deep_iff.trans (and_iff_right trivial)

@[simp] theorem deep_cls {c : Class} : (Site.cls c).Deep ↔ Sound c := Iff.rfl

@[simp] theorem deep_key {k : Key} : (Site.key k).Deep ↔ Sound k := Iff.rfl

@[simp] theorem deep_stmt {t : Stmt} : (Site.stmt t).Deep ↔ Sound t := Iff.rfl

@[simp] theorem deep_decl {d : Decl} : (Site.decl d).Deep ↔ Sound d := Iff.rfl

@[simp] theorem deep_item {i : Item} : (Site.item i).Deep ↔ Sound i := Iff.rfl

@[simp] theorem deep_import {d : Import} : (Site.import_ d).Deep :=
  deep_iff.2 ⟨trivial, allDeep_nil⟩

@[simp] theorem sound_func {name : Option Name} {tps : List TypeParam} {ps : List Param}
    {ret : Option TypeExpr} {body : Body} {a g d : Bool} :
    Sound (Func.mk name tps ps ret body a g d) ↔ Sound ps ∧ Sound body := by
  refine allDeep_append.trans (and_congr_left' ?_)
  rw [allDeep_flatMap]
  refine forall₂_congr fun p _ => ?_
  cases p
  rfl

@[simp] theorem sound_block {s : Span} {stmts : List Stmt} :
    Sound (Body.block s stmts) ↔ Sound stmts := allDeep_map

@[simp] theorem sound_value {e : Expr} : Sound (Body.value e) ↔ Sound e := Iff.rfl

@[simp] theorem sound_absent : Sound Body.absent := allDeep_nil

@[simp] theorem allDeep_ofDeclarators {ds : List Declarator} :
    AllDeep (ofDeclarators ds) ↔ Sound ds := by
  rw [ofDeclarators, allDeep_flatMap]
  refine forall₂_congr fun d _ => ?_
  show _ ↔ AllDeep (ofDeclarators [d])
  rw [ofDeclarators, List.flatMap_singleton]

@[simp] theorem sound_declarator {p : Pattern} {t : Option TypeExpr} {init : Option Expr} :
    Sound (Declarator.mk p t init) ↔ Sound p ∧ Sound init := by
  rw [show Sound (Declarator.mk p t init) ↔ AllDeep (ofDeclarators [.mk p t init]) from Iff.rfl]
  simp [ofDeclarators]

end TypeStrip
