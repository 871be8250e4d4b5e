import TypeStrip.Proofs.Places.Tapes

/-!
Parsers that locate what they read: the nodes that they give are stretches of the source from the
place on, they pass over no malformed token unless they complain, and they complain about a stretch
of the source.
-/
namespace TypeStrip

/-- Values that the grammar reads, with the nodes that they are made of and what holds of them where
they are read. Some are only read by moving on. -/
class Outlined (α : Type) where
  parts : α → List Outline
  Whole : Source → α → Prop := fun _ _ => True
  moves : Bool := false

namespace Outlined

/-- Most values have no nodes. -/
instance (priority := low) {α : Type} : Outlined α where
  parts _ := []

instance {α : Type} [Outlined α] : Outlined (List α) where
  parts as := as.flatMap parts

instance {α : Type} [Outlined α] : Outlined (Option α) where
  parts a? := a?.toList.flatMap parts
  Whole S a? := ∀ a, a? = some a → Whole S a

instance {α β : Type} [Outlined α] [Outlined β] : Outlined (α × β) where
  parts p := parts p.1 ++ parts p.2
  Whole S p := Whole S p.1 ∧ Whole S p.2

instance : Outlined Token where
  parts t := [.leaf t.span]
  Whole S t := t.Lies S
  moves := true

instance : Outlined Name where
  parts n := [n.outline]
  Whole S n := S.Spells n.span n.text
  moves := true

instance : Outlined Key := { parts := Key.outline, moves := true }
instance : Outlined Property := { parts := Property.outline }
instance : Outlined Expr :=
  { parts := Expr.outline, Whole := fun _ e => e ≠ .omitted, moves := true }
instance : Outlined Pattern :=
  { parts := Pattern.outline, Whole := fun _ p => p ≠ .omitted, moves := true }
instance : Outlined PatternField := { parts := PatternField.outline }
instance : Outlined TypeExpr := { parts := TypeExpr.outline, moves := true }
instance : Outlined TypeParam := { parts := TypeParam.outline }
instance : Outlined Param := { parts := Param.outline }
instance : Outlined Func := { parts := Func.outline, moves := true }
instance : Outlined Body := { parts := Body.outline }
instance : Outlined (Span × List Stmt) :=
  { parts := fun b => .node b.1 .plain (outlineStmts b.2) :: outlineStmts b.2 }
instance : Outlined Class := { parts := Class.outline, moves := true }
instance : Outlined Member := { parts := Member.outline, moves := true }
instance : Outlined Declarator := { parts := Declarator.outline }
instance : Outlined (VarKind × List Declarator) :=
  { parts := fun d => outlineDeclarators d.2, moves := true }
instance : Outlined Decl := { parts := Decl.outline, moves := true }
instance : Outlined Namespace := { parts := Namespace.outline, moves := true }
instance : Outlined Stmt := { parts := Stmt.outline, moves := true }
instance : Outlined ForHead := { parts := ForHead.outline }
instance : Outlined Case := { parts := Case.outline }
instance : Outlined ImportSpecifier := { parts := ImportSpecifier.outline }
instance : Outlined Import := { parts := Import.outline, moves := true }
instance : Outlined ExportSpecifier := { parts := ExportSpecifier.outline }
instance : Outlined Item := { parts := Item.outline, moves := true }

/-- The nodes that a value gives where it is read, the token at the start among them if it has to be
passed. -/
def gains {α : Type} [Outlined α] (start : Span) (a : α) : List Outline :=
  if moves α then .leaf start :: parts a else parts a

/-! ### What is gained by each value -/

section
variable {α β : Type} [Outlined α] [Outlined β] (s : Span)

@[simp, grind =] theorem gains_list (as : List α) : gains s as = parts as := rfl
@[simp, grind =] theorem gains_option (a? : Option α) : gains s a? = parts a? := rfl
@[simp, grind =] theorem gains_pair (p : α × β) : gains s p = parts p := rfl

@[simp, grind =] theorem parts_pair (a : α) (b : β) : parts (a, b) = parts a ++ parts b := rfl
@[simp, grind =] theorem parts_none : parts (none : Option α) = [] := rfl
@[simp, grind =] theorem parts_some (a : α) : parts (some a) = parts a := List.append_nil _

theorem parts_append (as bs : List α) : parts (as ++ bs) = parts as ++ parts bs :=
  List.flatMap_append ..

theorem parts_singleton (a : α) : parts [a] = parts a := List.append_nil _

/-- The nodes of the values that there are. -/
theorem parts_filterMap_id (as : List (Option α)) : parts (as.filterMap id) = parts as := by
  induction as with
  | nil => rfl
  | cons a? as ih =>
    cases a? with
    | none => exact ih
    | some a =>
      show parts a ++ parts (as.filterMap id) = parts (some a) ++ parts as
      rw [ih, parts_some]

end

section
variable (s : Span)

@[simp, grind =] theorem gains_name (n : Name) : gains s n = .leaf s :: parts n := rfl
@[simp, grind =] theorem gains_key (k : Key) : gains s k = .leaf s :: parts k := rfl
@[simp, grind =] theorem gains_expr (e : Expr) : gains s e = .leaf s :: parts e := rfl
@[simp, grind =] theorem gains_pattern (p : Pattern) : gains s p = .leaf s :: parts p := rfl
@[simp, grind =] theorem gains_type (t : TypeExpr) : gains s t = .leaf s :: parts t := rfl
@[simp, grind =] theorem gains_func (f : Func) : gains s f = .leaf s :: parts f := rfl
@[simp, grind =] theorem gains_class (c : Class) : gains s c = .leaf s :: parts c := rfl
@[simp, grind =] theorem gains_member (m : Member) : gains s m = .leaf s :: parts m := rfl
@[simp, grind =] theorem gains_variables (d : VarKind × List Declarator) :
    gains s d = .leaf s :: parts d := rfl
@[simp, grind =] theorem gains_decl (d : Decl) : gains s d = .leaf s :: parts d := rfl
@[simp, grind =] theorem gains_namespace (n : Namespace) : gains s n = .leaf s :: parts n := rfl
@[simp, grind =] theorem gains_stmt (a : Stmt) : gains s a = .leaf s :: parts a := rfl
@[simp, grind =] theorem gains_import (d : Import) : gains s d = .leaf s :: parts d := rfl
@[simp, grind =] theorem gains_body (b : Body) : gains s b = parts b := rfl
@[simp, grind =] theorem gains_case (c : Case) : gains s c = parts c := rfl
@[simp, grind =] theorem gains_block (b : Span × List Stmt) : gains s b = parts b := rfl

end

@[simp, grind =] theorem parts_bool (b : Bool) : parts b = [] := rfl
@[simp, grind =] theorem parts_name (n : Name) : parts n = [n.outline] := rfl
@[simp, grind =] theorem parts_key (k : Key) : parts k = k.outline := rfl
@[simp, grind =] theorem parts_expr (e : Expr) : parts e = e.outline := rfl
@[simp, grind =] theorem parts_pattern (p : Pattern) : parts p = p.outline := rfl
@[simp, grind =] theorem parts_type (t : TypeExpr) : parts t = t.outline := rfl
@[simp, grind =] theorem parts_func (f : Func) : parts f = f.outline := rfl
@[simp, grind =] theorem parts_class (c : Class) : parts c = c.outline := rfl
@[simp, grind =] theorem parts_variables (d : VarKind × List Declarator) :
    parts d = outlineDeclarators d.2 := rfl
@[simp, grind =] theorem parts_decl (d : Decl) : parts d = d.outline := rfl
@[simp, grind =] theorem parts_namespace (n : Namespace) : parts n = n.outline := rfl
@[simp, grind =] theorem parts_stmt (a : Stmt) : parts a = a.outline := rfl
@[simp, grind =] theorem parts_item (i : Item) : parts i = i.outline := rfl
@[simp, grind =] theorem parts_import (d : Import) : parts d = d.outline := rfl
@[simp, grind =] theorem parts_property (p : Property) : parts p = p.outline := rfl
@[simp, grind =] theorem parts_typeParam (p : TypeParam) : parts p = p.outline := rfl
@[simp, grind =] theorem parts_param (p : Param) : parts p = p.outline := rfl
@[simp, grind =] theorem parts_body (b : Body) : parts b = b.outline := rfl
@[simp, grind =] theorem parts_declarator (d : Declarator) : parts d = d.outline := rfl
@[simp, grind =] theorem parts_forHead (h : ForHead) : parts h = h.outline := rfl
@[simp, grind =] theorem parts_case (c : Case) : parts c = c.outline := rfl
@[simp, grind =] theorem parts_importSpecifier (i : ImportSpecifier) : parts i = i.outline := rfl
@[simp, grind =] theorem parts_exportSpecifier (e : ExportSpecifier) : parts e = e.outline := rfl
@[simp, grind =] theorem parts_block (b : Span × List Stmt) : parts b = .node b.1 .plain
    (outlineStmts b.2) :: outlineStmts b.2 := rfl

@[simp, grind =] theorem parts_exprs (es : List Expr) : parts es = outlineExprs es := by
  induction es with
  | nil => rfl
  | cons _ _ ih => exact congrArg (_ ++ ·) ih

@[simp, grind =] theorem parts_types (ts : List TypeExpr) : parts ts = outlineTypes ts := by
  induction ts with
  | nil => rfl
  | cons _ _ ih => exact congrArg (_ ++ ·) ih

@[simp, grind =] theorem parts_typeParams (ps : List TypeParam) :
    parts ps = outlineTypeParams ps := by
  induction ps with
  | nil => rfl
  | cons _ _ ih => exact congrArg (_ ++ ·) ih

@[simp, grind =] theorem parts_properties (ps : List Property) :
    parts ps = outlineProperties ps := by
  induction ps with
  | nil => rfl
  | cons _ _ ih => exact congrArg (_ ++ ·) ih

@[simp, grind =] theorem parts_patterns (ps : List Pattern) : parts ps = outlinePatterns ps := by
  induction ps with
  | nil => rfl
  | cons _ _ ih => exact congrArg (_ ++ ·) ih

@[simp, grind =] theorem parts_fields (fs : List PatternField) : parts fs = outlineFields fs := by
  induction fs with
  | nil => rfl
  | cons _ _ ih => exact congrArg (_ ++ ·) ih

@[simp, grind =] theorem parts_params (ps : List Param) : parts ps = outlineParams ps := by
  induction ps with
  | nil => rfl
  | cons _ _ ih => exact congrArg (_ ++ ·) ih

@[simp, grind =] theorem parts_members (ms : List Member) : parts ms = outlineMembers ms := by
  induction ms with
  | nil => rfl
  | cons _ _ ih => exact congrArg (_ ++ ·) ih

@[simp, grind =] theorem parts_declarators (ds : List Declarator) :
    parts ds = outlineDeclarators ds := by
  induction ds with
  | nil => rfl
  | cons _ _ ih => exact congrArg (_ ++ ·) ih

@[simp, grind =] theorem parts_stmts (ss : List Stmt) : parts ss = outlineStmts ss := by
  induction ss with
  | nil => rfl
  | cons _ _ ih => exact congrArg (_ ++ ·) ih

@[simp, grind =] theorem parts_cases (cs : List Case) : parts cs = outlineCases cs := by
  induction cs with
  | nil => rfl
  | cons _ _ ih => exact congrArg (_ ++ ·) ih

@[simp, grind =] theorem parts_items (is : List Item) : parts is = outlineItems is := by
  induction is with
  | nil => rfl
  | cons _ _ ih => exact congrArg (_ ++ ·) ih

@[simp, grind =] theorem parts_names (ns : List Name) : parts ns = ns.map Name.outline :=
  List.flatMap_pure_eq_map ..

@[simp, grind =] theorem parts_importSpecifiers (is : List ImportSpecifier) :
    parts is = is.flatMap ImportSpecifier.outline := rfl

@[simp, grind =] theorem parts_exportSpecifiers (es : List ExportSpecifier) :
    parts es = es.flatMap ExportSpecifier.outline := rfl

@[simp, grind =] theorem parts_expr? (e? : Option Expr) : parts e? = outlineExpr? e? := by
  cases e? with
  | none => rfl
  | some e => exact parts_some e

@[simp, grind =] theorem parts_type? (t? : Option TypeExpr) : parts t? = outlineType? t? := by
  cases t? with
  | none => rfl
  | some t => exact parts_some t

@[simp, grind =] theorem parts_pattern? (p? : Option Pattern) : parts p? = outlinePattern? p? := by
  cases p? with
  | none => rfl
  | some p => exact parts_some p

@[simp, grind =] theorem parts_name? (n? : Option Name) : parts n? = n?.toList.map Name.outline :=
  List.flatMap_pure_eq_map ..

end Outlined

class Placed (α : Type) [Outlined α] where
  span : α → Span
  parts_eq : ∀ S a, Outlined.Whole S a → ∃ o, Outlined.parts a = [o] ∧ o.span = span a

theorem Placed.parts_ne_nil {α : Type} [Outlined α] [Placed α] {S : Source} {a : α}
    (h : Outlined.Whole S a) : Outlined.parts a ≠ [] := by
  obtain ⟨o, ho, -⟩ := Placed.parts_eq S a h
  exact ho ▸ List.cons_ne_nil _ _

instance : Placed Name := ⟨Name.span, fun _ _ _ => ⟨_, rfl, rfl⟩⟩

instance : Placed TypeExpr := ⟨TypeExpr.span, fun _ t _ => by cases t <;> exact ⟨_, rfl, rfl⟩⟩

instance : Placed Expr where
  span := Expr.span
  parts_eq _ e he := by
    cases e with
    | omitted => exact absurd rfl he
    | _ => exact ⟨_, rfl, rfl⟩

instance : Placed Pattern where
  span := Pattern.span
  parts_eq _ p hp := by
    cases p with
    | omitted => exact absurd rfl hp
    | _ => exact ⟨_, rfl, rfl⟩

namespace Grammar
open Outlined
open TypeStrip.Token (Kind)

/-- The nodes that reach from a start to the end of each of the nodes, around what has been read
before. -/
def hulls (start : Span) (os : List Outline) (bs : List Outline) : List Outline :=
  bs.map fun b => .node (start.merge b.span) .plain (b :: os)

/-- The second tape has passed no malformed token that the first one has not. -/
def Tape.PassesSound (t t' : Tape) : Prop := ∀ u ∈ t'.passed, u ∈ t.passed ∨ u.kind ≠ .error

theorem Tape.PassesSound.refl (t : Tape) : t.PassesSound t := fun _ hu => .inl hu

theorem Tape.PassesSound.trans {t t' t'' : Tape} (h : t.PassesSound t') (h' : t'.PassesSound t'') :
    t.PassesSound t'' :=
  fun u hu => (h' u hu).elim (h u) .inr

section
variable (S : Source) (stop : Nat) {α : Type} [Outlined α]

/-- What a parser may end with that starts on a tape, after what has been read from `start` on. -/
def Located (start : Span) (t : Tape) (P : α → Prop) : Outcome α → Prop
  | .ok a t' => P a ∧ (∀ o ∈ gains start a, o.Faithful S ∧ t'.HasRead start.start o.span) ∧
      t.PassesSound t'
  | .error e _ => S.Holds e.span

/-- A parser that locates what it reads, on a tape on which the given nodes have been read from
`start` on. -/
def LocatesAt (t : Tape) (start : Span) (os : List Outline) (P : α → Prop) (p : Parser α) : Prop :=
  Since S stop start os t → Located S start t P (p t)

def LocatesTo (P : α → Prop) (p : Parser α) : Prop :=
  ∀ t, LocatesAt S stop t t.current.span [] P p

/-- A parser that locates what it reads, and gives whole values. -/
def Locates (p : Parser α) : Prop := LocatesTo S stop (Whole S) p

end

variable {S : Source} {stop : Nat} {t : Tape} {start : Span} {os : List Outline}
variable {α β : Type} [Outlined α] [Outlined β] {P : α → Prop} {Q : β → Prop}

theorem LocatesTo.of_ok {p : Parser α} {a : α} {t' : Tape} (hp : LocatesTo S stop P p)
    (ht : t.Lies S stop) (h : p t = .ok a t') :
    P a ∧ (∀ o ∈ gains t.current.span a, o.Faithful S ∧ t'.HasRead t.current.span.start o.span) ∧
      t.PassesSound t' := by
  have hlocated := hp t (.here ht)
  rwa [h] at hlocated

theorem LocatesTo.of_error {p : Parser α} {e : ParseError} {t' : Tape} (hp : LocatesTo S stop P p)
    (ht : t.Lies S stop) (h : p t = .error e t') : S.Holds e.span := by
  have hlocated := hp t (.here ht)
  rwa [h] at hlocated

/-- The token at the start has been passed where anything has been read. -/
theorem located_gains {a : α} (h : Since S stop start os t) (hm : moves α = true → os ≠ [])
    (ha : ∀ o ∈ parts a, o.Faithful S ∧ t.HasRead start.start o.span) :
    ∀ o ∈ gains start a, o.Faithful S ∧ t.HasRead start.start o.span := by
  unfold gains
  split
  · rename_i hmoves
    exact List.forall_mem_cons.2 ⟨⟨.leaf h.holds, h.hasRead (hm hmoves)⟩, ha⟩
  · exact ha

theorem mem_gains {a : α} {o : Outline} (h : o ∈ parts a) (start : Span) : o ∈ gains start a := by
  unfold gains
  split
  · exact List.mem_cons_of_mem _ h
  · exact h

theorem Located.mono {t' : Tape} {r : Outcome α} (h : Located S start t' P r)
    (hs : t.PassesSound t') : Located S start t P r := by
  cases r with
  | ok a u => exact ⟨h.1, h.2.1, hs.trans h.2.2⟩
  | error e u => exact h

theorem subset_gains (a : α) (start : Span) : parts a ⊆ gains start a :=
  fun _ h => mem_gains h start

theorem gains_ne_nil (hm : moves α = true) (start : Span) (a : α) : gains start a ≠ [] := by
  rw [gains, if_pos hm]
  exact List.cons_ne_nil _ _

namespace LocatesAt

/-! ### Values -/

theorem pure {a : α} (hP : P a) (hm : moves α = true → os ≠ [])
    (ha : Since S stop start os t → ∀ o ∈ parts a, o.Faithful S ∧ t.HasRead start.start o.span) :
    LocatesAt S stop t start os P (pure a) :=
  fun h => ⟨hP, located_gains h hm (ha h), .refl t⟩

/-- A value without nodes. -/
theorem nothing {a : α} (hP : P a) (ha : gains start a = []) :
    LocatesAt S stop t start os P (Pure.pure a) :=
  fun _ => ⟨hP, ha ▸ nofun, .refl t⟩

/-- A value of nodes that have been read. -/
theorem ofParts {a : α} (hP : P a) (hm : moves α = true → os ≠ []) (ha : parts a ⊆ os) :
    LocatesAt S stop t start os P (Pure.pure a) :=
  .pure hP hm fun h o ho => h.parts o (ha ho)

/-- A value that has been read before. -/
theorem kept {a : α} (from_ : Span) (hP : P a) (ha : gains from_ a ⊆ os) :
    LocatesAt S stop t start os P (Pure.pure a) :=
  .ofParts hP (fun hm hos => gains_ne_nil hm from_ a (List.subset_nil.1 (hos ▸ ha)))
    (List.Subset.trans (subset_gains a from_) ha)

/-- A node that has been read. -/
theorem placed [Placed α] {a : α} (h : Whole S a) (ha : parts a ⊆ os) :
    LocatesAt S stop t start os (Whole S) (Pure.pure a) :=
  .ofParts h (fun _ hos => Placed.parts_ne_nil h (List.subset_nil.1 (hos ▸ ha))) ha

/-- A value that is a node from the start to the place. -/
theorem node {a : α} {cs : List Outline} (hP : P a)
    (ha : parts a = [.node (start.merge t.cursor.previous.span) .plain cs]) (hos : os ≠ [])
    (hcs : cs ⊆ os) : LocatesAt S stop t start os P (Pure.pure a) :=
  .pure hP (fun _ => hos) fun h o ho => by
    rw [ha] at ho
    cases List.mem_singleton.1 ho
    exact h.node hos hcs

/-- A value that is a node at the span of one that has been read. -/
theorem relabel {a : α} {l : Label} {cs : List Outline} {o : Outline} (hP : P a) (hmem : o ∈ os)
    (ha : parts a = [.node o.span l cs]) (hl : l.Faithful S o.span)
    (hcs : ∀ c ∈ cs, c ∈ o.parts ∨ c ∈ os ∧ c.span = o.span) :
    LocatesAt S stop t start os P (Pure.pure a) := by
  refine .pure hP (fun _ => List.ne_nil_of_mem hmem) fun h o' ho' => ?_
  rw [ha] at ho'
  cases List.mem_singleton.1 ho'
  exact (h.relabel hmem hl hcs).parts _ List.mem_cons_self

/-- Another node at the span of one that has been read. -/
theorem also {p : Parser α} {o : Outline} (l : Label) (cs : List Outline) (hmem : o ∈ os)
    (hl : l.Faithful S o.span) (hcs : ∀ c ∈ cs, c ∈ o.parts ∨ c ∈ os ∧ c.span = o.span)
    (hp : LocatesAt S stop t start (.node o.span l cs :: os) P p) :
    LocatesAt S stop t start os P p :=
  fun h => hp (h.relabel hmem hl hcs)

theorem complain (complaint : Complaint) : LocatesAt S stop t start os P (complain complaint) :=
  fun h => h.lies.current.holds

theorem complainFound (complaint : Kind → Complaint) :
    LocatesAt S stop t start os P (complainFound complaint) :=
  fun h => h.lies.current.holds

/-- A complaint about a node that has been read. -/
theorem throw {e : ParseError} {o : Outline} (ho : o ∈ os) (he : e.span = o.span) :
    LocatesAt S stop t start os P (throw e) := by
  intro h
  show S.Holds e.span
  rw [he]
  exact (h.parts o ho).1.holds

/-- A complaint about a value that has been read. -/
theorem throwAt [Placed β] {b : β} (hb : Whole S b) (hos : parts b ⊆ os) (complaint : Complaint) :
    LocatesAt S stop t start os P (Grammar.throw ⟨complaint, Placed.span b⟩) := by
  obtain ⟨o, ho, hspan⟩ := Placed.parts_eq S b hb
  exact .throw (hos (ho ▸ List.mem_cons_self)) hspan.symm

/-! ### Steps -/

theorem subset {os' : List Outline} {p : Parser α} (h : LocatesAt S stop t start os' P p)
    (hos : os' ⊆ os) : LocatesAt S stop t start os P p :=
  fun hs => h (hs.subset hos)

theorem get {f : Cursor → Parser α} (h : LocatesAt S stop t start os P (f t.cursor)) :
    LocatesAt S stop t start os P (get >>= f) := h

theorem here {f : Span → Parser α} (h : LocatesAt S stop t start os P (f t.current.span)) :
    LocatesAt S stop t start os P (here >>= f) := h

theorem since {from_ : Span} {f : Span → Parser α}
    (h : LocatesAt S stop t start os P (f (from_.merge t.cursor.previous.span))) :
    LocatesAt S stop t start os P (since from_ >>= f) := h

/-- A place up to here is that of a node which holds what has been read. -/
theorem sinceNode (cs : List Outline) {f : Span → Parser α} (hos : os ≠ []) (hcs : cs ⊆ os)
    (h : LocatesAt S stop t start (.node (start.merge t.cursor.previous.span) .plain cs :: os) P
      (f (start.merge t.cursor.previous.span))) :
    LocatesAt S stop t start os P (Grammar.since start >>= f) :=
  fun hs => h (hs.cons (hs.node hos hcs))

theorem inAllowed {f : Bool → Parser α} (h : LocatesAt S stop t start os P (f !t.noIn)) :
    LocatesAt S stop t start os P (inAllowed >>= f) := h

theorem ite {b : Prop} [Decidable b] {p q : Parser α} (hp : b → LocatesAt S stop t start os P p)
    (hq : ¬b → LocatesAt S stop t start os P q) :
    LocatesAt S stop t start os P (if b then p else q) := by
  split
  · exact hp ‹_›
  · exact hq ‹_›

/-- One parser after the other, from which the start is seen in another way. -/
theorem bindFrom {start' : Span} {os' : List Outline} {p : Parser β} {f : β → Parser α}
    (hp : LocatesAt S stop t start' os' Q p) (hstart : Since S stop start os t →
      Since S stop start' os' t ∧ start.start ≤ start'.start)
    (hf : ∀ b t', Q b → LocatesAt S stop t' start (gains start' b ++ os) P (f b)) :
    LocatesAt S stop t start os P (p >>= f) := by
  intro h
  obtain ⟨h', hle⟩ := hstart h
  have hreaches := p.reaches t
  have hb := hp h'
  rw [Parser.bind_run]
  cases hr : p t with
  | error e t' =>
    rw [hr] at hb
    exact hb
  | ok b t' =>
    rw [hr] at hb hreaches
    obtain ⟨hQ, hparts, hsound⟩ := hb
    have hsince := (h.reaches hreaches).append fun o ho =>
      ⟨(hparts o ho).1, Nat.le_trans hle (hparts o ho).2.1, (hparts o ho).2.2⟩
    exact (hf b t' hQ hsince).mono hsound

theorem bind {p : Parser β} {f : β → Parser α}
    (hp : LocatesAt S stop t t.current.span [] Q p)
    (hf : ∀ b t', Q b → LocatesAt S stop t' start (gains t.current.span b ++ os) P (f b)) :
    LocatesAt S stop t start os P (p >>= f) :=
  bindFrom hp (fun h => ⟨.here h.lies, h.starts⟩) hf

/-- One parser after the other, both with the same start. -/
theorem bindSame {p : Parser β} {f : β → Parser α} (hp : LocatesAt S stop t start os Q p)
    (hf : ∀ b t', Q b → LocatesAt S stop t' start (gains start b ++ os) P (f b)) :
    LocatesAt S stop t start os P (p >>= f) :=
  bindFrom hp (fun h => ⟨h, Nat.le_refl _⟩) hf

/-- A branch that may do something before what follows it. -/
theorem when {b : Prop} [Decidable b] {p : Parser Unit} {f : Unit → Parser α} {R : Unit → Prop}
    (hp : b → LocatesAt S stop t t.current.span [] R p)
    (hf : ∀ t', LocatesAt S stop t' start os P (f ())) :
    LocatesAt S stop t start os P (if b then p >>= f else f ()) :=
  ite (fun h => bind (hp h) fun _ t' _ => hf t') fun _ => hf t

/-- A branch that complains in place of what follows it. -/
theorem check {b : Prop} [Decidable b] {p : Parser Unit} {f : Unit → Parser α}
    (hp : b → LocatesAt S stop t start os (fun _ => False) p)
    (hf : ¬b → LocatesAt S stop t start os P (f ())) :
    LocatesAt S stop t start os P (if b then p >>= f else f ()) :=
  ite (fun h => bindSame (hp h) fun _ _ => False.elim) hf

/-- A branch that complains in place of what follows it, if a condition fails. -/
theorem require {b : Prop} [Decidable b] {p : Parser Unit} {f : Unit → Parser α}
    (hp : ¬b → LocatesAt S stop t start os (fun _ => False) p)
    (hf : b → LocatesAt S stop t start os P (f ())) :
    LocatesAt S stop t start os P (if b then f () else p >>= f) :=
  ite hf fun h => bindSame (hp h) fun _ _ => False.elim

/-- A branch that has to do something before what follows it, if a condition fails. -/
theorem otherwise {b : Prop} [Decidable b] {p : Parser Unit} {f : Unit → Parser α} {R : Unit → Prop}
    (hp : ¬b → LocatesAt S stop t t.current.span [] R p)
    (hf : ∀ t', LocatesAt S stop t' start os P (f ())) :
    LocatesAt S stop t start os P (if b then f () else p >>= f) :=
  ite (fun _ => hf t) fun h => bind (hp h) fun _ t' _ => hf t'

/-- Two ways to a value that is used in the same way. -/
theorem either {b : Prop} [Decidable b] {p q : Parser β} {f : β → Parser α}
    (hp : b → LocatesAt S stop t t.current.span [] Q p)
    (hq : ¬b → LocatesAt S stop t t.current.span [] Q q)
    (hf : ∀ a t', Q a → LocatesAt S stop t' start (gains t.current.span a ++ os) P (f a)) :
    LocatesAt S stop t start os P (if b then p >>= f else q >>= f) :=
  ite (fun h => bind (hp h) hf) fun h => bind (hq h) hf

theorem weaken {P' : α → Prop} {p : Parser α} (h : LocatesAt S stop t start os P p)
    (hP : ∀ a, P a → P' a) : LocatesAt S stop t start os P' p := by
  intro hs
  have hp := h hs
  cases hr : p t with
  | ok a t' =>
    rw [hr] at hp
    exact ⟨hP a hp.1, hp.2⟩
  | error e t' =>
    rw [hr] at hp
    exact hp

/-- A parser in the last place. -/
theorem last {p : Parser α} (hp : LocatesAt S stop t t.current.span [] P p) :
    LocatesAt S stop t start os P p := by
  rw [← bind_pure p]
  exact .bind hp fun a _ ha => .kept _ ha (List.subset_append_left ..)

/-- One parser after another whose value is forgotten. -/
theorem bindDiscard {p : Parser β} {f : Unit → Parser α}
    (hp : LocatesAt S stop t t.current.span [] Q p)
    (hf : ∀ (b : β) t', LocatesAt S stop t' start (gains t.current.span b ++ os) P (f ())) :
    LocatesAt S stop t start os P (Functor.discard p >>= f) := by
  have hdiscard : Functor.discard p >>= f = p >>= fun _ => f () := by
    simp [Functor.discard, map_const]
  rw [hdiscard]
  exact .bind hp fun b t' _ => hf b t'

theorem discard {p : Parser α} (h : LocatesAt S stop t start os P p) :
    LocatesAt S stop t start os (fun _ => True) (discard p) :=
  bindSame h fun _ _ _ => .nothing trivial rfl

/-! ### Nodes from one value to another -/

/-- What has been read since a value that is a node. -/
theorem restart [Placed β] {b : β} (hb : Whole S b) (hos : parts b ⊆ os) {p : Parser α}
    (hp : LocatesAt S stop t (Placed.span b) (parts b) P p) : LocatesAt S stop t start os P p := by
  intro h
  obtain ⟨o, ho, hspan⟩ := Placed.parts_eq S b hb
  rw [ho] at hos hp
  have hmem : o ∈ os := hos List.mem_cons_self
  have hle := (h.parts o hmem).2.1
  rw [hspan] at hle
  have hreaches := h.reaches (p.reaches t)
  have hlocated := hp (hspan ▸ h.restart hmem hos fun q hq => by
    cases List.mem_singleton.1 hq
    exact Nat.le_refl _)
  cases hr : p t with
  | error e t' =>
    rw [hr] at hlocated
    exact hlocated
  | ok a t' =>
    rw [hr] at hlocated hreaches
    refine ⟨hlocated.1, ?_, hlocated.2.2⟩
    refine located_gains hreaches (fun _ => List.ne_nil_of_mem hmem) fun q hq => ?_
    obtain ⟨hfaithful, hleast, hread⟩ := hlocated.2.1 q (mem_gains hq _)
    exact ⟨hfaithful, Nat.le_trans hle hleast, hread⟩

/-- One parser after the other, with nodes that what the first one reads makes. -/
theorem bindAnd {p : Parser β} {f : β → Parser α} (more : β → Tape → List Outline)
    (hp : LocatesTo S stop Q p)
    (hmore : ∀ b t', t.Reaches t' → Since S stop start os t →
      Since S stop t.current.span (gains t.current.span b) t' →
        ∀ o ∈ more b t', o.Faithful S ∧ t'.HasRead start.start o.span)
    (hf : ∀ b t', Q b → LocatesAt S stop t' start
      (more b t' ++ (gains t.current.span b ++ os)) P (f b)) :
    LocatesAt S stop t start os P (p >>= f) := by
  intro h
  have hreaches := p.reaches t
  have hlocated := hp t (.here h.lies)
  rw [Parser.bind_run]
  cases hr : p t with
  | error e t' =>
    rw [hr] at hlocated
    exact hlocated
  | ok b t' =>
    rw [hr] at hlocated hreaches
    obtain ⟨hb, hparts, hsound⟩ := hlocated
    have hstarts := h.starts
    have hinner := ((Since.here h.lies).reaches hreaches).append hparts
    rw [List.append_nil] at hinner
    have hsince := ((h.reaches hreaches).append fun o ho =>
      ⟨(hparts o ho).1, Nat.le_trans hstarts (hparts o ho).2.1, (hparts o ho).2.2⟩).append
        (hmore b t' hreaches h hinner)
    exact (hf b t' hb hsince).mono hsound

/-- What is read last makes nodes that reach from the start to its end. -/
theorem bindLast {p : Parser β} {f : β → Parser α} (hp : LocatesTo S stop Q p)
    (hf : ∀ b t', Q b → LocatesAt S stop t' start
      (hulls start os (parts b) ++ (gains t.current.span b ++ os)) P (f b)) :
    LocatesAt S stop t start os P (p >>= f) := by
  refine .bindAnd (fun b _ => hulls start os (parts b)) hp
    (fun b t' hreaches h hinner q hq => ?_) hf
  obtain ⟨o, ho, rfl⟩ := List.mem_map.1 hq
  obtain ⟨hfaithful, hread⟩ := hinner.parts o (mem_gains ho _)
  exact h.hull hreaches hfaithful hread

/-- What is read makes a node that reaches over it. -/
theorem bindNode {p : Parser β} {f : β → Parser α} (hm : moves β = true) (hp : LocatesTo S stop Q p)
    (hf : ∀ b t', Q b → LocatesAt S stop t' start
      (.node (t.current.span.merge t'.cursor.previous.span) .plain (parts b) ::
        (gains t.current.span b ++ os)) P (f b)) :
    LocatesAt S stop t start os P (p >>= f) := by
  refine .bindAnd
    (fun b t' => [.node (t.current.span.merge t'.cursor.previous.span) .plain (parts b)]) hp
    (fun b t' _ h hinner => ?_) hf
  have hstarts := h.starts
  obtain ⟨hfaithful, hleast, hread⟩ := hinner.node (gains_ne_nil hm _ b) (subset_gains b _)
  exact List.forall_mem_singleton.2 ⟨hfaithful, Nat.le_trans hstarts hleast, hread⟩

/-- Such a node, with fewer parts. -/
theorem alsoHull [Placed β] {b : β} {from_ : Span} {ds : List Outline} (cs : List Outline)
    (hb : Whole S b) (hcs : cs ⊆ parts b ++ ds) {p : Parser α}
    (hp : LocatesAt S stop t start
      (.node (from_.merge (Placed.span b)) .plain cs :: (hulls from_ ds (parts b) ++ os)) P p) :
    LocatesAt S stop t start (hulls from_ ds (parts b) ++ os) P p := by
  obtain ⟨o, ho, hspan⟩ := Placed.parts_eq S b hb
  rw [ho] at hcs hp ⊢
  rw [← hspan] at hp
  exact .also .plain cs (o := .node (from_.merge o.span) .plain (o :: ds)) List.mem_cons_self trivial
    (fun _ hc => .inl (hcs hc)) hp

/-- A value that is such a node. -/
theorem hull [Placed β] {b : β} {a : α} {from_ : Span} {cs ds : List Outline} (hb : Whole S b)
    (hP : P a) (ha : parts a = [.node (from_.merge (Placed.span b)) .plain cs])
    (hcs : cs ⊆ parts b ++ ds) :
    LocatesAt S stop t start (hulls from_ ds (parts b) ++ os) P (Pure.pure a) := by
  refine .alsoHull cs hb hcs (.ofParts hP (fun _ => List.cons_ne_nil _ _) ?_)
  rw [ha]
  exact List.cons_subset_cons _ (List.nil_subset _)

/-- A parser that is given up has read nothing. -/
theorem attempt {p : Parser α} (h : LocatesAt S stop t start os P p) :
    LocatesAt S stop t start os (fun a? => ∀ a, a? = some a → P a) (attempt p) := by
  intro hs
  have hp := h hs
  cases hr : p t with
  | ok a t' =>
    rw [hr] at hp
    rw [attempt_eq_some hr]
    refine ⟨fun b hb => Option.some.inj hb ▸ hp.1, fun o ho => ?_, hp.2.2⟩
    rw [gains_option, parts_some] at ho
    exact hp.2.1 o (mem_gains ho start)
  | error e t' =>
    rw [attempt_eq_none hr]
    exact ⟨nofun, nofun, .refl t⟩

end LocatesAt

end Grammar

end TypeStrip
