import TypeStrip.Grammar.Class
import TypeStrip.Proofs.Places.Types

/-! Functions and classes are located. -/
namespace TypeStrip.Grammar
open Outlined
open TypeStrip.Token (Kind)

variable {S : Source} {stop : Nat} {g : Inner}

/-! ### Functions -/

theorem locates_propertyWord : Locates S stop propertyWord := by
  refine fun t => .get <| .ite (fun _ => .nothing nofun rfl) fun h => ?_
  refine .skip ?_ (.ofParts (fun _ _ _ _ => trivial) nofun ?_)
  · exact passable_of_at_ (k := .identifier) (by simp_all) (by decide)
  · rw [parts_some]
    cases accessOf? t.cursor.current.value <;> exact List.nil_subset _

theorem locates_param (hg : LocatesInner S stop g) : LocatesTo S stop (fun _ => True)
    (param g) := by
  refine fun t => .bind (locates_collect locates_propertyWord t) fun _ t _ => ?_
  refine .bind (locates_accept (by decide) t) fun _ t _ => .get ?_
  have rest (isRest : Bool) (p : Pattern) (t : Tape) (start : Span) (os : List Outline)
      (hp : p ≠ .omitted) (hos : p.outline ⊆ os) (access : Option Access) (isReadonly : Bool) :
      LocatesAt S stop t start os (fun _ => True) (do
        let isOptional ← accept .question
        let type ← after .colon g.type
        let p ← defaulted g p
        return Param.mk p type isOptional isRest access isReadonly) := by
    refine .bind (locates_accept (by decide) t) fun _ t _ => ?_
    refine .bind (locates_after (by decide) hg.type t) fun ty t _ => ?_
    refine .bindSame (.restart (b := p) hp ?_ (locatesAt_defaulted hg hp t)) fun q t _ => ?_
    · grind
    · exact .ofParts trivial nofun (by rw [parts_param, Param.outline]; grind)
  refine .ite (fun h => ?_) fun _ => .bind (locates_pattern hg t) fun p t h =>
    rest _ p t _ _ h (by grind) _ _
  refine .skip (passable_of_at_ h (by decide)) ?_
  refine .also .plain [Name.outline ⟨t.current.span, "this"⟩] (o := .leaf t.current.span)
    List.mem_cons_self trivial
    (by simp [Name.outline, Outline.leaf, Outline.span]) ?_
  exact rest _ (.ident t.current.span ⟨t.current.span, "this"⟩) _ _ _ Pattern.noConfusion
    (by simp [Pattern.outline, Outline.leaf, Outline.span]) _ _

theorem locates_params (hg : LocatesInner S stop g) : Locates S stop (params g) :=
  locates_between (by decide) (by decide)
    ((locates_commaSeparated _ (locates_param hg)).withIn true)

theorem locates_returnType (hg : LocatesInner S stop g) :
    LocatesTo S stop (fun t? => ∀ t, t? = some t → Whole S t) (returnType g) :=
  locates_after (by decide) (locates_typeOrPredicate hg)

theorem locates_block (hg : LocatesInner S stop g) : Locates S stop (block g) := by
  refine fun t => .here <| .expect' (by decide) fun s t => ?_
  refine .bind ((locates_collectUntil _ hg.stmt).withIn true t) fun stmts t _ =>
    .expect' (by decide) fun s t => ?_
  refine .sinceNode (outlineStmts stmts) (by simp) (by grind) <| .ofParts trivial nofun (by grind)

/-- The body of a function that has one. -/
theorem locates_blockBody (hg : LocatesInner S stop g) :
    LocatesTo S stop (fun b => b.outline ≠ []) (blockBody g) := fun t =>
  .bind (locates_block hg t) fun b _ _ =>
    .ofParts (List.cons_ne_nil _ _) nofun (by grind [Body.outline])

theorem locatesAt_functionRest (hg : LocatesInner S stop g) (head : FunctionHead)
    (mayLackBody : Bool)
    {t : Tape} {start : Span} {os : List Outline} (hos : head.name.toList.map Name.outline ⊆ os) :
    LocatesAt S stop t start os (Whole S) (functionRest g head mayLackBody) := by
  refine .bind (locates_optionalTypeParams hg t) fun tps t _ => ?_
  refine .between (by decide) (by decide)
    ((locates_commaSeparated _ (locates_param hg)).withIn true)
    fun ps s t _ => ?_
  refine .bind (locates_returnType hg t) fun r t _ => .get ?_
  refine .ite (fun _ => .bind (locates_blockBody hg t) fun b t _ => ?_) fun _ =>
    .ite (fun _ => ?_) fun _ => ?_
  · exact .ofParts trivial (by simp) (by rw [parts_func, Func.outline]; grind)
  · refine .bind (locates_endStatement t) fun _ t _ => ?_
    exact .ofParts trivial (by simp) (by rw [parts_func, Func.outline]; grind [Body.outline])
  · exact .bindSame (.complain _) fun _ _ => False.elim

theorem locates_function (hg : LocatesInner S stop g) (isAsync isDeclare mayLackBody : Bool) :
    Locates S stop (function g isAsync isDeclare mayLackBody) := by
  refine fun t => .expect' (by decide) fun s t =>
    .bind (locates_accept (by decide) t) fun _ t _ => ?_
  refine .get <| .ite (fun _ => ?_) fun _ => locatesAt_functionRest hg _ _ (List.nil_subset _)
  refine .bind (locates_identifier.some t) fun n t _ => locatesAt_functionRest hg _ _ ?_
  grind

/-! ### Classes -/

theorem passable_of_atMemberWord {t : Tape} (h : t.cursor.atMemberWord = true) : t.Passable := by
  simp only [Cursor.atMemberWord, Bool.and_eq_true] at h
  exact passable_of_at_ h.1.1.1 (by decide)

theorem locates_modifiers (isDeclare : Bool) : Locates S stop (modifiers isDeclare) := fun _ =>
  locatesAt_extend (P := fun _ => True)
    (fun _ _ _ _ _ _ => .get <| .ite
      (fun h => .take (passable_of_atMemberWord h) fun _ => .found trivial (List.nil_subset _))
      fun _ => .nothing nofun rfl)
    trivial (List.nil_subset _) nofun

theorem locatesAt_keyedMember (hg : LocatesInner S stop g) (mods : Modifiers) {t : Tape}
    {start : Span}
    {os : List Outline} : LocatesAt S stop t start os (Whole S) (keyedMember g start mods) := by
  refine .bind (locates_methodWords t) fun words t _ => .bind (locates_key hg t) fun k t _ => ?_
  refine .bind (locates_accept (by decide) t) fun _ t _ => ?_
  refine .bindDiscard (locates_accept (by decide) t) fun _ t => .get <|
    .ite (fun _ => ?_) fun _ => ?_
  · refine .bind (locatesAt_functionRest hg _ _ (List.nil_subset _)) fun f t _ => ?_
    exact .since <| .node trivial rfl (by simp) (by grind)
  · refine .check (fun _ => .complain _) fun _ => ?_
    refine .bind (locates_after (by decide) hg.type t) fun ty t _ => ?_
    refine .bind (locates_after (by decide) hg.assign t) fun e t _ => ?_
    refine .bind (locates_endStatement t) fun _ t _ => .since <|
      .node trivial rfl (by simp) (by grind)

theorem locates_classMember (hg : LocatesInner S stop g) (isDeclare : Bool) :
    Locates S stop (classMember g isDeclare) := by
  refine fun t => .here <| .bind (locates_modifiers _ t) fun mods t _ => .get ?_
  refine .check (fun _ => .complain _) fun _ => .ite (fun h => ?_) fun _ =>
    .ite (fun h => ?_) fun _ =>
    locatesAt_keyedMember hg _
  · refine .skip (passable_of_atIndexSignature h) ?_
    refine .bind (locates_indexSignature hg _) fun signature t _ =>
      .bind (locates_endStatement t) fun _ t _ => ?_
    exact .since <| .node trivial rfl (by simp) (by grind)
  · refine .skip (passable_of_atWord (Bool.and_eq_true_iff.1 h).1) ?_
    refine .bind (locatesAt_functionRest hg _ _ (List.nil_subset _)) fun f t _ => ?_
    exact .since <| .node trivial rfl (by simp) (by grind)

theorem locates_typeList (hg : LocatesInner S stop g) : Locates S stop (typeList g) :=
  locates_sepBy1 (by decide) hg.type

theorem locates_classRest (hg : LocatesInner S stop g) {heritage : Parser Expr}
    (hh : Locates S stop heritage) (isAbstract isDeclare : Bool) :
    Locates S stop (classRest g heritage isAbstract isDeclare) := by
  refine fun t => .expect' (by decide) fun s t => .get ?_
  refine .either (fun _ => locates_identifier.some t) (fun _ => .nothing nofun rfl) fun n t _ => ?_
  refine .bind (locates_optionalTypeParams hg t) fun tps t _ => ?_
  refine .bind (locates_after (by decide) hh t) fun base t _ => .get ?_
  refine .either (fun _ => locates_typeArguments hg t)
    (fun _ => .nothing trivial rfl) fun ts t _ => ?_
  refine .bind (locates_acceptWord _ t) fun _ t _ => ?_
  refine .either (fun _ => locates_typeList hg t) (fun _ => .nothing trivial rfl) fun is t _ => ?_
  refine .expect' (by decide) fun s t =>
    .bind (locates_collectUntil (P := fun _ => True) _ ?_ t) fun ms t _ =>
    .expect' (by decide) fun s t => ?_
  · refine fun t => .bind (locates_accept (by decide) t) fun _ t _ => .ite (fun _ => ?_) fun _ => ?_
    · exact .nothing trivial rfl
    · refine .bind ((locates_classMember hg _).withIn true t) fun m t _ => .ofParts trivial nofun ?_
      grind [parts_some]
  · refine .ofParts trivial (by simp) ?_
    rw [parts_class, Class.outline, ← parts_members, parts_filterMap_id]
    grind

end TypeStrip.Grammar
