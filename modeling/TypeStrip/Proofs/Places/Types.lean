import TypeStrip.Proofs.Places.Keys

/-! Types are located. -/
namespace TypeStrip.Grammar
open Outlined
open TypeStrip.Token (Kind)

variable {S : Source} {stop : Nat} {g : Inner}

/-! ### Arguments and parameters -/

theorem locates_typeArguments (hg : LocatesInner S stop g) : Locates S stop (typeArguments g) :=
  fun _ => .expect' (by decide) fun _ t => .bind (locates_sepBy1 (by decide) hg.type t) fun _ t _ =>
    .bind (locates_closeAngle t) fun _ _ _ => .ofParts trivial nofun (by grind)

theorem locates_skipVariance : Locates S stop skipVariance := by
  refine (locates_collect (R := fun _ => True) fun t => .get <| .ite (fun h => ?_) fun _ =>
    .nothing trivial rfl).discard
  refine .skip ?_ (.nothing trivial rfl)
  rcases Bool.or_eq_true_iff.1 (Bool.and_eq_true_iff.1 h).1 with h | h
  · rcases Bool.or_eq_true_iff.1 h with h | h
    · exact passable_of_at_ h (by decide)
    · exact passable_of_at_ h (by decide)
  · exact passable_of_atWord h

theorem locates_typeParams (hg : LocatesInner S stop g) : Locates S stop (typeParams g) := by
  refine fun t => .expect' (by decide) fun s t => ?_
  refine .bind (locates_commaSeparated (P := fun _ => True) _ ?_ t) fun ps t _ => ?_
  · refine fun t => .bind (locates_skipVariance t) fun _ t _ =>
      .bind (locates_identifier t) fun n t _ => ?_
    refine .bind (locates_after (by decide) hg.type t) fun b t _ => ?_
    refine .bind (locates_after (by decide) hg.type t) fun f t _ => ?_
    exact .ofParts trivial nofun (by rw [parts_typeParam, TypeParam.outline]; grind)
  · refine .bind (locates_closeAngle t) fun _ t _ => .check (fun _ => .complain _) fun _ => ?_
    exact .ofParts trivial nofun (by grind)

theorem locates_optionalTypeParams (hg : LocatesInner S stop g) :
    Locates S stop (optionalTypeParams g) := fun t =>
  .get <| .ite (fun _ => locates_typeParams hg t) fun _ => .nothing trivial rfl

theorem locates_typeOrPredicate (hg : LocatesInner S stop g) : Locates S stop
    (typeOrPredicate g) := by
  refine fun t => .here <| .get <| .ite (fun h => ?_) fun _ => .ite (fun h => ?_) fun _ => hg.type t
  · obtain ⟨h, h'⟩ := Bool.and_eq_true_iff.1 h
    have hp := passable_of_atWord h
    refine .skip hp <| .skip (hp.advance_of_seesAny h' (by decide)) ?_
    refine .bind (locates_acceptWord _ _) fun _ t _ =>
      .when (fun _ => (hg.type t).discard) fun t => ?_
    exact .since <| .node trivial rfl (by simp) (List.nil_subset _)
  · obtain ⟨h, h'⟩ := Bool.and_eq_true_iff.1 h
    have hp := passable_of_seesAny h (by decide)
    refine .skip hp <| .skip (hp.advance h' fun u hu => ?_) ?_
    · rw [beq_iff_eq.1 (Bool.and_eq_true_iff.1 hu).1]
      decide
    · refine .bind (hg.type _).discard fun _ t _ => ?_
      exact .since <| .node trivial rfl (by simp) (List.nil_subset _)

/-! ### Signatures -/

theorem locates_typeParamPattern (hg : LocatesInner S stop g) :
    LocatesTo S stop (fun _ => True) (typeParamPattern g) := by
  have forgotten (t : Tape) : LocatesAt S stop t t.current.span [] (fun _ => True)
      (do discard <| pattern g; return Pattern.omitted) :=
    .bindDiscard (locates_pattern hg t) fun p t => .ofParts trivial (by simp) (List.nil_subset _)
  have name (t : Tape) (h : t.Passable) : LocatesAt S stop t t.current.span [] (fun _ => True) (do
      let u ← take
      return Pattern.ident u.span ⟨u.span, u.value⟩) :=
    .take h fun _ => .relabel (o := .leaf t.current.span) trivial List.mem_cons_self rfl trivial
      (by simp [Name.outline, Outline.leaf, Outline.span])
  refine fun t => .get ?_
  split
  · exact forgotten t
  · exact forgotten t
  · rename_i h
    exact .ite (fun _ => name t (passable_of_kind h (by decide))) fun _ => .complain _
  · rename_i h
    exact .ite (fun _ => name t (passable_of_kind h (by decide))) fun _ => .complain _
  · exact .complain _

theorem locates_signatureParams (hg : LocatesInner S stop g) : Locates S stop (signatureParams g) :=
  locates_commaSeparated (P := fun _ => True) _ fun t =>
    .bind (locates_accept (by decide) t) fun _ t _ =>
      .bind (locates_typeParamPattern hg t) fun p t _ =>
      .bind (locates_accept (by decide) t) fun _ t _ => .bind (locates_after (by decide) hg.type t)
        fun ty t _ => .ofParts trivial nofun (by rw [parts_param, Param.outline]; grind)

theorem locates_signature (hg : LocatesInner S stop g) : Locates S stop (signature g) := by
  refine fun t => .bind (locates_optionalTypeParams hg t) fun ts t _ =>
    .expect' (by decide) fun s t => ?_
  refine .bind (locates_signatureParams hg t) fun ps t _ => .expect' (by decide) fun s t => ?_
  refine .bind (locates_after (by decide) (locates_typeOrPredicate hg) t) fun r t _ => ?_
  exact .ofParts trivial (by simp) (by grind [Func.outline, Body.outline])

theorem locatesAt_functionType (hg : LocatesInner S stop g) (t : Tape) (start : Span)
    (os : List Outline) : LocatesAt S stop t start os (Whole S) (functionType g start) := by
  refine .bind (locates_optionalTypeParams hg t) fun ts t _ => .expect' (by decide) fun s t => ?_
  refine .bind (locates_signatureParams hg t) fun ps t _ => .expect' (by decide) fun s t => ?_
  refine .expect' (by decide) fun s t => ?_
  refine .bindLast (locates_typeOrPredicate hg) fun r t hr => ?_
  exact .hull hr trivial rfl (by grind [Func.outline, Body.outline, outlineType?])

theorem locates_indexSignature (hg : LocatesInner S stop g) : Locates S stop
    (indexSignature g) := by
  refine fun t => .bind (locates_identifier t) fun n t hn => .expect' (by decide) fun s t => ?_
  refine .bind (hg.type t) fun k t _ => .expect' (by decide) fun s t =>
    .expect' (by decide) fun s t => ?_
  exact .bind (hg.type t) fun v t _ => .ofParts ⟨hn, trivial, trivial⟩ nofun (by grind)

/-! ### Members -/

theorem passable_of_atIndexSignature {t : Tape} (h : t.cursor.atIndexSignature = true) :
    t.Passable :=
  passable_of_at_ (Bool.and_eq_true_iff.1 (Bool.and_eq_true_iff.1 h).1).1 (by decide)

theorem locates_typeMember (hg : LocatesInner S stop g) : Locates S stop (typeMember g) := by
  refine fun t => .here <| .get <| .when (fun h => locatesAt_skip ?_) fun t' => .get <|
    .ite (fun h => ?_)
    fun _ => ?_
  · exact passable_of_atWord (Bool.and_eq_true_iff.1 h).1
  · refine .skip (passable_of_atIndexSignature h) ?_
    refine .bind (locates_indexSignature hg _) fun signature t _ => ?_
    exact .since <| .node trivial rfl (by simp) (by grind)
  · refine .get <| .when (fun h => locatesAt_skip ?_) fun t' => .get <|
      .ite (fun _ => ?_) fun _ => ?_
    · exact passable_of_at_ (Bool.and_eq_true_iff.1 h).1 (by decide)
    · refine .bind (locates_signature hg _) fun f t _ => ?_
      exact .since <| .node trivial rfl (by simp) (by grind)
    · refine .bindDiscard (locates_methodWords _) fun _ t =>
        .bind (locates_key hg t) fun k t _ => ?_
      refine .bind (locates_accept (by decide) t) fun _ t _ => .get <|
        .ite (fun _ => ?_) fun _ => ?_
      · refine .bind (locates_signature hg _) fun f t _ => ?_
        exact .since <| .node trivial rfl (by simp) (by grind)
      · refine .bind (locates_after (by decide) hg.type t) fun ty t _ => ?_
        exact .since <| .node trivial rfl (by simp) (by grind [outlineExpr?])

theorem locates_typeMembersOpen (hg : LocatesInner S stop g) :
    Locates S stop (collectUntil .rBrace (listedMember g)) := by
  refine locates_collectUntil (P := fun _ => True) _ fun t =>
    .bind (locates_typeMember hg t) fun m t _ => ?_
  refine .bind (locates_accept (by decide) t) fun _ t _ => ?_
  refine .otherwise (fun _ => (locates_accept (by decide) t).discard) fun t => ?_
  exact .ofParts trivial (by simp) (by grind)

theorem locates_skipSign : Locates S stop skipSign := fun t =>
  .bind (locates_accept (by decide) t) fun _ t _ => .ite (fun _ => .nothing trivial rfl) fun _ =>
    .last (locates_accept (by decide) t).discard

theorem locates_mappedType (hg : LocatesInner S stop g) : Locates S stop (mappedType g) := by
  refine fun t => .here <| .expect' (by decide) fun s t =>
    .bind (locates_skipSign t) fun _ t _ => ?_
  refine .bindDiscard (locates_acceptWord _ t) fun _ t => .expect' (by decide) fun s t => ?_
  refine .bind (locates_identifier t) fun n t _ => .expect' (by decide) fun s t => ?_
  refine .bind (hg.type t) fun k t _ => .bind (locates_acceptWord _ t) fun _ t _ => ?_
  refine .when (fun _ => (hg.type t).discard) fun t => .expect' (by decide) fun s t => ?_
  refine .bind (locates_skipSign t) fun _ t _ =>
    .bindDiscard (locates_accept (by decide) t) fun _ t => ?_
  refine .bind (locates_after (by decide) hg.type t) fun v t _ => ?_
  refine .bind (locates_accept (by decide) t) fun _ t _ => ?_
  refine .otherwise (fun _ => (locates_accept (by decide) t).discard) fun t =>
    .expect' (by decide) fun s t => ?_
  exact .since <| .node trivial rfl (by simp) (by grind)

theorem locates_tupleElement (hg : LocatesInner S stop g) : Locates S stop (tupleElement g) := by
  have element (t : Tape) (os : List Outline) (start : Span) : LocatesAt S stop t start os
      (Whole S) (do
      let ty ← g.type
      discard <| accept .question
      return ty) :=
    .bind (hg.type t) fun ty t' h => .bindDiscard (locates_accept (by decide) t') fun _ _ =>
      .kept t.current.span h (by grind)
  refine fun t => .bindDiscard (locates_accept (by decide) t) fun _ t => .get <|
    .ite (fun h => ?_) fun _ =>
    element t _ _
  refine .skip (passable_of_at_ (Bool.and_eq_true_iff.1 h).1 (by decide)) ?_
  refine .bindDiscard (locates_accept (by decide) _) fun _ t => .expect' (by decide) fun s t =>
    element t _ _

/-! ### Operands and operators -/

theorem locates_typeReference (hg : LocatesInner S stop g) : Locates S stop (typeReference g) := by
  refine fun t => .here <| .bind (locates_identifier t) fun n t _ => ?_
  refine .bind (locates_collect (locates_after (by decide) locates_anyName) t) fun ns t _ => .get ?_
  refine .either (fun _ => locates_typeArguments hg t)
    (fun _ => .nothing trivial rfl) fun ts t _ => ?_
  exact .since <| .node trivial rfl (by simp) (by grind)

/-- A type that takes one token. -/
private theorem locatesAt_word {t : Tape} (h : t.Passable) {ty : TypeExpr}
    (hty : ty.outline = [.leaf t.current.span]) :
    LocatesAt S stop t t.current.span [] (Whole S) (do skip; return ty) :=
  .skip h <| .ofParts trivial (by simp) (by simp [hty])

theorem locates_primaryType (hg : LocatesInner S stop g) : Locates S stop (primaryType g) := by
  intro t
  have reference (h : t.Passable) : LocatesAt S stop t t.current.span [] (Whole S) (do
      skip
      return TypeExpr.reference t.current.span [⟨t.current.span, t.current.value⟩] []) := by
    refine .skip h <| .relabel (o := .leaf t.current.span) trivial
      (by simp) rfl trivial fun c hc => ?_
    cases List.mem_singleton.1 hc
    exact .inr ⟨List.mem_cons_self, rfl⟩
  refine .get ?_
  dsimp only
  split
  · rename_i h
    have hp := passable_of_kind h (by decide)
    split
    · exact .ite (fun _ => locates_typeReference hg t) fun _ => locatesAt_word hp rfl
    · exact locates_typeReference hg t
  · rename_i h
    exact locatesAt_word (passable_of_kind h (by decide)) rfl
  · rename_i h
    exact locatesAt_word (passable_of_kind h (by decide)) rfl
  · rename_i h
    exact reference (passable_of_kind h (by decide))
  · rename_i h
    exact reference (passable_of_kind h (by decide))
  · rename_i h
    refine .skip (passable_of_kind h (by decide)) <| .get <|
      .check (fun _ => .complain _) fun _ => ?_
    refine .bind (locates_sepBy1 (by decide) locates_anyName _) fun ns t _ => ?_
    exact .since <| .node trivial rfl (by simp) (by grind)
  · rename_i h
    exact locatesAt_word (passable_of_kind h (by decide)) rfl
  · rename_i h
    exact locatesAt_word (passable_of_kind h (by decide)) rfl
  · rename_i h
    exact locatesAt_word (passable_of_kind h (by decide)) rfl
  · rename_i h
    exact locatesAt_word (passable_of_kind h (by decide)) rfl
  · rename_i h
    exact locatesAt_word (passable_of_kind h (by decide)) rfl
  · rename_i h
    have hp := passable_of_kind h (by decide)
    refine .ite (fun h' => ?_) fun _ => .complainFound _
    refine .skip hp <| .take (hp.advance_of_sees h' (by decide)) fun _ => ?_
    exact .since <| .node trivial rfl (by simp) (List.nil_subset _)
  · rename_i h
    refine .skip (passable_of_kind h (by decide)) <| .bind (hg.type _) fun ty t _ => ?_
    exact .expect' (by decide) fun s t => .since <| .node trivial rfl (by simp) (by grind)
  · rename_i h
    refine .skip (passable_of_kind h (by decide)) ?_
    refine .bind (locates_commaSeparated _ (locates_tupleElement hg) _) fun ts t _ => ?_
    exact .expect' (by decide) fun s t => .since <| .node trivial rfl (by simp) (by grind)
  · refine .bind (locates_mappedType hg t).attempt fun ty t' h => ?_
    cases ty with
    | some ty => exact .placed trivial (by grind)
    | none =>
      refine .between (by decide) (by decide) (locates_typeMembersOpen hg) fun ms s t _ => ?_
      exact .since <| .node trivial rfl (by simp) (by grind)
  · exact .complainFound _

theorem locates_postfixType (hg : LocatesInner S stop g) : Locates S stop (postfixType g) := by
  refine fun t => .here <| .bind (locates_primaryType hg t) fun ty t' _ => ?_
  refine locatesAt_extend (fun ty u os _ hos hne => .get <|
    .ite (fun _ => .nothing nofun rfl) fun h => ?_)
    trivial (by grind) (by simp)
  have hat : u.cursor.at_ .lBracket = true := by simp_all
  refine .skip (passable_of_at_ hat (by decide)) <|
    .bind (locates_accept (by decide) _) fun _ v _ => ?_
  refine .ite (fun _ => .since ?_) fun _ => .bind (hg.type v) fun i v _ => ?_
  · exact .foundNode trivial rfl (by simp) (by grind)
  · exact .expect' (by decide) fun s v => .since <| .foundNode trivial rfl (by simp) (by grind)

/-- A type with an operator in front of it. -/
theorem locates_typeOperatorUpTo (hg : LocatesInner S stop g) (fuel : Nat) :
    Locates S stop (typeOperatorUpTo g fuel) := by
  induction fuel with
  | zero => exact fun _ => .complain _
  | succ fuel ih =>
    refine fun t => .here <| .get <| .ite (fun h => ?_) fun _ => locates_postfixType hg t
    have hp := passable_of_at_ (Bool.and_eq_true_iff.1 h).1 (by decide)
    split
    · exact .skip hp <| .bindLast ih fun ty t h => .hull h trivial rfl (by grind)
    · exact .skip hp <| .last (ih _)
    · exact .skip hp <| .last (ih _)
    · exact .skip hp <| .bindLast locates_identifier fun n t h => .hull h trivial rfl (by grind)
    · exact locates_postfixType hg t

theorem locates_typeOperator (hg : LocatesInner S stop g) : Locates S stop (typeOperator g) :=
  fun t => .get <| locates_typeOperatorUpTo hg _ t

theorem locates_operatorChain {operand : Parser TypeExpr} {operator : Kind} (hk : operator ≠ .error)
    {make : Span → List TypeExpr → TypeExpr}
    (hm : ∀ s ts, (make s ts).outline = [.node s .plain (outlineTypes ts)])
    (ho : Locates S stop operand) : Locates S stop (operatorChain operator operand make) := by
  refine fun t => .here <| .bindDiscard (locates_accept hk t) fun _ t =>
    .bind (ho t) fun ty t' _ => ?_
  refine .get <| .ite (fun _ => .kept t.current.span trivial (by grind)) fun _ => ?_
  refine .bind (locates_collect (locates_after hk ho) t') fun ts t _ => ?_
  exact .since <| .node trivial (hm _ _) (by simp) (by grind [outlineTypes])

theorem locates_unionType (hg : LocatesInner S stop g) : Locates S stop (unionType g) :=
  locates_operatorChain (by decide) (fun _ _ => rfl)
    (locates_operatorChain (by decide) (fun _ _ => rfl) (locates_typeOperator hg))

/-- A type that does not start with a function type. -/
theorem locatesAt_conditionalType (hg : LocatesInner S stop g) {t : Tape} {start : Span}
    {os : List Outline} : LocatesAt S stop t start os (Whole S) (do
      let check ← unionType g
      let c ← get
      if c.at_ .kwExtends && !c.current.newlineBefore then
        skip
        let bound ← unionType g
        discard <| expect .question
        let yes ← g.type
        discard <| expect .colon
        let no ← g.type
        return .conditional (start.merge no.span) check bound yes no
      return check) := by
  refine .bind (locates_unionType hg t) fun ty t' _ => .get <| .ite (fun h => ?_) fun _ =>
    .kept t.current.span trivial (List.subset_append_left ..)
  refine .skip (passable_of_at_ (Bool.and_eq_true_iff.1 h).1 (by decide)) ?_
  refine .bind (locates_unionType hg _) fun b t _ => .expect' (by decide) fun s t => ?_
  refine .bind (hg.type t) fun y t _ => .expect' (by decide) fun s t => ?_
  exact .bindLast hg.type fun n t h => .hull h trivial rfl (by grind)

theorem locates_typeBody (hg : LocatesInner S stop g) : Locates S stop (typeBody g) := by
  refine fun t => .here <| .get <| .when (fun h => locatesAt_skip ?_) fun t' => ?_
  · exact passable_of_atWord (Bool.and_eq_true_iff.1 h).1
  refine .bind (locates_accept (by decide) t') fun _ t' _ => .ite
    (fun _ => locatesAt_functionType hg _ _ _) fun _ => .get ?_
  refine .ite (fun _ => locatesAt_functionType hg _ _ _) fun _ => .get <|
    .ite (fun _ => ?_) fun _ =>
    locatesAt_conditionalType hg
  refine .bindSame (locatesAt_functionType hg _ _ _).attempt fun f t' _ => ?_
  cases f with
  | some f => exact .placed trivial (by grind)
  | none => exact locatesAt_conditionalType hg

end TypeStrip.Grammar
