import TypeStrip.Grammar.Type
import TypeStrip.Proofs.Grammar.Keys

/-! Types are read soundly. Nothing is asked of the types themselves. -/
namespace TypeStrip.Grammar
open TypeStrip.Token (Kind)
open Site

variable {I : Cursor → Prop} [Kept I] {g : Inner}

/-! ### Arguments and parameters -/

theorem keeps_typeArguments (hg : KeepsInner I g) : Keeps I (typeArguments g) :=
  .bind (.discard (keeps_expect _)) fun _ _ => .bind (keeps_sepBy1 _ hg.type) fun _ h =>
    .bind keeps_closeAngle fun _ _ => .pure h

theorem keeps_skipVariance : Keeps I skipVariance :=
  .discard <| keeps_collect <| .get fun _ =>
    .ite (.bind keeps_skip fun _ _ => .pure (sound_some.2 trivial)) (.pure sound_none)

theorem keeps_typeParams (hg : KeepsInner I g) : Keeps I (typeParams g) := by
  refine .bind (.discard (keeps_expect _)) fun _ _ => ?_
  refine .bind (keeps_commaSeparated _ ?_) fun ps h => ?_
  · refine .bind keeps_skipVariance fun _ _ => .bind keeps_identifier fun _ _ => ?_
    refine .bind (keeps_after _ hg.type) fun _ _ => .bind (keeps_after _ hg.type) fun _ _ => ?_
    exact .pure trivial
  · exact .bind keeps_closeAngle fun _ _ => .when (keeps_complain _) (.pure h)

theorem keeps_optionalTypeParams (hg : KeepsInner I g) : Keeps I (optionalTypeParams g) :=
  .get fun _ => .ite (keeps_typeParams hg) (.pure sound_nil)

theorem keeps_typeOrPredicate (hg : KeepsInner I g) : Keeps I (typeOrPredicate g) := by
  refine .bind keeps_here fun start _ => .get fun c => .ite ?_ (.ite ?_ hg.type)
  · refine .bind keeps_skip fun _ _ => .bind keeps_skip fun _ _ => ?_
    refine .bind (keeps_acceptWord _) fun _ _ => .when (.discard hg.type) ?_
    exact .bind (keeps_since _) fun _ _ => .pure trivial
  · refine .bind keeps_skip fun _ _ => .bind keeps_skip fun _ _ => ?_
    refine .bind (.discard hg.type) fun _ _ => .bind (keeps_since _) fun _ _ => .pure trivial

/-! ### Signatures -/

theorem keeps_typeParamPattern (hg : KeepsInner I g) : Keeps I (typeParamPattern g) := by
  have omitted : Keeps I (do discard <| pattern g; return Pattern.omitted) :=
    .bind (.discard (keeps_pattern hg)) fun _ _ => .pure (Pattern.sound allDeep_nil)
  refine .get fun c => ?_
  split
  · exact omitted
  · exact omitted
  · exact .ite (.bind keeps_take fun _ _ => .pure (Pattern.sound allDeep_nil)) (keeps_complain _)
  · exact .ite (.bind keeps_take fun _ _ => .pure (Pattern.sound allDeep_nil)) (keeps_complain _)
  · exact keeps_complain _

theorem keeps_signatureParams (hg : KeepsInner I g) : Keeps I (signatureParams g) :=
  keeps_commaSeparated _ <| .bind (keeps_accept _) fun _ _ =>
    .bind (keeps_typeParamPattern hg) fun _ h => .bind (keeps_accept _) fun _ _ =>
      .bind (keeps_after _ hg.type) fun _ _ => .pure h

theorem keeps_signature (hg : KeepsInner I g) : Keeps I (signature g) := by
  refine .bind (keeps_optionalTypeParams hg) fun _ _ => .bind (.discard (keeps_expect _)) fun _ _ => ?_
  refine .bind (keeps_signatureParams hg) fun ps h => .bind (.discard (keeps_expect _)) fun _ _ => ?_
  refine .bind (keeps_after _ (keeps_typeOrPredicate hg)) fun _ _ => ?_
  exact .pure (sound_func.2 ⟨h, sound_absent⟩)

theorem keeps_functionType (hg : KeepsInner I g) (start : Span) : Keeps I (functionType g start) := by
  refine .bind (keeps_optionalTypeParams hg) fun _ _ => .bind (.discard (keeps_expect _)) fun _ _ => ?_
  refine .bind (keeps_signatureParams hg) fun ps h => .bind (.discard (keeps_expect _)) fun _ _ => ?_
  refine .bind (.discard (keeps_expect _)) fun _ _ => ?_
  exact .bind (keeps_typeOrPredicate hg) fun _ _ => .pure trivial

theorem keeps_indexSignature (hg : KeepsInner I g) : Keeps I (indexSignature g) := by
  refine .bind keeps_identifier fun _ _ => .bind (.discard (keeps_expect _)) fun _ _ => ?_
  refine .bind hg.type fun _ _ => .bind (.discard (keeps_expect _)) fun _ _ => ?_
  refine .bind (.discard (keeps_expect _)) fun _ _ => .bind hg.type fun _ _ => ?_
  exact .pure ⟨trivial, trivial, trivial⟩

/-! ### Members -/

theorem keeps_typeMember (hg : KeepsInner I g) : Keeps I (typeMember g) := by
  refine .bind keeps_here fun start _ => .get fun c => .when keeps_skip (.get fun c => .ite ?_ ?_)
  · refine .bind keeps_skip fun _ _ => .bind (keeps_indexSignature hg) fun _ _ => ?_
    exact .bind (keeps_since _) fun _ _ => .pure allDeep_nil
  · refine .get fun c => .when keeps_skip (.get fun c => .ite ?_ ?_)
    · refine .bind (keeps_signature hg) fun _ _ => .bind (keeps_since _) fun _ _ => ?_
      exact .pure allDeep_nil
    · refine .bind (.discard keeps_methodWords) fun _ _ => .bind (keeps_key hg) fun k hk => ?_
      refine .bind (keeps_accept _) fun _ _ => .get fun c => .ite ?_ ?_
      · refine .bind (keeps_signature hg) fun f hf => .bind (keeps_since _) fun _ _ => .pure ?_
        exact allDeep_cons.2 ⟨hk, allDeep_cons.2 ⟨deep_function.2 hf, allDeep_nil⟩⟩
      · refine .bind (keeps_after _ hg.type) fun _ _ => .bind (keeps_since _) fun _ _ => .pure ?_
        exact allDeep_cons.2 ⟨hk, allDeep_nil⟩

theorem keeps_typeMembers (hg : KeepsInner I g) : Keeps I (typeMembers g) := by
  refine .bind (.discard (keeps_expect _)) fun _ _ => ?_
  refine .bind (keeps_collectUntil _ ?_) fun ms h => ?_
  · refine .bind (keeps_typeMember hg) fun m h => .bind (keeps_accept _) fun _ _ => ?_
    exact .otherwise (.discard (keeps_accept _)) (.pure h)
  · exact .bind (.discard (keeps_expect _)) fun _ _ => .pure h

theorem keeps_skipSign : Keeps I skipSign :=
  .bind (keeps_accept _) fun _ _ => .ite (.pure trivial) (.discard (keeps_accept _))

theorem keeps_mappedType (hg : KeepsInner I g) : Keeps I (mappedType g) := by
  refine .bind keeps_here fun start _ => .bind (.discard (keeps_expect _)) fun _ _ => ?_
  refine .bind keeps_skipSign fun _ _ => .bind (.discard (keeps_acceptWord _)) fun _ _ => ?_
  refine .bind (.discard (keeps_expect _)) fun _ _ => .bind keeps_identifier fun _ _ => ?_
  refine .bind (.discard (keeps_expect _)) fun _ _ => .bind hg.type fun _ _ => ?_
  refine .bind (keeps_acceptWord _) fun _ _ => .when (.discard hg.type) ?_
  refine .bind (.discard (keeps_expect _)) fun _ _ => .bind keeps_skipSign fun _ _ => ?_
  refine .bind (.discard (keeps_accept _)) fun _ _ => .bind (keeps_after _ hg.type) fun _ _ => ?_
  refine .bind (keeps_accept _) fun _ _ => .otherwise (.discard (keeps_accept _)) ?_
  refine .bind (.discard (keeps_expect _)) fun _ _ => .bind (keeps_since _) fun _ _ => .pure trivial

theorem keeps_tupleElement (hg : KeepsInner I g) : Keeps I (tupleElement g) := by
  refine .bind (.discard (keeps_accept _)) fun _ _ => .get fun c => .ite_of ?_ fun h => ?_
  · exact .bind hg.type fun _ _ => .bind (.discard (keeps_accept _)) fun _ _ => .pure trivial
  · refine .bind keeps_skip fun _ _ => .bind (.discard (keeps_accept _)) fun _ _ => ?_
    exact .bind (.discard (keeps_expect _)) fun _ _ => h

/-! ### Operands and operators -/

theorem keeps_typeReference (hg : KeepsInner I g) : Keeps I (typeReference g) := by
  refine .bind keeps_here fun start _ => .bind keeps_identifier fun _ _ => ?_
  refine .bind (keeps_collect (keeps_after _ keeps_anyName)) fun _ _ => .get fun c => ?_
  refine .either (keeps_typeArguments hg) (.pure sound_nil) fun _ _ => ?_
  exact .bind (keeps_since _) fun _ _ => .pure trivial

theorem keeps_literalType (span : Span) (value : LiteralType) : Keeps I (literalType span value) :=
  .bind keeps_skip fun _ _ => .pure trivial

theorem keeps_primaryType (hg : KeepsInner I g) : Keeps I (primaryType g) := by
  have word (t : TypeExpr) : Keeps I (do skip; return t) := .bind keeps_skip fun _ _ => .pure trivial
  refine .get fun c => ?_
  dsimp only
  split
  · split
    · exact .ite (keeps_typeReference hg) (word _)
    · exact keeps_typeReference hg
  · exact word _
  · exact word _
  · exact word _
  · exact word _
  · refine .bind keeps_skip fun _ _ => .get fun c => .when (keeps_complain _) ?_
    refine .bind (keeps_sepBy1 _ keeps_anyName) fun _ _ => .bind (keeps_since _) fun _ _ => ?_
    exact .pure trivial
  · exact keeps_literalType _ _
  · exact keeps_literalType _ _
  · exact keeps_literalType _ _
  · exact keeps_literalType _ _
  · exact keeps_literalType _ _
  · refine .ite (.bind keeps_skip fun _ _ => .bind keeps_take fun _ _ => ?_) (keeps_complainFound _)
    exact .bind (keeps_since _) fun _ _ => .pure trivial
  · refine .bind keeps_skip fun _ _ => .bind hg.type fun _ _ => ?_
    exact .bind (.discard (keeps_expect _)) fun _ _ => .bind (keeps_since _) fun _ _ => .pure trivial
  · refine .bind keeps_skip fun _ _ => ?_
    refine .bind (keeps_commaSeparated _ (keeps_tupleElement hg)) fun _ _ => ?_
    exact .bind (.discard (keeps_expect _)) fun _ _ => .bind (keeps_since _) fun _ _ => .pure trivial
  · refine .bind (.attempt (keeps_mappedType hg)) fun t _ => ?_
    cases t with
    | some t => exact .pure trivial
    | none => exact .bind (keeps_typeMembers hg) fun _ _ => .bind (keeps_since _) fun _ _ => .pure trivial
  · exact keeps_complainFound _

theorem keeps_postfixType (hg : KeepsInner I g) : Keeps I (postfixType g) := by
  refine .bind keeps_here fun start _ => .bind (keeps_primaryType hg) fun t _ => ?_
  refine keeps_extend (fun t _ => .get fun c => .ite (.pure sound_none) ?_) t trivial
  refine .bind keeps_skip fun _ _ => .bind (keeps_accept _) fun _ _ => .ite ?_ ?_
  · exact .bind (keeps_since _) fun _ _ => .pure (sound_some.2 trivial)
  · refine .bind hg.type fun _ _ => .bind (.discard (keeps_expect _)) fun _ _ => ?_
    exact .bind (keeps_since _) fun _ _ => .pure (sound_some.2 trivial)

theorem keeps_typeOperatorUpTo (hg : KeepsInner I g) (fuel : Nat) :
    Keeps I (typeOperatorUpTo g fuel) := by
  induction fuel with
  | zero => exact keeps_complain _
  | succ fuel ih =>
    refine .bind keeps_here fun start _ => .get fun c => .ite ?_ (keeps_postfixType hg)
    split
    · exact .bind keeps_skip fun _ _ => .bind ih fun _ _ => .pure trivial
    · exact .bind keeps_skip fun _ _ => ih
    · exact .bind keeps_skip fun _ _ => ih
    · exact .bind keeps_skip fun _ _ => .bind keeps_identifier fun _ _ => .pure trivial
    · exact keeps_postfixType hg

theorem keeps_typeOperator (hg : KeepsInner I g) : Keeps I (typeOperator g) :=
  .get fun _ => keeps_typeOperatorUpTo hg _

theorem keeps_operatorChain {operand : Parser TypeExpr} (operator : Kind)
    (make : Span → List TypeExpr → TypeExpr) (ho : Keeps I operand) :
    Keeps I (operatorChain operator operand make) := by
  refine .bind keeps_here fun start _ => .bind (.discard (keeps_accept _)) fun _ _ => ?_
  refine .bind ho fun _ _ => .get fun c => .ite (.pure trivial) ?_
  refine .bind (keeps_collect (keeps_after _ ho)) fun _ _ => ?_
  exact .bind (keeps_since _) fun _ _ => .pure trivial

theorem keeps_unionType (hg : KeepsInner I g) : Keeps I (unionType g) :=
  keeps_operatorChain _ _ (keeps_operatorChain _ _ (keeps_typeOperator hg))

theorem keeps_typeBody (hg : KeepsInner I g) : Keeps I (typeBody g) := by
  refine .bind keeps_here fun start _ => .get fun c => .when keeps_skip ?_
  refine .bind (keeps_accept _) fun _ _ => .ite (keeps_functionType hg _) (.get fun c => ?_)
  refine .ite (keeps_functionType hg _) (.get fun c => ?_)
  refine .ite_of ?_ fun h => .bind (.attempt (keeps_functionType hg _)) fun f _ => ?_
  · refine .bind (keeps_unionType hg) fun _ _ => .get fun c => .ite ?_ (.pure trivial)
    refine .bind keeps_skip fun _ _ => .bind (keeps_unionType hg) fun _ _ => ?_
    refine .bind (.discard (keeps_expect _)) fun _ _ => .bind hg.type fun _ _ => ?_
    exact .bind (.discard (keeps_expect _)) fun _ _ => .bind hg.type fun _ _ => .pure trivial
  · cases f with
    | some f => exact .pure trivial
    | none => exact h

end TypeStrip.Grammar
