import TypeStrip.Grammar.Class
import TypeStrip.Proofs.Grammar.Types

/-! Functions and classes are read soundly. -/
namespace TypeStrip.Grammar
open TypeStrip.Token (Kind)
open Site

variable {I : Cursor → Prop} [Kept I] {g : Inner}

/-! ### Functions -/

theorem keeps_propertyWord : Keeps I propertyWord :=
  .get fun _ => .ite (.pure sound_none)
    (.bind keeps_skip fun _ _ => .pure (sound_some.2 fun _ _ => trivial))

theorem keeps_param (hg : KeepsInner I g) : Keeps I (param g) := by
  refine .bind (keeps_collect keeps_propertyWord) fun _ _ => .bind (keeps_accept _) fun _ _ => ?_
  refine .get fun c => .eitherStep keeps_skip (fun _ => .pure (Pattern.sound allDeep_nil))
    (keeps_pattern hg) fun p hp => ?_
  refine .bind (keeps_accept _) fun _ _ => .bind (keeps_after _ hg.type) fun _ _ => ?_
  exact .bind (keeps_defaulted hg hp) fun p hp => .pure hp

theorem keeps_params (hg : KeepsInner I g) : Keeps I (params g) :=
  .bind (.discard (keeps_expect _)) fun _ _ =>
    .bind (.withIn (keeps_commaSeparated _ (keeps_param hg))) fun _ h =>
      .bind (.discard (keeps_expect _)) fun _ _ => .pure h

theorem keeps_returnType (hg : KeepsInner I g) : Keeps I (returnType g) :=
  keeps_after _ (keeps_typeOrPredicate hg)

theorem keeps_block (hg : KeepsInner I g) : Keeps I (block g) := by
  refine .bind keeps_here fun start _ => .bind (.discard (keeps_expect _)) fun _ _ => ?_
  refine .bind (.withIn (keeps_collectUntil _ hg.stmt)) fun stmts h => ?_
  refine .bind (.discard (keeps_expect _)) fun _ _ => .bind (keeps_since _) fun _ _ => ?_
  exact .pure ⟨trivial, h⟩

theorem keeps_blockBody (hg : KeepsInner I g) : Keeps I (blockBody g) :=
  .bind (keeps_block hg) fun _ h => .pure (sound_block.2 h.2)

theorem keeps_functionRest (hg : KeepsInner I g) (head : FunctionHead) (mayLackBody : Bool) :
    Keeps I (functionRest g head mayLackBody) := by
  refine .bind (keeps_optionalTypeParams hg) fun _ _ => .bind (keeps_params hg) fun ps hps => ?_
  refine .bind (keeps_returnType hg) fun _ _ => .get fun c => .ite ?_ (.ite ?_ ?_)
  · exact .bind (keeps_blockBody hg) fun body hb => .pure (sound_func.2 ⟨hps, hb⟩)
  · exact .bind keeps_endStatement fun _ _ => .pure (sound_func.2 ⟨hps, sound_absent⟩)
  · exact .bind (keeps_complain _) fun body hb => .pure (sound_func.2 ⟨hps, hb⟩)

theorem keeps_function (hg : KeepsInner I g) (isAsync isDeclare mayLackBody : Bool) :
    Keeps I (function g isAsync isDeclare mayLackBody) := by
  refine .bind (.discard (keeps_expect _)) fun _ _ => .bind (keeps_accept _) fun _ _ => ?_
  refine .get fun c => .ite ?_ (keeps_functionRest hg _ _)
  exact .bind (.map keeps_identifier fun _ _ => sound_some.2 trivial) fun _ _ => keeps_functionRest hg _ _

/-! ### Classes -/

theorem keeps_modifiers (isDeclare : Bool) : Keeps I (modifiers isDeclare) :=
  keeps_extend (fun _ _ => .get fun _ =>
    .ite (.bind keeps_take fun _ _ => .pure (sound_some.2 trivial)) (.pure sound_none)) _ trivial

theorem keeps_keyedMember (hg : KeepsInner I g) (start : Span) (mods : Modifiers) :
    Keeps I (keyedMember g start mods) := by
  refine .bind keeps_methodWords fun _ _ => .bind (keeps_key hg) fun k hk => ?_
  refine .bind (keeps_accept _) fun _ _ => .bind (.discard (keeps_accept _)) fun _ _ => ?_
  refine .get fun c => .ite ?_ (.when (keeps_complain _) ?_)
  · refine .bind (keeps_functionRest hg _ _) fun f hf => .bind (keeps_since _) fun _ _ => .pure ?_
    exact allDeep_cons.2 ⟨hk, allDeep_cons.2 ⟨deep_function.2 hf, allDeep_nil⟩⟩
  · refine .bind (keeps_after _ hg.type) fun _ _ => ?_
    refine .bind (keeps_after _ hg.assign) fun init hi => .bind keeps_endStatement fun _ _ => ?_
    exact .bind (keeps_since _) fun _ _ => .pure (allDeep_cons.2 ⟨hk, allDeep_ofExpr?.2 hi⟩)

theorem keeps_classMember (hg : KeepsInner I g) (isDeclare : Bool) :
    Keeps I (classMember g isDeclare) := by
  refine .bind keeps_here fun start _ => .bind (keeps_modifiers _) fun mods _ => .get fun c => ?_
  refine .when (keeps_complain _) (.ite ?_ (.ite ?_ (keeps_keyedMember hg _ _)))
  · refine .bind keeps_skip fun _ _ => .bind (keeps_indexSignature hg) fun _ _ => ?_
    refine .bind keeps_endStatement fun _ _ => .bind (keeps_since _) fun _ _ => .pure allDeep_nil
  · refine .bind keeps_skip fun _ _ => .bind (keeps_functionRest hg _ _) fun f hf => ?_
    refine .bind (keeps_since _) fun _ _ => .pure ?_
    exact allDeep_cons.2 ⟨deep_function.2 hf, allDeep_nil⟩

theorem keeps_typeList (hg : KeepsInner I g) : Keeps I (typeList g) := keeps_sepBy1 _ hg.type

theorem keeps_classRest (hg : KeepsInner I g) {heritage : Parser Expr} (hh : Keeps I heritage)
    (isAbstract isDeclare : Bool) : Keeps I (classRest g heritage isAbstract isDeclare) := by
  refine .bind (.discard (keeps_expect _)) fun _ _ => .get fun c => ?_
  refine .either (.map keeps_identifier fun _ _ => sound_some.2 trivial) (.pure sound_none)
    fun name _ => ?_
  refine .bind (keeps_optionalTypeParams hg) fun _ _ => .bind (keeps_after _ hh) fun base hb => ?_
  refine .get fun c => .either (keeps_typeArguments hg) (.pure sound_nil) fun _ _ => ?_
  refine .bind (keeps_acceptWord _) fun _ _ => ?_
  refine .either (keeps_typeList hg) (.pure sound_nil) fun _ _ => ?_
  refine .bind (.discard (keeps_expect _)) fun _ _ => ?_
  refine .bind (keeps_collectUntil _ ?_) fun ms hms => ?_
  · refine .bind (keeps_accept _) fun _ _ => .ite (.pure sound_none) ?_
    exact .bind (.withIn (keeps_classMember hg _)) fun _ h => .pure (sound_some.2 h)
  · refine .bind (.discard (keeps_expect _)) fun _ _ => .pure (deep_iff.2 ⟨trivial, ?_⟩)
    refine allDeep_append.2 ⟨allDeep_ofExpr?.2 hb, allDeep_flatMap.2 fun m hm => ?_⟩
    obtain ⟨m?, hm, he⟩ := List.mem_filterMap.1 hm
    exact hms m? hm m he

end TypeStrip.Grammar
