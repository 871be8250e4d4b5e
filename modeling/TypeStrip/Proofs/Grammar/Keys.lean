import TypeStrip.Grammar.Pattern
import TypeStrip.Proofs.Grammar.Keeps

/-! Names, keys and patterns are read soundly. -/
namespace TypeStrip.Grammar
open TypeStrip.Token (Kind)
open Site

structure KeepsInner (I : Cursor → Prop) (g : Inner) : Prop where
  assign : Keeps I g.assign
  unary : Keeps I g.unary
  stmt : Keeps I g.stmt
  type : Keeps I g.type
  substitution : ∀ tokens e, g.substitution tokens = .ok e → Sound e

variable {I : Cursor → Prop} [Kept I] {g : Inner}

/-! ### Keys -/

theorem keeps_identifier : Keeps I identifier :=
  .bind (keeps_expect _) fun _ _ => .pure trivial

theorem keeps_anyName : Keeps I anyName :=
  .get fun _ => .ite (.bind keeps_take fun _ _ => .pure trivial) (keeps_complainFound _)

theorem keeps_key (hg : KeepsInner I g) : Keeps I (key g) := by
  have plain {k : Key} (h : (Site.key k).children = []) : Sound k := Key.sound (h ▸ allDeep_nil)
  refine .get fun c => ?_
  split
  · exact .bind keeps_take fun _ _ => .pure (plain rfl)
  · exact .bind keeps_take fun _ _ => .pure (plain rfl)
  · refine .bind keeps_skip fun _ _ => .bind (.withIn hg.assign) fun e he => ?_
    exact .bind (.discard (keeps_expect _)) fun _ _ => .pure (Key.sound he)
  · exact .ite (.bind keeps_anyName fun _ _ => .pure (plain rfl)) (keeps_complain _)

theorem keeps_methodWords : Keeps I methodWords := by
  refine .get fun c => .when keeps_skip ?_
  exact .ite (.bind (keeps_accept _) fun _ _ => .pure trivial) (.pure trivial)

/-! ### Patterns -/

theorem keeps_defaulted (hg : KeepsInner I g) {p : Pattern} (hp : Sound p) :
    Keeps I (defaulted g p) := by
  refine .bind (keeps_after _ (.withIn hg.assign)) fun e he => ?_
  cases e with
  | none => exact .pure hp
  | some e => exact .pure (Pattern.sound (by simpa [ofPatternParts, hp] using he))

variable {pattern : Parser Pattern}

theorem keeps_restPattern (hp : Keeps I pattern) : Keeps I (restPattern pattern) :=
  keeps_after _ <| .bind hp fun _ h => .get fun _ => .when (keeps_complain _) (.pure h)

theorem keeps_arrayPattern (hg : KeepsInner I g) (hp : Keeps I pattern) :
    Keeps I (arrayPattern g pattern) := by
  refine .bind keeps_here fun start _ => .bind (.discard (keeps_expect _)) fun _ _ => ?_
  refine .bind (keeps_collect ?_) fun ps hps => .bind (keeps_restPattern hp) fun rest hr => ?_
  · refine .get fun _ => .ite (.pure sound_none) (.bind (keeps_accept _) fun _ _ => ?_)
    refine .ite (.pure (sound_some.2 (Pattern.sound allDeep_nil))) (.bind hp fun p h => ?_)
    refine .bind (keeps_defaulted hg h) fun p h => .get fun _ => ?_
    exact .otherwise (.discard (keeps_expect _)) (.pure (sound_some.2 h))
  · refine .bind (.discard (keeps_expect _)) fun _ _ => .bind (keeps_since _) fun _ _ => .pure ?_
    refine Pattern.sound (allDeep_ofPatterns.2 fun p h => ?_)
    rcases List.mem_append.1 h with h | h
    · exact hps p h
    · exact hr p (Option.mem_toList.1 h)

theorem keeps_patternField (hg : KeepsInner I g) (hp : Keeps I pattern) :
    Keeps I (patternField g pattern) := by
  refine .bind (keeps_key hg) fun k hk => .bind (keeps_accept _) fun _ _ => .ite ?_ ?_
  · refine .bind hp fun p h => .bind (keeps_defaulted hg h) fun p h => ?_
    exact .pure ⟨hk, h⟩
  · split
    · exact .bind (keeps_defaulted hg (Pattern.sound allDeep_nil)) fun p h => .pure ⟨hk, h⟩
    · exact keeps_complain _

theorem keeps_objectPattern (hg : KeepsInner I g) (hp : Keeps I pattern) :
    Keeps I (objectPattern g pattern) := by
  refine .bind keeps_here fun start _ => .bind (.discard (keeps_expect _)) fun _ _ => ?_
  refine .bind (keeps_collect ?_) fun fs hfs => .bind (keeps_restPattern hp) fun rest hr => ?_
  · refine .get fun _ => .ite (.pure sound_none) (.bind (keeps_patternField hg hp) fun f h => ?_)
    exact .get fun _ => .otherwise (.discard (keeps_expect _)) (.pure (sound_some.2 h))
  · refine .bind (.discard (keeps_expect _)) fun _ _ => .bind (keeps_since _) fun _ _ => .pure ?_
    refine Pattern.sound (allDeep_append.2 ⟨allDeep_flatMap.2 fun f h => ?_, ?_⟩)
    · obtain ⟨k, p, shorthand⟩ := f
      exact allDeep_cons.2 ⟨(hfs _ h).1, (hfs _ h).2⟩
    · exact allDeep_ofPatterns.2 fun p h => hr p (Option.mem_toList.1 h)

theorem keeps_patternUpTo (hg : KeepsInner I g) (fuel : Nat) : Keeps I (patternUpTo g fuel) := by
  induction fuel with
  | zero => exact keeps_complain _
  | succ fuel ih =>
    refine .get fun c => ?_
    split
    · exact .bind keeps_identifier fun _ _ => .pure (Pattern.sound allDeep_nil)
    · exact keeps_arrayPattern hg ih
    · exact keeps_objectPattern hg ih
    · exact keeps_complainFound _

theorem keeps_pattern (hg : KeepsInner I g) : Keeps I (Grammar.pattern g) :=
  .get fun _ => keeps_patternUpTo hg _

end TypeStrip.Grammar
