import TypeStrip.Grammar.Program
import TypeStrip.Proofs.Grammar.Statements

/-! Whole modules are read soundly, through all levels of nesting. -/
namespace TypeStrip.Grammar
open Site

/-- The expressions that substitutions stand for are sound. -/
def SoundSubstitution (substitution : List Token → Except ParseError Expr) : Prop :=
  ∀ tokens e, substitution tokens = .ok e → Sound e

section
variable {I : Cursor → Prop} [Kept I]

theorem keepsInner_outward {g : Inner} (hg : KeepsInner I g) : KeepsInner I g.outward where
  assign := .nested (keeps_assignBody hg)
  unary := .nested (keeps_unaryBody hg)
  stmt := .nested (keeps_stmtBody hg)
  type := .nested (keeps_typeBody hg)
  substitution := hg.substitution

/-- The grammar keeps an invariant on every level, by induction on the number of levels. -/
theorem keepsInner_levels {substitution : List Token → Except ParseError Expr}
    (hs : SoundSubstitution substitution) (n : Nat) : KeepsInner I (levels substitution n) := by
  induction n with
  | zero =>
    exact ⟨keeps_complain _, keeps_complain _, keeps_complain _, keeps_complain _, hs⟩
  | succ n ih => exact keepsInner_outward ih

theorem keeps_wholeExpression {g : Inner} (hg : KeepsInner I g) : Keeps I (wholeExpression g) :=
  .bind (keeps_expression hg) fun _ he => .get fun _ => .when (keeps_complainFound _) (.pure he)

end

instance : Kept fun _ => True := ⟨fun _ _ => trivial, fun _ _ _ _ _ => trivial⟩

/-- What a whole expression stands for is sound. -/
theorem sound_of_wholeExpression {g : Inner} (hg : KeepsInner (fun _ => True) g) {t t' : Tape}
    {e : Expr} (h : wholeExpression g t = .ok e t') : Sound e := by
  have hk := keeps_wholeExpression hg t trivial
  rw [h] at hk
  exact hk.2

def valueOf : Outcome Expr → Except ParseError Expr
  | .ok e _ => .ok e
  | .error e _ => .error e

theorem valueOf_eq_ok {r : Outcome Expr} {e : Expr} :
    valueOf r = .ok e ↔ ∃ t, r = .ok e t := by
  cases r with
  | ok e t => simp [valueOf]
  | error e t => simp [valueOf]

theorem substitutionUpTo_succ (fuel : Nat) (tokens : List Token) :
    substitutionUpTo (fuel + 1) tokens = valueOf (wholeExpression
      (levels (substitutionUpTo fuel) (maxNesting + 1)) (Tape.ofTokens tokens)) := by
  rfl

theorem soundSubstitution_upTo (fuel : Nat) : SoundSubstitution (substitutionUpTo fuel) := by
  induction fuel with
  | zero => exact fun tokens e h => nomatch h
  | succ fuel ih =>
    intro tokens e h
    obtain ⟨c, h⟩ := valueOf_eq_ok.1 ((substitutionUpTo_succ fuel tokens).symm.trans h)
    exact sound_of_wholeExpression (keepsInner_levels ih _) h

theorem keepsInner_grammar {I : Cursor → Prop} [Kept I] (tokens : List Token) :
    KeepsInner I (grammar tokens) :=
  keepsInner_levels (soundSubstitution_upTo _) _

/-! ### Modules -/

theorem sound_of_itemStep {g : Inner} (hg : KeepsInner (fun _ => True) g) {t : Tape} {i : Item}
    (h : (itemStep g t).1 = .ok i) : Sound i := by
  have hk := keeps_item hg t trivial
  unfold itemStep at h
  split at h
  · cases h
  · split at h
    · rename_i hr
      cases h
      rw [hr] at hk
      exact hk.2
    · cases h

theorem sound_of_mem_itemStepsUpTo {g : Inner} (hg : KeepsInner (fun _ => True) g) (fuel : Nat)
    (t : Tape) {i : Item} (hi : .ok i ∈ itemStepsUpTo g fuel t) : Sound i := by
  induction fuel generalizing t with
  | zero => cases hi
  | succ fuel ih =>
    rw [itemStepsUpTo] at hi
    split at hi
    · cases hi
    · rcases List.mem_cons.1 hi with hi | hi
      · exact sound_of_itemStep hg hi.symm
      · exact ih _ hi

/-- All items of a module that is parsed are sound. -/
theorem sound_parseModule {source : String} {file : Nat} {p : Program}
    (h : parseModule source file = .ok p) : Sound p.items := by
  rw [parseModule, parseProgram] at h
  dsimp only at h
  split at h
  · cases h
    intro i hi
    obtain ⟨step, hs, he⟩ := List.mem_filterMap.1 hi
    cases step with
    | error e => cases he
    | ok j =>
      cases he
      exact sound_of_mem_itemStepsUpTo (keepsInner_grammar _) _ _ hs
  · cases h

end TypeStrip.Grammar
