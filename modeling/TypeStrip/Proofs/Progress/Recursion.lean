import TypeStrip.Proofs.Progress.Rules

/-!
Rules that contain themselves: patterns, operators on types and values, constructions, dotted names
and exported namespaces. Each passes a token before it comes back to itself, so counting the times
that it does never cuts it off.
-/
namespace TypeStrip.Grammar
open TypeStrip.Token (Kind)

variable {α β : Type} {g : Inner} {t : Tape} {m : Nat}

/-! ### Parsers that agree on what is left -/

/-- Two parsers that do the same where at most so many tokens are left. -/
def Agree (m : Nat) (p q : Parser α) : Prop :=
  ∀ t : Tape, t.Ended → t.cursor.remaining ≤ m → p t = q t

namespace Agree

variable {p q : Parser α} {f f' : α → Parser β}

theorem refl (p : Parser α) : Agree m p p := fun _ _ _ => rfl

/-- Something is always left, be it the mark of the end alone. -/
theorem zero (p q : Parser α) : Agree 0 p q := fun _ _ h => absurd h (Nat.not_succ_le_zero _)

theorem bind (hp : Agree m p q) (hf : ∀ a, Agree m (f a) (f' a)) : Agree m (p >>= f) (q >>= f') := by
  intro t ht hm
  rw [Parser.bind_run, Parser.bind_run, hp t ht hm]
  cases hr : q t with
  | error e u => rfl
  | ok a u =>
    have hu := Parser.reaches_of_ok hr
    have hle := hu.position_le
    have hremaining := hu.position_add_remaining
    exact hf a u (ht.reaches hu) (by omega)

/-- The same parser comes first in both. -/
theorem later (hf : ∀ a, Agree m (f a) (f' a)) : Agree m (p >>= f) (p >>= f') := bind (.refl p) hf

/-- What comes first passes a token, so there is less left for the rest. -/
theorem passedAt (hp : MovesAt t (fun _ => True) p) (hf : ∀ a, Agree m (f a) (f' a)) (ht : t.Ended)
    (hm : t.cursor.remaining ≤ m + 1) : (p >>= f) t = (p >>= f') t := by
  rw [Parser.bind_run, Parser.bind_run]
  cases hr : p t with
  | error e u => rfl
  | ok a u =>
    have hu := Parser.reaches_of_ok hr
    have hlt := hp ht a u hr trivial
    have hremaining := hu.position_add_remaining
    exact hf a u (ht.reaches hu) (by omega)

theorem passed (hp : Consumes p) (hf : ∀ a, Agree m (f a) (f' a)) :
    Agree (m + 1) (p >>= f) (p >>= f') := fun t => passedAt (hp t) hf

theorem ite {b : Prop} [Decidable b] {p' q' : Parser α} (hp : Agree m p p') (hq : Agree m q q') :
    Agree m (if b then p else q) (if b then p' else q') := by
  split
  · exact hp
  · exact hq

/-- A branch that may do something before the rest. -/
theorem when {b : Prop} [Decidable b] {p : Parser Unit} {f f' : Unit → Parser β}
    (hf : Agree m (f ()) (f' ())) :
    Agree m (if b then p >>= f else f ()) (if b then p >>= f' else f' ()) :=
  .ite (.later fun _ => hf) hf

theorem some (h : Agree m p q) :
    Agree m (do return Option.some (← p)) (do return Option.some (← q)) :=
  bind h fun _ => .refl _

theorem after {kind : Kind} (h : Agree m p q) : Agree m (after kind p) (Grammar.after kind q) :=
  later fun _ => .ite h.some (.refl _)

theorem untilStep {closer : Kind} (h : Agree m p q) :
    Agree m (untilStep closer p) (Grammar.untilStep closer q) :=
  later fun _ => .ite (.refl _) h.some

theorem collectUpTo {step step' : Parser (Option α)} (h : Agree m step step') (fuel : Nat)
    (found : List α) : Agree m (collectUpTo step fuel found) (Grammar.collectUpTo step' fuel found) := by
  induction fuel generalizing found with
  | zero => exact .refl _
  | succ fuel ih =>
    refine bind h fun a? => ?_
    cases a? with
    | none => exact .refl _
    | some a => exact ih (a :: found)

theorem collect {step step' : Parser (Option α)} (h : Agree m step step') :
    Agree m (collect step) (Grammar.collect step') :=
  later fun _ => h.collectUpTo _ _

theorem extendUpTo {step step' : α → Parser (Option α)} (h : ∀ a, Agree m (step a) (step' a))
    (fuel : Nat) (a : α) : Agree m (extendUpTo step fuel a) (Grammar.extendUpTo step' fuel a) := by
  induction fuel generalizing a with
  | zero => exact .refl _
  | succ fuel ih =>
    refine bind (h a) fun b? => ?_
    cases b? with
    | none => exact .refl _
    | some b => exact ih b

theorem extend {step step' : α → Parser (Option α)} (h : ∀ a, Agree m (step a) (step' a)) (a : α) :
    Agree m (extend step a) (Grammar.extend step' a) :=
  later fun _ => extendUpTo h _ a

end Agree

/-! ### Patterns -/

section
variable {p q : Parser Pattern} (h : Agree m p q)
include h

theorem Agree.restPattern : Agree m (restPattern p) (restPattern q) := (h.bind fun _ => .refl _).after

theorem Agree.arrayElement : Agree m (arrayElement g p) (arrayElement g q) :=
  .later fun _ => .ite (.refl _) <| .later fun _ => .ite (.refl _) (h.bind fun _ => .refl _)

theorem Agree.arrayPattern : Agree (m + 1) (arrayPattern g p) (arrayPattern g q) :=
  .later fun _ => .passed (consumes_expect _).discard fun _ => .bind h.arrayElement.collect fun _ =>
    h.restPattern.bind fun _ => .refl _

theorem Agree.patternField : Agree m (patternField g p) (patternField g q) :=
  .later fun _ => .later fun _ => .ite (h.bind fun _ => .refl _) (.refl _)

theorem Agree.objectField : Agree m (objectField g p) (objectField g q) :=
  .later fun _ => .ite (.refl _) (h.patternField.bind fun _ => .refl _)

theorem Agree.objectPattern : Agree (m + 1) (objectPattern g p) (objectPattern g q) :=
  .later fun _ => .passed (consumes_expect _).discard fun _ => .bind h.objectField.collect fun _ =>
    h.restPattern.bind fun _ => .refl _

end

theorem agree_patternUpTo (k fuel : Nat) : Agree fuel (patternUpTo g (fuel + k)) (patternUpTo g fuel) := by
  induction fuel with
  | zero => exact .zero _ _
  | succ fuel ih =>
    rw [Nat.add_right_comm]
    refine .later fun c => ?_
    split
    · exact .refl _
    · exact ih.arrayPattern
    · exact ih.objectPattern
    · exact .refl _

/-! ### Operators -/

theorem agree_typeOperatorUpTo (k fuel : Nat) :
    Agree fuel (typeOperatorUpTo g (fuel + k)) (typeOperatorUpTo g fuel) := by
  induction fuel with
  | zero => exact .zero _ _
  | succ fuel ih =>
    rw [Nat.add_right_comm]
    refine .later fun start t ht hm => ?_
    show (ite _ _ _ : Parser TypeExpr) t = (ite _ _ _ : Parser TypeExpr) t
    by_cases hword : (t.cursor.at_ .identifier && operandFollows t.cursor) = true
    · have hk := Cursor.kind_of_at_ (Bool.and_eq_true_iff.1 hword).1
      rw [if_pos hword, if_pos hword]
      split
      · exact Agree.passedAt (.skip hk) (fun _ => ih.bind fun _ => .refl _) ht hm
      · exact Agree.passedAt (.skip hk) (fun _ => ih) ht hm
      · exact Agree.passedAt (.skip hk) (fun _ => ih) ht hm
      · rfl
      · rfl
    · rw [if_neg hword, if_neg hword]

theorem Agree.binaryStep {p q : Nat → Parser Expr} (h : ∀ power, Agree m (p power) (q power))
    (power : Nat) (left : Expr) : Agree m (binaryStep g p power left) (binaryStep g q power left) := by
  refine .later fun c => .later fun allowed => .ite (.refl _) (.ite (.refl _) ?_)
  split
  · exact .refl _
  · exact .later fun _ => (h _).bind fun _ => .refl _

theorem agree_binaryUpTo (hg : InnerConsumes g) (k fuel power : Nat) :
    Agree fuel (binaryUpTo g (fuel + k) power) (binaryUpTo g fuel power) := by
  induction fuel generalizing power with
  | zero => exact .zero _ _
  | succ fuel ih =>
    rw [Nat.add_right_comm]
    exact .passed hg.unary fun left => .extend (fun left => .binaryStep ih power left) left

/-! ### Constructions and classes -/

section
variable {p q : Parser Expr} (h : Agree m p q)
include h

theorem Agree.newExpression : Agree (m + 1) (newExpression g p) (newExpression g q) := by
  refine .later fun start => .passed (consumes_expect _).discard fun _ => .later fun c => ?_
  exact .ite (.refl _) (h.bind fun _ => .refl _)

theorem Agree.classRest (isAbstract isDeclare : Bool) :
    Agree (m + 1) (classRest g p isAbstract isDeclare) (classRest g q isAbstract isDeclare) := by
  refine .passed (consumes_expect _).discard fun _ => .later fun c => .ite ?_ ?_
  · exact .later fun name => .later fun typeParams => .bind h.after fun _ => .refl _
  · exact .later fun name => .later fun typeParams => .bind h.after fun _ => .refl _

theorem Agree.primary : Agree (m + 1) (primary g p) (primary g q) := by
  refine .later fun c => ?_
  dsimp only
  split
  case h_12 => exact .bind (h.classRest _ _) fun _ => .refl _
  all_goals exact .refl _

end

theorem agree_leftHandSideUpTo (k fuel : Nat) (allowCall : Bool) :
    Agree fuel (leftHandSideUpTo g (fuel + k) allowCall) (leftHandSideUpTo g fuel allowCall) := by
  induction fuel generalizing allowCall with
  | zero => exact .zero _ _
  | succ fuel ih =>
    rw [Nat.add_right_comm]
    refine .later fun c => .ite ?_ ?_
    · exact (ih false).newExpression.bind fun _ => .refl _
    · exact (ih true).primary.bind fun _ => .refl _

/-! ### Namespaces and items -/

theorem agree_namespaceUpTo (item : Parser Item) (isDeclare : Bool) (k fuel : Nat) :
    Agree fuel (namespaceUpTo item isDeclare (fuel + k)) (namespaceUpTo item isDeclare fuel) := by
  induction fuel with
  | zero => exact .zero _ _
  | succ fuel ih =>
    rw [Nat.add_right_comm]
    refine .later fun c => .ite (.refl _) ?_
    refine .passed consumes_identifier fun name => .later fun found => .ite ?_ (.refl _)
    exact .later fun start => ih.bind fun _ => .refl _

section
variable {p q : Parser Item} (h : Agree m p q)
include h

theorem Agree.namespaceItems : Agree m (namespaceItems p) (namespaceItems q) :=
  .later fun _ => .bind h.untilStep.collect fun _ => .refl _

theorem Agree.namespaceUpTo (isDeclare : Bool) (fuel : Nat) :
    Agree m (namespaceUpTo p isDeclare fuel) (namespaceUpTo q isDeclare fuel) := by
  induction fuel with
  | zero => exact .refl _
  | succ fuel ih =>
    refine .later fun c => .ite ?_ ?_
    · refine .later fun name => .later fun c => .ite ?_ (.refl _)
      exact h.namespaceItems.bind fun _ => .refl _
    · refine .later fun name => .later fun found => .ite ?_ ?_
      · exact .later fun start => ih.bind fun _ => .refl _
      · exact h.namespaceItems.bind fun _ => .refl _

theorem Agree.wordDeclaration (isDeclare : Bool) (word : String) :
    Agree m (wordDeclaration g p isDeclare word) (wordDeclaration g q isDeclare word) := by
  have hnamespace : Agree m (do skip; namespaceRest p isDeclare) (do skip; namespaceRest q isDeclare) :=
    .later fun _ => .later fun _ => (h.namespaceUpTo isDeclare _).bind fun _ => .refl _
  unfold Grammar.wordDeclaration
  split
  case h_5 => exact hnamespace
  case h_6 => exact hnamespace
  case h_7 => exact .later fun name => h.namespaceItems.bind fun _ => .refl _
  all_goals exact .refl _

theorem Agree.declarationBody (isDeclare : Bool) :
    Agree m (declarationBody g p isDeclare) (declarationBody g q isDeclare) := by
  refine .later fun c => ?_
  split
  case h_5 => exact h.wordDeclaration isDeclare _
  all_goals exact .refl _

theorem Agree.declaration : Agree m (declaration g p) (declaration g q) :=
  .later fun _ => .ite (.later fun _ => .ite (.refl _) (h.declarationBody true)) (h.declarationBody false)

theorem Agree.exportItem : Agree (m + 1) (exportItem g p) (exportItem g q) := by
  have hdefault (start : Span) : Agree m (exportDefault g p start) (exportDefault g q start) :=
    .later fun _ => .ite (h.declaration.bind fun _ => .refl _) (.refl _)
  have hdeclaration (start : Span) : Agree m (exportDeclaration g p start) (exportDeclaration g q start) :=
    .later fun _ => .ite (h.declaration.bind fun _ => .refl _) (.refl _)
  refine .later fun start => .passed (consumes_expect _).discard fun _ => ?_
  refine .later fun found => .ite (hdefault start) <| .later fun c => .when ?_
  refine .later fun found => .ite (.refl _) <| .later fun c => .when ?_
  exact .later fun star => .ite (.refl _) <| .later fun brace => .ite (.refl _) (hdeclaration start)

end

theorem agree_itemUpTo (k fuel : Nat) : Agree fuel (itemUpTo g (fuel + k)) (itemUpTo g fuel) := by
  induction fuel with
  | zero => exact .zero _ _
  | succ fuel ih =>
    rw [Nat.add_right_comm]
    exact .later fun c => .ite (.refl _) (.ite ih.exportItem (.refl _))

end TypeStrip.Grammar
