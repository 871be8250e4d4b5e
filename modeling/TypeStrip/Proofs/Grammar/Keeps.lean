import TypeStrip.Proofs.Grammar.Sound

/-!
Parsers that keep an invariant of the place in the token stream, whether they succeed or complain,
and that give sound values.
-/
namespace TypeStrip.Grammar
open TypeStrip.Token (Kind)

/-- An invariant of places that every move keeps, also the one that splits an operator. -/
class Kept (I : Cursor → Prop) : Prop where
  advance : ∀ t : Tape, I t.cursor → I t.advance.cursor
  splitAngle : ∀ (t : Tape) kind value, afterAngle? t.current.kind = some (kind, value) →
    I t.cursor → I (t.splitAngle kind value).cursor

def Ends (I : Cursor → Prop) {α : Type} [Read α] : Outcome α → Prop
  | .ok a t => I t.cursor ∧ Sound a
  | .error _ t => I t.cursor

/-- What is kept track of beside the place does not matter. -/
theorem Ends.onTape {I : Cursor → Prop} {α : Type} [Read α] {r : Outcome α} {f : Tape → Tape}
    (h : Ends I r) (hf : ∀ t, (f t).cursor = t.cursor) : Ends I (r.onTape f) := by
  cases r with
  | ok a t => exact ⟨(hf t).symm ▸ h.1, h.2⟩
  | error e t => exact show I (f t).cursor from (hf t).symm ▸ h

/-- A parser that keeps an invariant and gives sound values. -/
def Keeps (I : Cursor → Prop) {α : Type} [Read α] (p : Parser α) : Prop :=
  ∀ t : Tape, I t.cursor → Ends I (p t)

variable {I : Cursor → Prop} {α β : Type} [Read α] [Read β]

namespace Keeps

theorem pure {a : α} (h : Sound a) : Keeps I (pure a : Parser α) := fun _ hc => ⟨hc, h⟩

theorem bind {p : Parser α} {f : α → Parser β} (hp : Keeps I p)
    (hf : ∀ a, Sound a → Keeps I (f a)) : Keeps I (p >>= f) := by
  intro t ht
  have h := hp t ht
  rw [Parser.bind_run]
  cases hr : p t with
  | ok a t' =>
    rw [hr] at h
    exact hf a h.2 t' h.1
  | error e t' =>
    rw [hr] at h
    exact h

theorem map {p : Parser α} {f : α → β} (hp : Keeps I p) (hf : ∀ a, Sound a → Sound (f a)) :
    Keeps I (f <$> p) :=
  bind hp fun a ha => pure (hf a ha)

theorem get {f : Cursor → Parser α} (h : ∀ c, Keeps I (f c)) : Keeps I (get >>= f) :=
  fun t ht => h t.cursor t ht

theorem throw {e : ParseError} : Keeps I (throw e : Parser α) := fun _ hc => hc

theorem ite {b : Prop} [Decidable b] {p q : Parser α} (hp : Keeps I p) (hq : Keeps I q) :
    Keeps I (if b then p else q) := by
  split
  · exact hp
  · exact hq

/-- A branch that ends in the other one. -/
theorem ite_of {b : Prop} [Decidable b] {p q : Parser α} (hq : Keeps I q)
    (hp : Keeps I q → Keeps I p) : Keeps I (if b then p else q) :=
  ite (hp hq) hq

/-- A branch that may do something before what follows it. -/
theorem when {b : Prop} [Decidable b] {p : Parser Unit} {f : Unit → Parser α} (hp : Keeps I p)
    (hf : Keeps I (f ())) : Keeps I (if b then p >>= f else f ()) :=
  ite (bind hp fun _ _ => hf) hf

/-- A branch that has to do something before what follows it, if a condition fails. -/
theorem otherwise {b : Prop} [Decidable b] {p : Parser Unit} {f : Unit → Parser α} (hp : Keeps I p)
    (hf : Keeps I (f ())) : Keeps I (if b then f () else p >>= f) :=
  ite hf (bind hp fun _ _ => hf)

/-- Two ways to a value that is used in the same way. -/
theorem either {b : Prop} [Decidable b] {p q : Parser α} {f : α → Parser β} (hp : Keeps I p)
    (hq : Keeps I q) (hf : ∀ a, Sound a → Keeps I (f a)) :
    Keeps I (if b then p >>= f else q >>= f) :=
  ite (bind hp hf) (bind hq hf)

/-- Two ways to a value that is used in the same way, of which one takes a step first. -/
theorem eitherStep {γ : Type} [Read γ] {b : Prop} [Decidable b] {s : Parser γ} {p : γ → Parser α}
    {q : Parser α} {f : α → Parser β} (hs : Keeps I s) (hp : ∀ c, Keeps I (p c)) (hq : Keeps I q)
    (hf : ∀ a, Sound a → Keeps I (f a)) :
    Keeps I (if b then s >>= fun c => p c >>= f else q >>= f) :=
  ite (bind hs fun c _ => bind (hp c) hf) (bind hq hf)

theorem attempt {p : Parser α} (hp : Keeps I p) : Keeps I (attempt p) := by
  intro t ht
  have h := hp t ht
  cases hr : p t with
  | ok a t' =>
    rw [hr] at h
    rw [attempt_eq_some hr]
    exact ⟨h.1, sound_some.2 h.2⟩
  | error e t' =>
    rw [attempt_eq_none hr]
    exact ⟨ht, sound_none⟩

theorem nested {p : Parser α} (hp : Keeps I p) : Keeps I (nested p) := by
  intro t ht
  by_cases hd : t.depth < maxNesting
  · rw [nested_eq hd]
    exact (hp { t with depth := t.depth + 1 } ht).onTape fun _ => rfl
  · rw [nested_eq_tooDeep hd]
    exact ht

theorem withIn {p : Parser α} {allowed : Bool} (hp : Keeps I p) : Keeps I (withIn allowed p) :=
  fun t ht => (hp { t with noIn := !allowed } ht).onTape fun _ => rfl

theorem discard {p : Parser α} (hp : Keeps I p) : Keeps I (discard p) :=
  map hp fun _ _ => trivial

end Keeps

/-! ### Moves -/

theorem keeps_complain (complaint : Complaint) : Keeps I (complain complaint : Parser α) :=
  .get fun _ => .throw

theorem keeps_complainFound (complaint : Kind → Complaint) :
    Keeps I (complainFound complaint : Parser α) :=
  .get fun _ => keeps_complain _

theorem keeps_inAllowed : Keeps I inAllowed := fun _ ht => ⟨ht, trivial⟩

theorem keeps_here : Keeps I here := .get fun _ => .pure trivial

theorem keeps_since (start : Span) : Keeps I (since start) := .get fun _ => .pure trivial

section
variable [Kept I]

theorem keeps_skip : Keeps I skip := fun t ht => ⟨Kept.advance t ht, trivial⟩

theorem keeps_take : Keeps I take := .bind keeps_skip fun _ _ => .get fun _ => .pure trivial

theorem keeps_accept (kind : Kind) : Keeps I (accept kind) :=
  .get fun _ => .when keeps_skip (.pure trivial)

theorem keeps_acceptWord (word : String) : Keeps I (acceptWord word) :=
  .get fun _ => .when keeps_skip (.pure trivial)

theorem keeps_expect (kind : Kind) : Keeps I (expect kind) :=
  .get fun _ => .ite keeps_take (keeps_complainFound _)

theorem keeps_expectWord (word : String) : Keeps I (expectWord word) :=
  .get fun _ => .ite keeps_skip (keeps_complainFound _)

theorem keeps_closeAngle : Keeps I closeAngle := by
  intro t ht
  show Ends I (if t.current.kind = .gt then skip t else _)
  split
  · exact keeps_skip t ht
  · split
    · exact ⟨Kept.splitAngle t _ _ (by assumption) ht, trivial⟩
    · exact keeps_complainFound _ t ht

theorem keeps_endStatement : Keeps I endStatement :=
  .get fun _ => .ite keeps_skip (.ite (.pure trivial) (keeps_complainFound _))

end

/-! ### Repetition -/

theorem keeps_collectUpTo {p : Parser (Option α)} (hp : Keeps I p) (fuel : Nat) (found : List α)
    (hf : Sound found) : Keeps I (collectUpTo p fuel found) := by
  have hr (found : List α) (hf : Sound found) : Sound found.reverse :=
    fun a ha => hf a (List.mem_reverse.1 ha)
  induction fuel generalizing found with
  | zero => exact .pure (hr found hf)
  | succ fuel ih =>
    refine .bind hp fun a ha => ?_
    cases a with
    | none => exact .pure (hr found hf)
    | some a => exact ih (a :: found) (sound_cons.2 ⟨sound_some.1 ha, hf⟩)

theorem keeps_collect {p : Parser (Option α)} (hp : Keeps I p) : Keeps I (collect p) :=
  .get fun _ => keeps_collectUpTo hp _ [] sound_nil

theorem keeps_collectUntil {p : Parser α} (closer : Kind) (hp : Keeps I p) :
    Keeps I (collectUntil closer p) :=
  keeps_collect <| .get fun _ => .ite (.pure sound_none) (.bind hp fun _ ha => .pure (sound_some.2 ha))

theorem keeps_extendUpTo {step : α → Parser (Option α)} (hs : ∀ a, Sound a → Keeps I (step a))
    (fuel : Nat) (a : α) (ha : Sound a) : Keeps I (extendUpTo step fuel a) := by
  induction fuel generalizing a with
  | zero => exact .pure ha
  | succ fuel ih =>
    refine .bind (hs a ha) fun b hb => ?_
    cases b with
    | none => exact .pure ha
    | some b => exact ih b (sound_some.1 hb)

theorem keeps_extend {step : α → Parser (Option α)} (hs : ∀ a, Sound a → Keeps I (step a)) (a : α)
    (ha : Sound a) : Keeps I (extend step a) :=
  .get fun _ => keeps_extendUpTo hs _ a ha

variable [Kept I]

theorem keeps_after {p : Parser α} (kind : Kind) (hp : Keeps I p) : Keeps I (after kind p) :=
  .bind (keeps_accept kind) fun _ _ =>
    .ite (.bind hp fun _ ha => .pure (sound_some.2 ha)) (.pure sound_none)

theorem keeps_commaSeparated {p : Parser α} (closer : Kind) (hp : Keeps I p) :
    Keeps I (commaSeparated closer p) :=
  keeps_collectUntil closer <| .bind hp fun _ ha =>
    .get fun _ => .otherwise (.discard (keeps_expect .comma)) (.pure ha)

theorem keeps_sepBy1 {p : Parser α} (separator : Kind) (hp : Keeps I p) :
    Keeps I (sepBy1 separator p) :=
  .bind hp fun _ ha => .bind
    (keeps_collect <| .bind (keeps_accept separator) fun _ _ =>
      .ite (.bind hp fun _ hb => .pure (sound_some.2 hb)) (.pure sound_none))
    fun _ hrest => .pure (sound_cons.2 ⟨ha, hrest⟩)

end TypeStrip.Grammar
