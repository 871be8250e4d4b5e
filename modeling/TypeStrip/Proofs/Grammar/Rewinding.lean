import TypeStrip.Grammar.Program

/-!
Speculation leaves no trace: what a parser does to its tape can be undone, and where a reading is
given up the tape is the one it was tried on.
-/
namespace TypeStrip.Grammar
open TypeStrip.Token (Kind)

variable {α β : Type}

/-- A parser that leaves the tape alone when it gives nothing. -/
def Traceless (p : Parser (Option α)) : Prop := ∀ t t', p t = .ok none t' → t' = t

/-- A parser that does not give nothing: it gives a value, or complains. -/
def GivesSome (p : Parser (Option α)) : Prop := ∀ t t', p t ≠ .ok none t'

namespace GivesSome

theorem bind {p : Parser β} {f : β → Parser (Option α)} (h : ∀ b, GivesSome (f b)) :
    GivesSome (p >>= f) := by
  intro t t'
  rw [Parser.bind_run]
  split
  · exact h _ _ _
  · intro he
    cases he

theorem some (a : α) : GivesSome (pure (.some a)) := by
  intro t t' he
  cases he

/-- A value of another parser. -/
theorem map (p : Parser α) : GivesSome (do return Option.some (← p)) := bind fun a => some a

theorem traceless {p : Parser (Option α)} (h : GivesSome p) : Traceless p :=
  fun t t' he => absurd he (h t t')

end GivesSome

namespace Traceless

theorem none : Traceless (pure none : Parser (Option α)) := fun _ _ h => by cases h; rfl

theorem get {f : Cursor → Parser (Option α)} (h : ∀ c, Traceless (f c)) : Traceless (get >>= f) :=
  fun t => h t.cursor t

theorem ite {b : Prop} [Decidable b] {p q : Parser (Option α)} (hp : Traceless p)
    (hq : Traceless q) : Traceless (if b then p else q) := by
  split
  · exact hp
  · exact hq

/-- A parser that is given up is rewound, however far it got. -/
theorem attempt (p : Parser α) : Traceless (attempt p) := by
  intro t t' h
  cases hp : p t with
  | ok a u =>
    rw [attempt_eq_some hp] at h
    cases h
  | error e u =>
    rw [attempt_eq_none hp] at h
    cases h
    rfl

theorem bind {p : Parser (Option β)} {f : Option β → Parser (Option α)} (hp : Traceless p)
    (hsome : ∀ b, GivesSome (f (some b))) (hnone : Traceless (f Option.none)) :
    Traceless (p >>= f) := by
  intro t t' h
  rw [Parser.bind_run] at h
  split at h
  · rename_i b u hb
    cases b with
    | none => rw [hnone u t' h, hp t u hb]
    | some b => exact absurd h (hsome b u t')
  · cases h

end Traceless

/-- What turns out to be no arrow function is left for another reading. -/
theorem traceless_arrow? (g : Inner) : Traceless (arrow? g) := by
  refine .get fun c => .ite (GivesSome.traceless ?_) (.ite .none ?_)
  · split
    · exact .bind fun _ => .bind fun _ => .bind fun _ => .map _
    · exact .bind fun _ => .bind fun _ => .map _
  · exact .bind (.attempt _) (fun _ => .map _) .none

theorem reaches_seekUpTo (fuel : Nat) (t : Tape) : t.Reaches (seekUpTo fuel t) := by
  induction fuel generalizing t with
  | zero => exact .refl
  | succ fuel ih =>
    rw [seekUpTo]
    split
    · exact .refl
    · exact (Tape.Reaches.advance .refl).trans (ih t.advance)

/-- Going on after a complaint is moving on. -/
theorem reaches_itemStep (g : Inner) (t : Tape) : t.Reaches (itemStep g t).2 := by
  unfold itemStep
  split
  · exact .advance .refl
  · split
    · rename_i hr
      exact Parser.reaches_of_ok hr
    · rename_i hr
      exact (Parser.reaches_of_error hr).advance.trans (reaches_seekUpTo ..)

/-- Whatever a parser does, and whether it gives a value or complains, it leaves the depth and what
is said of `in` alone, and undoing what it has rewritten gives the tokens back; so does every step
through a module. A parser that is tried in vain, and an arrow function that is none, leave the
whole tape as it was. -/
theorem Parser.rewindsTo_and_traceless :
    (∀ (α : Type) (p : Parser α) (t : Tape), (p t).tape.RewindsTo t) ∧
      (∀ (g : Inner) (t : Tape), (itemStep g t).2.RewindsTo t) ∧
      (∀ (α : Type) (p : Parser α) (t t' : Tape), attempt p t = .ok none t' → t' = t) ∧
      ∀ (g : Inner) (t t' : Tape), arrow? g t = .ok none t' → t' = t :=
  ⟨fun _ p t => p.rewindsTo t, fun g t => (reaches_itemStep g t).rewindsTo, fun _ p => Traceless.attempt p, traceless_arrow?⟩

def nestedTypeArguments : List Token :=
  [⟨.lt, ⟨0, 1, 0⟩, "<", false⟩, ⟨.identifier, ⟨1, 2, 0⟩, "A", false⟩, ⟨.lt, ⟨2, 3, 0⟩, "<", false⟩,
    ⟨.identifier, ⟨3, 4, 0⟩, "B", false⟩, ⟨.gtGt, ⟨4, 6, 0⟩, ">>", false⟩,
    ⟨.identifier, ⟨7, 8, 0⟩, "x", false⟩, ⟨.eof, ⟨8, 8, 0⟩, "", false⟩]

/-- Type arguments that no call follows are given up after `>>` has been split. -/
theorem Parser.traceless_nestedTypeArguments :
    let g := levels (fun _ => .error ⟨.tooDeep, default⟩) 3
    let t := Tape.ofTokens nestedTypeArguments
    (∃ e t', callTypeArguments g t = .error e t' ∧ t'.rewrites.length = 1) ∧
      (∃ t', attempt (callTypeArguments g) t = .ok none t' ∧ t' = t) ∧
      ∃ t', arrow? g t = .ok none t' ∧ t' = t := by
  intro g t
  have harguments : ∃ t', attempt (callTypeArguments g) t = .ok none t' := ⟨_, rfl⟩
  have harrow : ∃ t', arrow? g t = .ok none t' := ⟨_, rfl⟩
  obtain ⟨u, hu⟩ := harguments
  obtain ⟨v, hv⟩ := harrow
  exact ⟨⟨_, _, rfl, rfl⟩, ⟨u, hu, rewindsTo_and_traceless.2.2.1 _ _ _ _ hu⟩,
    ⟨v, hv, rewindsTo_and_traceless.2.2.2 _ _ _ hv⟩⟩

end TypeStrip.Grammar
