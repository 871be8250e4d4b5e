import TypeStrip.Proofs.Places.Moves

/-!
Parsers that move on. A parser that gives a value of some sort stands further on in the tokens than
before, so that repeating it comes to an end.
-/
namespace TypeStrip.Grammar
open TypeStrip.Token (Kind)

variable {t t' : Tape} {α β : Type} {P : α → Prop} {Q : β → Prop} {p : Parser α} {f : α → Parser β}

/-! ### Tokens up to a mark of the end -/

/-- The last token marks the end, so that every other one has a token after it. -/
def Tape.Ended (t : Tape) : Prop := (t.current :: t.following).getLast?.any (·.kind == .eof) = true

theorem Tape.Ended.exists_following (h : t.Ended) (hk : t.current.kind ≠ .eof) :
    ∃ next rest, t.following = next :: rest := by
  cases hf : t.following with
  | nil =>
    rw [Tape.Ended, hf] at h
    exact absurd (beq_iff_eq.1 h) hk
  | cons next rest => exact ⟨next, rest, rfl⟩

theorem Tape.Ended.reaches (h : t.Ended) (ht : t.Reaches t') : t'.Ended := by
  induction ht with
  | refl => exact h
  | @advance t' _ ih =>
    unfold Tape.advance
    split
    · rename_i next rest _ hf
      rwa [Tape.Ended, hf, List.getLast?_cons_cons] at ih
    · exact ih
  | @splitAngle t' kind value _ ha ih =>
    have hk : t'.current.kind ≠ .eof := by
      intro he
      rw [he] at ha
      cases ha
    obtain ⟨next, rest, hf⟩ := ih.exists_following hk
    rw [Tape.Ended, hf, List.getLast?_cons_cons] at ih
    rwa [Tape.Ended, show (t'.splitAngle kind value).following = next :: rest from hf,
      List.getLast?_cons_cons]

/-- Every list of tokens is read up to a mark of the end. -/
theorem ended_ofTokens (tokens : List Token) : (Tape.ofTokens tokens).Ended := by
  unfold Tape.ofTokens
  dsimp only
  by_cases h : tokens.getLast?.any (·.kind == .eof) = true
  · rw [if_pos h]
    cases tokens with
    | nil => cases h
    | cons first rest => exact h
  · rw [if_neg h]
    cases tokens with
    | nil => rfl
    | cons first rest =>
      show (first :: (rest ++ [_])).getLast?.any _ = true
      rw [← List.cons_append, List.getLast?_concat]
      rfl

theorem Tape.Ended.position_advance (h : t.Ended) (hk : t.current.kind ≠ .eof) :
    t.advance.position = t.position + 1 := by
  obtain ⟨next, rest, hf⟩ := h.exists_following hk
  rw [advance_eq hk hf]
  rfl

theorem Tape.Reaches.position_le (h : t.Reaches t') : t.position ≤ t'.position :=
  h.rewindsTo.position

/-- The tokens before a place, at it and after it are all of them. -/
theorem Tape.position_add_remaining (t : Tape) :
    t.position + t.cursor.remaining = t.tokens.length := by
  simp [Tape.position, Cursor.remaining, Tape.cursor, Tape.tokens]

theorem Tape.Reaches.position_add_remaining (h : t.Reaches t') :
    t'.position + t'.cursor.remaining = t.position + t.cursor.remaining := by
  rw [t'.position_add_remaining, t.position_add_remaining, h.rewindsTo.length]

/-! ### Parsers that move on -/

/-- A parser that has moved on from a place wherever it gives a value of the given sort. -/
def MovesAt (t : Tape) (P : α → Prop) (p : Parser α) : Prop :=
  t.Ended → ∀ a t', p t = .ok a t' → P a → t.position < t'.position

def Moves (P : α → Prop) (p : Parser α) : Prop := ∀ t, MovesAt t P p

abbrev Consumes (p : Parser α) : Prop := Moves (fun _ => True) p

namespace MovesAt

/-- One parser after the other, the second one where the first one has not moved on. -/
theorem bind (hp : MovesAt t P p) (hf : ∀ a t', ¬P a → MovesAt t' Q (f a)) :
    MovesAt t Q (p >>= f) := by
  intro ht b t' h hb
  obtain ⟨a, u, hu, h⟩ := Parser.bind_eq_ok.1 h
  have hpu := Parser.reaches_of_ok hu
  have hut := (Parser.reaches_of_ok h).position_le
  by_cases ha : P a
  · exact Nat.lt_of_lt_of_le (hp ht a u hu ha) hut
  · exact Nat.lt_of_le_of_lt hpu.position_le (hf a u ha (ht.reaches hpu) b t' h hb)

/-- What comes first moves on. -/
theorem first (hp : MovesAt t (fun _ => True) p) : MovesAt t Q (p >>= f) :=
  bind hp fun _ _ h => absurd trivial h

/-- What comes later moves on. -/
theorem later (hf : ∀ a t', MovesAt t' Q (f a)) : MovesAt t Q (p >>= f) :=
  bind (P := fun _ => False) (fun _ _ _ _ h => h.elim) fun a t' _ => hf a t'

theorem pure {a : α} (h : ¬P a) : MovesAt t P (pure a : Parser α) := by
  intro _ b t' hr hb
  cases hr
  exact absurd hb h

theorem get {f : Cursor → Parser α} (h : MovesAt t P (f t.cursor)) : MovesAt t P (get >>= f) := h

theorem inAllowed {f : Bool → Parser α} (h : MovesAt t P (f !t.noIn)) :
    MovesAt t P (inAllowed >>= f) := h

theorem throw {e : ParseError} : MovesAt t P (throw e : Parser α) := fun _ _ _ h => nomatch h

theorem complain (complaint : Complaint) : MovesAt t P (complain complaint : Parser α) := .get .throw

theorem complainFound (complaint : Kind → Complaint) :
    MovesAt t P (complainFound complaint : Parser α) :=
  .get (.complain _)

theorem ite {b : Prop} [Decidable b] {p q : Parser α} (hp : b → MovesAt t P p)
    (hq : ¬b → MovesAt t P q) : MovesAt t P (if b then p else q) := by
  split
  · exact hp ‹_›
  · exact hq ‹_›

/-- A branch that may do something before what moves on. -/
theorem when {b : Prop} [Decidable b] {p : Parser Unit} {f : Unit → Parser α}
    (hf : ∀ t', MovesAt t' P (f ())) : MovesAt t P (if b then p >>= f else f ()) :=
  .ite (fun _ => .later fun _ => hf) fun _ => hf t

/-- A branch that complains in place of what moves on. -/
theorem check {b : Prop} [Decidable b] {complaint : Complaint} {f : Unit → Parser α}
    (hf : MovesAt t P (f ())) :
    MovesAt t P (if b then Grammar.complain complaint >>= f else f ()) :=
  .ite (fun _ => .first (.complain _)) fun _ => hf

theorem skip (hk : t.current.kind ≠ .eof) : MovesAt t (fun _ => True) skip := by
  intro ht _ t' h _
  cases h
  rw [ht.position_advance hk]
  exact Nat.lt_succ_self _

theorem take (hk : t.current.kind ≠ .eof) : MovesAt t (fun _ => True) take := .first (.skip hk)

/-- A token of a known kind is passed over. -/
theorem skipKind {k : Kind} {f : Unit → Parser β} (h : t.current.kind = k) (hk : k ≠ .eof) :
    MovesAt t Q (Grammar.skip >>= f) := .first (.skip (h ▸ hk))

theorem takeKind {k : Kind} {f : Token → Parser β} (h : t.current.kind = k) (hk : k ≠ .eof) :
    MovesAt t Q (Grammar.take >>= f) := .first (.take (h ▸ hk))

/-- What is kept track of beside the place does not matter. -/
theorem tracking {r : Parser α} {t' : Tape} {k : Tape → Tape} (hp : MovesAt t' P p)
    (hr : r t = (p t').onTape k) (ht : t'.position = t.position)
    (he : (t'.current :: t'.following) = t.current :: t.following)
    (hk : ∀ u, (k u).position = u.position) : MovesAt t P r := by
  intro hended a u h ha
  rw [hr] at h
  cases hq : p t' with
  | error e v =>
    rw [hq] at h
    cases h
  | ok b v =>
    rw [hq] at h
    cases h
    have hlt := hp (by rwa [Tape.Ended, he]) _ v hq ha
    rwa [ht, ← hk v] at hlt

end MovesAt

theorem Moves.nested (hp : Moves P p) : Moves P (nested p) := by
  intro t
  by_cases hd : t.depth < maxNesting
  · exact (hp { t with depth := t.depth + 1 }).tracking (nested_eq hd) rfl rfl fun _ => rfl
  · intro _ a t' h
    rw [nested_eq_tooDeep hd] at h
    exact nomatch h

theorem Moves.withIn (hp : Moves P p) (allowed : Bool) : Moves P (withIn allowed p) := fun t =>
  (hp { t with noIn := !allowed }).tracking (k := fun t' => { t' with noIn := t.noIn }) rfl rfl rfl
    fun _ => rfl

/-- A parser that is tried moves on if it succeeds. -/
theorem Moves.attempt (hp : Consumes p) : Moves (·.isSome) (attempt p) := by
  intro t ht a? t' h hsome
  cases hr : p t with
  | ok a u =>
    rw [attempt_eq_some hr] at h
    cases h
    exact hp t ht a _ hr trivial
  | error e u =>
    rw [attempt_eq_none hr] at h
    cases h
    cases hsome

theorem Consumes.map {g : α → β} (hp : Consumes p) : Consumes (g <$> p) := fun t => .first (hp t)

theorem Consumes.discard (hp : Consumes p) : Consumes (discard p) := fun t => .first (hp t)

/-! ### Single tokens -/

theorem Cursor.kind_of_at_ {c : Cursor} {k : Kind} (h : c.at_ k = true) : c.current.kind ≠ .eof := by
  obtain ⟨hend, -⟩ := Bool.and_eq_true_iff.1 h
  rw [Bool.not_eq_true'] at hend
  exact beq_eq_false_iff_ne.1 hend

theorem Cursor.kind_of_atWord {c : Cursor} {word : String} (h : c.atWord word = true) :
    c.current.kind ≠ .eof :=
  kind_of_at_ (Bool.and_eq_true_iff.1 h).1

theorem moves_accept (kind : Kind) : Moves (· = true) (accept kind) := by
  refine fun t => .get (.ite (fun h => .first (.skip (Cursor.kind_of_at_ h))) fun h => .pure ?_)
  exact h

theorem moves_acceptWord (word : String) : Moves (· = true) (acceptWord word) := by
  refine fun t => .get (.ite (fun h => .first (.skip (Cursor.kind_of_atWord h))) fun h => .pure ?_)
  exact h

/-- Where a token is not accepted something else moves on. -/
theorem MovesAt.accept {kind : Kind} {p q : Parser α} (hq : ∀ t', MovesAt t' P q) :
    MovesAt t P (Grammar.accept kind >>= fun found => if found = true then p else q) :=
  .bind (moves_accept kind t) fun _ t' h => .ite (fun h' => absurd h' h) fun _ => hq t'

theorem MovesAt.acceptWord {word : String} {p q : Parser α} (hq : ∀ t', MovesAt t' P q) :
    MovesAt t P (Grammar.acceptWord word >>= fun found => if found = true then p else q) :=
  .bind (moves_acceptWord word t) fun _ t' h => .ite (fun h' => absurd h' h) fun _ => hq t'

theorem consumes_expect (kind : Kind) : Consumes (expect kind) := fun _ =>
  .get (.ite (fun h => .take (Cursor.kind_of_at_ h)) fun _ => .complainFound _)

theorem consumes_expectWord (word : String) : Consumes (expectWord word) := fun _ =>
  .get (.ite (fun h => .skip (Cursor.kind_of_atWord h)) fun _ => .complainFound _)

/-- A parser that starts with a token of the given kind. -/
theorem Consumes.afterToken {kind : Kind} {f : Unit → Parser β} :
    Consumes (Functor.discard (expect kind) >>= f) := fun t =>
  .first ((consumes_expect kind).discard t)

theorem moves_after (kind : Kind) (p : Parser α) : Moves (·.isSome) (after kind p) := fun _ =>
  .accept fun _ => .pure nofun

/-! ### Repetition -/

section
variable {step : Parser (Option α)} (hs : Moves (·.isSome) step)
include hs

/-- A repeated parser finds no more values than it passes tokens, and more fuel finds no more. -/
theorem collectUpTo_spec (k : Nat) {fuel : Nat} (found : List α) (ht : t.Ended)
    (hfuel : t.cursor.remaining ≤ fuel) :
    collectUpTo step (fuel + k) found t = collectUpTo step fuel found t ∧
      ∀ as t', collectUpTo step fuel found t = .ok as t' →
        t.position + as.length ≤ t'.position + found.length := by
  induction fuel generalizing found t with
  | zero => exact absurd hfuel (Nat.not_succ_le_zero _)
  | succ fuel ih =>
    rw [Nat.add_right_comm, collectUpTo, collectUpTo, Parser.bind_run, Parser.bind_run]
    cases hr : step t with
    | error e u => exact ⟨rfl, fun _ _ h => nomatch h⟩
    | ok a? u =>
      have hu := Parser.reaches_of_ok hr
      have hpos := hu.position_le
      cases a? with
      | none =>
        refine ⟨rfl, fun as t' h => ?_⟩
        cases h
        rw [List.length_reverse]
        omega
      | some a =>
        have hlt := hs t ht _ u hr rfl
        have hremaining := hu.position_add_remaining
        obtain ⟨hmore, hlength⟩ := ih (a :: found) (ht.reaches hu) (by omega)
        refine ⟨hmore, fun as t' h => ?_⟩
        have hle := hlength as t' h
        rw [List.length_cons] at hle
        omega

/-- There are no more values than tokens that are passed. -/
theorem length_of_collect {as : List α} (ht : t.Ended) (h : collect step t = .ok as t') :
    t.position + as.length ≤ t'.position :=
  (collectUpTo_spec hs 0 [] ht (Nat.le_refl _)).2 as t' h

end

/-- A transformation that moves on whenever it applies is repeated until it does not apply. -/
theorem extendUpTo_eq {step : α → Parser (Option α)} (hs : ∀ a, Moves (·.isSome) (step a))
    (k : Nat) {fuel : Nat} (a : α) (ht : t.Ended) (hfuel : t.cursor.remaining ≤ fuel) :
    extendUpTo step (fuel + k) a t = extendUpTo step fuel a t := by
  induction fuel generalizing a t with
  | zero => exact absurd hfuel (Nat.not_succ_le_zero _)
  | succ fuel ih =>
    rw [Nat.add_right_comm, extendUpTo, extendUpTo, Parser.bind_run, Parser.bind_run]
    cases hr : step a t with
    | error e u => rfl
    | ok b? u =>
      have hu := Parser.reaches_of_ok hr
      cases b? with
      | none => rfl
      | some b =>
        have hlt := hs a t ht _ u hr rfl
        have hremaining := hu.position_add_remaining
        exact ih b (ht.reaches hu) (by omega)

end TypeStrip.Grammar
