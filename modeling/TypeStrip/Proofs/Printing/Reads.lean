import Mathlib.Data.List.Forall2
import TypeStrip.Grammar.Expression
import TypeStrip.Proofs.Lexing.Forms

/-!
Parsers along given tokens: what a parser reads from the front of the tokens, what is left of them,
and what holds of the value.
-/
namespace TypeStrip.Grammar
open TypeStrip.Token (Kind Form)

/-! ### Places in front of given tokens -/

def headKind : List Form → Kind
  | [] => .eof
  | f :: _ => f.kind

structure Cursor.On (c : Cursor) (fs : List Form) : Prop where
  forms : (c.current :: c.following).map Token.form = fs ++ [.end_]
  inner : ∀ f ∈ fs, f.kind ≠ .eof ∧ f.kind ≠ .fatArrow

namespace Cursor.On

variable {c : Cursor} {f : Form} {fs : List Form}

theorem current (h : c.On (f :: fs)) : c.current.form = f := (List.cons.inj h.forms).1

theorem kind (h : c.On fs) : c.current.kind = headKind fs := by
  cases fs with
  | nil => exact congrArg Form.kind (List.cons.inj h.forms).1
  | cons f fs => exact congrArg Form.kind h.current

theorem value (h : c.On (f :: fs)) : c.current.value = f.value := congrArg Form.value h.current

theorem newlineBefore (h : c.On (f :: fs)) : c.current.newlineBefore = f.newlineBefore :=
  congrArg Form.newlineBefore h.current

theorem remaining (h : c.On fs) : c.remaining = fs.length + 1 := by
  have hl := congrArg List.length h.forms
  simp only [List.length_map, List.length_cons, List.length_append, List.length_nil] at hl
  rw [Cursor.remaining, hl]

theorem atEnd (h : c.On fs) : c.atEnd = (headKind fs == .eof) := by rw [Cursor.atEnd, h.kind]

theorem at_ (h : c.On fs) (k : Kind) : c.at_ k = (headKind fs != .eof && headKind fs == k) := by
  rw [Cursor.at_, h.atEnd, h.kind]
  rfl

theorem at_head (h : c.On (f :: fs)) {k : Kind} (hk : f.kind = k) : c.at_ k = true := by
  rw [h.at_, headKind, hk, beq_self_eq_true, Bool.and_true, bne_iff_ne, ← hk]
  exact (h.inner f List.mem_cons_self).1

theorem at_ne (h : c.On fs) {k : Kind} (hk : headKind fs ≠ k) : c.at_ k = false := by
  rw [h.at_, beq_eq_false_iff_ne.2 hk, Bool.and_false]

/-- What follows the first token. -/
theorem following (h : c.On (f :: fs)) : c.following.map Token.form = fs ++ [.end_] :=
  (List.cons.inj h.forms).2

theorem peek? (h : c.On fs) (n : Nat) : (c.peek? n).map Token.form = (fs ++ [.end_])[n]? := by
  rw [← h.forms, List.getElem?_map]
  cases n <;> rfl

/-- What holds of the token so many places ahead. -/
theorem any_peek? (h : c.On fs) (n : Nat) (P : Form → Bool) :
    (c.peek? n).any (fun t => P t.form) = ((fs ++ [.end_])[n]?).any P := by
  rw [← h.peek?, Option.any_map]

/-- What holds of the kind of the next token. -/
theorem any_next (h : c.On (f :: fs)) (P : Kind → Bool) :
    (c.peek? 1).any (fun t => P t.kind) = P (headKind fs) :=
  (h.any_peek? 1 fun f => P f.kind).trans (by cases fs <;> rfl)

theorem sees_one (h : c.On (f :: fs)) (k : Kind) : c.sees 1 k = (headKind fs == k) :=
  h.any_next (· == k)

theorem atWord (h : c.On (f :: fs)) (word : String) :
    c.atWord word = (f.kind == .identifier && f.value == word) := by
  have hne : (f.kind != .eof) = true := bne_iff_ne.2 (h.inner f List.mem_cons_self).1
  rw [Cursor.atWord, h.at_, h.value, headKind, hne, Bool.true_and]

theorem atWord_head (h : c.On (f :: fs)) {word : String} (hk : f.kind = .identifier)
    (hv : f.value = word) : c.atWord word = true := by
  rw [h.atWord, hk, hv, beq_self_eq_true, beq_self_eq_true]
  rfl

theorem atWord_ne (h : c.On (f :: fs)) {word : String}
    (hf : f.kind ≠ .identifier ∨ f.value ≠ word) : c.atWord word = false := by
  rw [h.atWord, Bool.and_eq_false_iff, beq_eq_false_iff_ne, beq_eq_false_iff_ne]
  exact hf

/-- There is no arrow ahead. -/
theorem kind_ne_fatArrow (h : c.On fs) : ∀ t ∈ c.current :: c.following, t.kind ≠ .fatArrow := by
  intro t ht
  have hmem : t.form ∈ fs ++ [.end_] := h.forms ▸ List.mem_map_of_mem ht
  rcases List.mem_append.1 hmem with hmem | hmem
  · exact (h.inner _ hmem).2
  · rw [show t.kind = t.form.kind from rfl, List.mem_singleton.1 hmem]
    decide

end Cursor.On

/-- A tape in front of the given tokens, with room for so many levels of the grammar. The operator
`in` is allowed. -/
structure Tape.On (t : Tape) (room : Nat) (fs : List Form) : Prop where
  cursor : t.cursor.On fs
  noIn : t.noIn = false
  room : t.depth + room ≤ maxNesting

/-- The tape at the token after the first one. -/
theorem Tape.On.next {t : Tape} {room : Nat} {f : Form} {fs : List Form} (h : t.On room (f :: fs)) :
    t.advance.On room fs ∧ t.advance.cursor.previous = t.current := by
  have hend : t.cursor.atEnd = false := by
    rw [h.cursor.atEnd]
    exact beq_eq_false_iff_ne.2 (h.cursor.inner f List.mem_cons_self).1
  have hforms : t.following.map Token.form = fs ++ [.end_] := h.cursor.following
  cases hf : t.following with
  | nil =>
    rw [hf] at hforms
    cases fs <;> simp at hforms
  | cons u us =>
    rw [hf] at hforms
    rw [Tape.advance, hend, hf]
    refine ⟨⟨⟨hforms, fun g hg => ?_⟩, h.noIn, h.room⟩, rfl⟩
    exact h.cursor.inner g (List.mem_cons_of_mem _ hg)

/-! ### Parsers in front of given tokens -/

/-- A parser that reads the first tokens up to the given rest, and gives a value of which something
holds, where there is room for so many levels of the grammar. -/
def Reads (room : Nat) {α : Type} (p : Parser α) (fs gs : List Form) (Q : α → Prop) : Prop :=
  ∀ t : Tape, t.On room fs → ∃ a t', p t = .ok a t' ∧ t'.On room gs ∧ Q a

/-- One parser after another that gives a value. -/
theorem bind_eq_of_ok {α β : Type} {p : Parser α} {f : α → Parser β} {t t' : Tape} {a : α}
    (h : p t = .ok a t') : (p >>= f) t = f a t' := by
  rw [Parser.bind_run, h]

namespace Reads

variable {room : Nat} {α β : Type} {p : Parser α} {f : α → Parser β} {fs gs hs : List Form}
  {Q : α → Prop} {R : β → Prop}

theorem pure {a : α} (h : Q a) : Reads room (pure a : Parser α) fs fs Q := fun t ht => ⟨a, t, rfl, ht, h⟩

theorem bind (hp : Reads room p fs gs Q) (hf : ∀ a, Q a → Reads room (f a) gs hs R) :
    Reads room (p >>= f) fs hs R := by
  intro t ht
  obtain ⟨a, t', hr, ht', ha⟩ := hp t ht
  rw [bind_eq_of_ok hr]
  exact hf a ha t' ht'

theorem get {f : Cursor → Parser α} (h : ∀ c, c.On fs → Reads room (f c) fs gs Q) :
    Reads room (get >>= f) fs gs Q :=
  fun t ht => h t.cursor ht.cursor t ht

theorem mono {P : α → Prop} (hp : Reads room p fs gs P) (h : ∀ a, P a → Q a) : Reads room p fs gs Q := by
  intro t ht
  obtain ⟨a, t', hr, ht', ha⟩ := hp t ht
  exact ⟨a, t', hr, ht', h a ha⟩

theorem map {g : α → β} (hp : Reads room p fs gs Q) (h : ∀ a, Q a → R (g a)) :
    Reads room (g <$> p) fs gs R :=
  hp.bind fun a ha => pure (h a ha)

theorem discard (hp : Reads room p fs gs Q) : Reads room (discard p) fs gs fun _ => True :=
  hp.map fun _ _ => trivial

/-- With the operator `in` allowed, as it is already. -/
theorem withIn (hp : Reads room p fs gs Q) : Reads room (withIn true p) fs gs Q := by
  intro t ht
  obtain ⟨a, t', hr, ht', ha⟩ := hp { t with noIn := false } ⟨ht.cursor, rfl, ht.room⟩
  refine ⟨a, { t' with noIn := t.noIn }, ?_, ⟨ht'.cursor, ht.noIn, ht'.room⟩, ha⟩
  show Outcome.onTape _ (p { t with noIn := false }) = _
  rw [hr]
  rfl

/-- One level further in there is room for one level less. -/
theorem nested (hp : Reads room p fs gs Q) : Reads (room + 1) (nested p) fs gs Q := by
  intro t ht
  have hroom := ht.room
  obtain ⟨a, t', hr, ht', ha⟩ :=
    hp { t with depth := t.depth + 1 } ⟨ht.cursor, ht.noIn, by show t.depth + 1 + room ≤ _; omega⟩
  have hdepth : t'.depth = t.depth + 1 := by
    have hrewinds := p.rewindsTo { t with depth := t.depth + 1 }
    rw [hr] at hrewinds
    exact hrewinds.depth
  refine ⟨a, { t' with depth := t'.depth - 1 }, ?_, ⟨ht'.cursor, ht'.noIn, ?_⟩, ha⟩
  · rw [nested_eq (by omega), hr]
    rfl
  · show t'.depth - 1 + (room + 1) ≤ maxNesting
    omega

end Reads

variable {room : Nat} {f : Form} {fs gs hs : List Form}

theorem reads_skip : Reads room skip (f :: fs) fs fun _ => True := fun t ht =>
  ⟨(), t.advance, rfl, ht.next.1, trivial⟩

theorem reads_take : Reads room take (f :: fs) fs fun t => t.form = f := by
  intro t ht
  obtain ⟨hon, hprevious⟩ := ht.next
  refine ⟨t.advance.cursor.previous, t.advance, rfl, hon, ?_⟩
  rw [hprevious]
  exact ht.cursor.current

theorem reads_here : Reads room here fs fs fun _ => True := .get fun _ _ => .pure trivial

theorem reads_inAllowed : Reads room inAllowed fs fs fun allowed => allowed = true :=
  fun t ht => ⟨!t.noIn, t, rfl, ht, by rw [ht.noIn]; rfl⟩

theorem reads_since (start : Span) : Reads room (since start) fs fs fun _ => True :=
  .get fun _ _ => .pure trivial

theorem reads_accept {k : Kind} (h : f.kind = k) :
    Reads room (accept k) (f :: fs) fs fun found => found = true := by
  refine .get fun c hc => ?_
  simp only [hc.at_head h, if_true]
  exact .bind reads_skip fun _ _ => .pure rfl

theorem reads_accept_ne {k : Kind} (h : headKind fs ≠ k) :
    Reads room (accept k) fs fs fun found => found = false := by
  refine .get fun c hc => ?_
  simp only [hc.at_ne h, Bool.false_eq_true, if_false]
  exact .pure rfl

theorem reads_expect {k : Kind} (h : f.kind = k) :
    Reads room (expect k) (f :: fs) fs fun t => t.form = f := by
  refine .get fun c hc => ?_
  rw [if_pos (hc.at_head h)]
  exact reads_take

/-- A token of the given kind is passed over. -/
theorem reads_token {k : Kind} (h : f.kind = k) :
    Reads room (discard (expect k)) (f :: fs) fs fun _ => True := (reads_expect h).discard

theorem reads_acceptWord {word : String} (hk : f.kind = .identifier) (hv : f.value = word) :
    Reads room (acceptWord word) (f :: fs) fs fun found => found = true := by
  refine .get fun c hc => ?_
  simp only [hc.atWord_head hk hv, if_true]
  exact .bind reads_skip fun _ _ => .pure rfl

theorem reads_acceptWord_ne {word : String} (h : f.kind ≠ .identifier ∨ f.value ≠ word) :
    Reads room (acceptWord word) (f :: fs) (f :: fs) fun found => found = false := by
  refine .get fun c hc => ?_
  simp only [hc.atWord_ne h, Bool.false_eq_true, if_false]
  exact .pure rfl

theorem reads_expectWord {word : String} (hk : f.kind = .identifier) (hv : f.value = word) :
    Reads room (expectWord word) (f :: fs) fs fun _ => True := by
  refine .get fun c hc => ?_
  rw [if_pos (hc.atWord_head hk hv)]
  exact reads_skip

/-- A value after a token of the given kind. -/
theorem reads_after {α : Type} {p : Parser α} {Q : α → Prop} {k : Kind} (h : f.kind = k)
    (hp : Reads room p fs gs Q) :
    Reads room (after k p) (f :: fs) gs fun found => ∃ a, found = some a ∧ Q a := by
  refine .bind (reads_accept h) fun found hfound => ?_
  rw [if_pos hfound]
  exact hp.bind fun a ha => .pure ⟨a, rfl, ha⟩

/-- No value where no token of the given kind comes first. -/
theorem reads_after_ne {α : Type} {p : Parser α} {k : Kind} (h : headKind fs ≠ k) :
    Reads room (after k p) fs fs fun found => found = none := by
  refine .bind (reads_accept_ne h) fun found hfound => ?_
  rw [if_neg (by simp [hfound])]
  exact .pure rfl

/-! ### Repetition -/

/-- What a repeated parser reads: values that stand for the given ones, one after the other, and
then nothing. Every value takes up a token. -/
inductive Collects (room : Nat) {α β : Type} (p : Parser (Option α)) (R : β → α → Prop) :
    List Form → List β → List Form → Prop where
  | nil {fs : List Form} (h : Reads room p fs fs fun found => found = none) : Collects room p R fs [] fs
  | cons {fs gs hs : List Form} {b : β} {bs : List β}
    (h : Reads room p fs gs fun found => ∃ a, found = some a ∧ R b a) (hl : gs.length < fs.length)
    (ht : Collects room p R gs bs hs) : Collects room p R fs (b :: bs) hs

variable {α β : Type} {p : Parser (Option α)} {R : β → α → Prop} {bs : List β}

theorem reads_collectUpTo (h : Collects room p R fs bs gs) {fuel : Nat} (hfuel : fs.length < fuel)
    (found : List α) :
    Reads room (collectUpTo p fuel found) fs gs fun as =>
      ∃ as', as = found.reverse ++ as' ∧ List.Forall₂ R bs as' := by
  induction h generalizing fuel found with
  | nil h =>
    cases fuel with
    | zero => exact absurd hfuel (Nat.not_lt_zero _)
    | succ fuel =>
      refine .bind h fun a ha => ?_
      rw [ha]
      exact .pure ⟨[], by simp, .nil⟩
  | cons h hl _ ih =>
    cases fuel with
    | zero => exact absurd hfuel (Nat.not_lt_zero _)
    | succ fuel =>
      refine .bind h fun o ho => ?_
      obtain ⟨a, rfl, ha⟩ := ho
      refine (ih (by omega) (a :: found)).mono fun as has => ?_
      obtain ⟨as', rfl, has'⟩ := has
      exact ⟨a :: as', by simp, .cons ha has'⟩

/-- A parser that is repeated gives the values one after the other. -/
theorem reads_collect (h : Collects room p R fs bs gs) :
    Reads room (collect p) fs gs fun as => List.Forall₂ R bs as := by
  refine .get fun c hc => ?_
  refine (reads_collectUpTo h (by rw [hc.remaining]; omega) []).mono fun as has => ?_
  obtain ⟨as', rfl, has'⟩ := has
  exact has'

section
variable {step : α → Parser (Option α)} {a : α} {Q : α → Prop}

/-- A transformation that does not apply leaves a value as it is. -/
theorem reads_extend_none (h : Reads room (step a) gs gs fun found => found = none) (ha : Q a) :
    Reads room (extend step a) gs gs Q := by
  refine .get fun c hc => ?_
  rw [hc.remaining, extendUpTo]
  refine h.bind fun found hfound => ?_
  rw [hfound]
  exact .pure ha

/-- A transformation that applies once. -/
theorem reads_extend_once
    (h : Reads room (step a) (f :: fs) gs fun found => ∃ b, found = some b ∧ Q b)
    (hnone : ∀ b, Q b → Reads room (step b) gs gs fun found => found = none) :
    Reads room (extend step a) (f :: fs) gs Q := by
  refine .get fun c hc => ?_
  rw [hc.remaining, List.length_cons, extendUpTo]
  refine h.bind fun found hfound => ?_
  obtain ⟨b, rfl, hb⟩ := hfound
  show Reads room (extendUpTo step (fs.length + 1) b) gs gs Q
  rw [extendUpTo]
  refine (hnone b hb).bind fun found hfound => ?_
  rw [hfound]
  exact .pure hb

end

theorem reads_untilStep_none {closer : Kind} {p : Parser α} (h : f.kind = closer) :
    Reads room (untilStep closer p) (f :: fs) (f :: fs) fun found => found = none := by
  refine .get fun c hc => ?_
  rw [if_pos (by rw [hc.at_head h, Bool.true_or])]
  exact .pure rfl

theorem reads_untilStep {closer : Kind} {p : Parser α} {Q : α → Prop} (h : headKind fs ≠ closer)
    (hend : headKind fs ≠ .eof) (hp : Reads room p fs gs Q) :
    Reads room (untilStep closer p) fs gs fun found => ∃ a, found = some a ∧ Q a := by
  refine .get fun c hc => ?_
  rw [if_neg (by rw [hc.at_ne h, hc.atEnd, beq_eq_false_iff_ne.2 hend]; decide)]
  exact hp.bind fun a ha => .pure ⟨a, rfl, ha⟩

end TypeStrip.Grammar
