import TypeStrip.Proofs.Progress.Moves
import TypeStrip.Proofs.Strings.Rewording

/-!
Parsers that take a tape with reworded strings to what they take the tape to, reworded. Moves and
what is made of them do so, since they look at the kinds of tokens and at the spelling of words.
-/
namespace TypeStrip
open TypeStrip.Token (Kind)
open Reworded

/-! ### Tokens -/

namespace Token
variable {σ : String → String} {t : Token}

@[simp] theorem kind_reword : (t.reword σ).kind = t.kind := rfl

@[simp] theorem span_reword : (t.reword σ).span = t.span := rfl

@[simp] theorem newlineBefore_reword : (t.reword σ).newlineBefore = t.newlineBefore := rfl

theorem reword_of_ne_string (h : t.kind ≠ .string) : t.reword σ = t := by
  rw [reword, if_neg h]

/-- The texts of words and templates are read like those of strings. -/
def Kind.givesText (k : Kind) : Bool := k == .identifier || k.isReserved || k == .template

theorem ne_string_of_givesText (h : t.kind.givesText = true) : t.kind ≠ .string := by
  intro hk
  rw [hk] at h
  revert h
  decide

/-- A comparison with a word that is no string. -/
theorem any_reword {b : Token → Bool} (hb : ∀ u : Token, b (u.reword σ) = b u) (u : Option Token) :
    (u.map (Token.reword σ)).any b = u.any b := by
  cases u with
  | none => rfl
  | some u => exact hb u

end Token

namespace Grammar

/-- A rewording of strings that the grammar does not notice. It leaves words and templates alone,
and after the words `type from` it neither makes a string the word `from` nor that word another. -/
structure Unnoticed (σ : String → String) (tokens : List Token) : Prop where
  this : σ "this" = "this"
  words : ∀ t ∈ tokens, t.kind.givesText = true → σ t.value = t.value
  imports : ∀ a b c rest, a :: b :: c :: rest <:+ tokens → a.kind = .identifier → a.value = "type" →
    b.kind = .identifier → b.value = "from" → c.kind = .string →
    (σ c.value = "from" ↔ c.value = "from")

namespace Unnoticed
variable {σ : String → String} {t : Token} {tokens : List Token}

theorem tail (h : Unnoticed σ (t :: tokens)) : Unnoticed σ tokens where
  this := h.this
  words u hu := h.words u (List.mem_cons_of_mem _ hu)
  imports a b c rest hs := h.imports a b c rest (hs.trans (List.suffix_cons ..))

theorem cons (h : Unnoticed σ tokens) (ht : t.kind.givesText ≠ true) :
    Unnoticed σ (t :: tokens) where
  this := h.this
  words u hu hg := by
    rcases List.mem_cons.1 hu with rfl | hu
    · exact absurd hg ht
    · exact h.words u hu hg
  imports a b c rest hs ha := by
    rcases List.suffix_cons_iff.1 hs with heq | hs
    · cases heq
      rw [ha] at ht
      exact absurd rfl ht
    · exact h.imports a b c rest hs ha

end Unnoticed

/-! ### Places -/

def Cursor.reword (σ : String → String) (c : Cursor) : Cursor :=
  ⟨c.previous.reword σ, c.current.reword σ, c.following.map (Token.reword σ)⟩

namespace Cursor
variable (σ : String → String) (c : Cursor)

@[simp] theorem previous_reword : (c.reword σ).previous = c.previous.reword σ := rfl

@[simp] theorem current_reword : (c.reword σ).current = c.current.reword σ := rfl

/-- A token that is no string is seen as it is. -/
theorem current_reword_of_ne_string (h : c.current.kind ≠ .string) :
    (c.reword σ).current = c.current :=
  Token.reword_of_ne_string h

@[simp] theorem atEnd_reword : (c.reword σ).atEnd = c.atEnd := rfl

@[simp] theorem at_reword (kind : Kind) : (c.reword σ).at_ kind = c.at_ kind := rfl

@[simp] theorem atName_reword : (c.reword σ).atName = c.atName := rfl

@[simp] theorem peek?_reword (n : Nat) :
    (c.reword σ).peek? n = (c.peek? n).map (Token.reword σ) := by
  cases n with
  | zero => rfl
  | succ n => exact List.getElem?_map ..

@[simp] theorem sees_reword (n : Nat) (kind : Kind) : (c.reword σ).sees n kind = c.sees n kind := by
  rw [sees, peek?_reword, Token.any_reword fun _ => rfl, sees]

@[simp] theorem seesAny_reword (n : Nat) (kinds : List Kind) :
    (c.reword σ).seesAny n kinds = c.seesAny n kinds := by
  rw [seesAny, peek?_reword, Token.any_reword fun _ => rfl, seesAny]

@[simp] theorem sameLine_reword (n : Nat) : (c.reword σ).sameLine n = c.sameLine n := by
  rw [sameLine, peek?_reword, Token.any_reword fun _ => rfl, sameLine]

@[simp] theorem remaining_reword : (c.reword σ).remaining = c.remaining := by
  simp [remaining, reword]

/-- A word is compared where its kind is. -/
theorem word_reword (kind : Kind → Bool) (hk : kind .string = false) (b : String → Bool)
    (t : Token) :
    (kind (t.reword σ).kind && b (t.reword σ).value) = (kind t.kind && b t.value) := by
  by_cases h : t.kind = .string
  · simp [h, hk]
  · rw [Token.reword_of_ne_string h]

@[simp] theorem atWord_reword (word : String) : (c.reword σ).atWord word = c.atWord word :=
  word_reword σ (fun k => !(k == .eof) && k == .identifier) rfl (· == word) c.current

@[simp] theorem seesWord_reword (n : Nat) (word : String) :
    (c.reword σ).seesWord n word = c.seesWord n word := by
  rw [seesWord, peek?_reword, Token.any_reword, seesWord]
  exact word_reword σ (· == .identifier) rfl (· == word)

end Cursor

def Tape.reword (σ : String → String) (t : Tape) : Tape :=
  { t with
    passed := t.passed.map (Token.reword σ)
    current := t.current.reword σ
    following := t.following.map (Token.reword σ)
    rewrites := t.rewrites.map fun r => (r.1, r.2.reword σ) }

/-- The tokens ahead end, and the grammar does not notice that strings among them are reworded. -/
structure Tape.Fits (σ : String → String) (t : Tape) : Prop where
  ended : t.Ended
  unnoticed : Unnoticed σ (t.current :: t.following)

namespace Tape
variable {σ : String → String} {t t' : Tape}

@[simp] theorem cursor_reword : (t.reword σ).cursor = t.cursor.reword σ := by
  cases h : t.passed <;> simp [cursor, reword, Cursor.reword, h]

@[simp] theorem kind_reword : (t.reword σ).current.kind = t.current.kind := rfl

@[simp] theorem span_reword : (t.reword σ).current.span = t.current.span := rfl

@[simp] theorem noIn_reword : (t.reword σ).noIn = t.noIn := rfl

theorem advance_reword : (t.reword σ).advance = t.advance.reword σ := by
  unfold advance
  rw [cursor_reword, Cursor.atEnd_reword]
  cases t.cursor.atEnd with
  | true => rfl
  | false =>
    rw [show (t.reword σ).following = t.following.map (Token.reword σ) from rfl]
    cases t.following <;> rfl

theorem givesText_of_afterAngle? {k kind : Kind} {value : String}
    (h : afterAngle? k = some (kind, value)) : kind.givesText ≠ true ∧ kind ≠ .string := by
  unfold afterAngle? at h
  split at h <;> cases h <;> decide

theorem splitAngle_reword {kind : Kind} {value : String}
    (h : afterAngle? t.current.kind = some (kind, value)) :
    (t.reword σ).splitAngle kind value = (t.splitAngle kind value).reword σ := by
  have hk := (givesText_of_afterAngle? h).2
  simp [splitAngle, reword, position, Token.reword_of_ne_string, hk]

theorem Fits.reaches (h : t.Fits σ) (ht : t.Reaches t') : t'.Fits σ := by
  refine ⟨h.ended.reaches ht, ?_⟩
  induction ht with
  | refl => exact h.unnoticed
  | @advance t' _ ih =>
    unfold advance
    split
    · rename_i next rest _ hf
      rw [hf] at ih
      exact ih.tail
    · exact ih
  | splitAngle _ ha ih => exact ih.tail.cons (givesText_of_afterAngle? ha).1

theorem Fits.current_value (h : t.Fits σ) (ht : t.current.kind.givesText = true) :
    σ t.current.value = t.current.value :=
  h.unnoticed.words _ (List.mem_cons_self ..) ht

end Tape

/-! ### Parsers -/

def Outcome.reword {α : Type} [Reworded α] (σ : String → String) : Outcome α → Outcome α
  | .ok a t => .ok (Reworded.reword σ a) (t.reword σ)
  | .error e t => .error e (t.reword σ)

/-- From a tape with reworded strings, the second parser ends with what the first one ends with from
the tape, reworded. -/
def CarriesAt (σ : String → String) {α : Type} [Reworded α] (t : Tape) (p q : Parser α) : Prop :=
  t.Fits σ → q (t.reword σ) = (p t).reword σ

def Carries (σ : String → String) {α : Type} [Reworded α] (p q : Parser α) : Prop :=
  ∀ t, CarriesAt σ t p q

variable {σ : String → String} {α β : Type} [Reworded α] [Reworded β] {t : Tape} {p q : Parser α}

namespace CarriesAt

/-- What holds of a tape that fits may be used. -/
theorem fits (h : t.Fits σ → CarriesAt σ t p q) : CarriesAt σ t p q := fun ht => h ht ht

theorem pure {a b : α} (h : b = reword σ a) : CarriesAt σ t (pure a) (pure b) := by
  rw [h]
  exact fun _ => rfl

theorem bind {f f' : α → Parser β} (hp : CarriesAt σ t p q)
    (hf : ∀ a, Carries σ (f a) (f' (reword σ a))) : CarriesAt σ t (p >>= f) (q >>= f') := by
  intro ht
  rw [Parser.bind_run, Parser.bind_run, hp ht]
  cases hr : p t with
  | ok a t' => exact hf a t' (ht.reaches (Parser.reaches_of_ok hr))
  | error e t' => rfl

theorem get {f f' : Cursor → Parser α} (h : CarriesAt σ t (f t.cursor) (f' (t.cursor.reword σ))) :
    CarriesAt σ t (get >>= f) (get >>= f') := by
  intro ht
  refine Eq.trans ?_ (h ht)
  exact congrArg (fun c => f' c (t.reword σ)) Tape.cursor_reword

theorem ite {b : Prop} [Decidable b] {p' q' : Parser α} (hp : b → CarriesAt σ t p q)
    (hq : ¬b → CarriesAt σ t p' q') :
    CarriesAt σ t (if b then p else p') (if b then q else q') := by
  split
  · exact hp ‹_›
  · exact hq ‹_›

theorem skip {f f' : Unit → Parser α} (hf : CarriesAt σ t.advance (f ()) (f' ())) :
    CarriesAt σ t (skip >>= f) (skip >>= f') := by
  intro ht
  rw [Parser.bind_run, Parser.bind_run]
  show f' () (t.reword σ).advance = _
  rw [Tape.advance_reword]
  exact hf (ht.reaches (.advance .refl))

theorem take {f f' : Token → Parser α} (hk : t.current.kind ≠ .eof)
    (hf : CarriesAt σ t.advance (f t.current) (f' (t.current.reword σ))) :
    CarriesAt σ t (take >>= f) (take >>= f') := by
  intro ht
  obtain ⟨next, rest, hn⟩ := ht.ended.exists_following hk
  have hprevious : t.advance.cursor.previous = t.current := by
    rw [advance_eq hk hn]
    rfl
  have hreword : (t.reword σ).advance.cursor.previous = t.current.reword σ := by
    rw [Tape.advance_reword, Tape.cursor_reword, Cursor.previous_reword, hprevious]
  rw [Parser.bind_run, Parser.bind_run]
  show f' (t.reword σ).advance.cursor.previous (t.reword σ).advance =
    (f t.advance.cursor.previous t.advance).reword σ
  rw [hreword, hprevious, Tape.advance_reword]
  exact hf (ht.reaches (.advance .refl))

end CarriesAt

namespace Carries

/-- What a parser puts in place of a token is not reworded. -/
theorem unnoticed (h : σ "this" = "this" → Carries σ p q) : Carries σ p q := fun t ht =>
  h ht.unnoticed.this t ht

theorem pure {a b : α} (h : b = reword σ a) : Carries σ (pure a) (pure b) := fun _ => .pure h

theorem bind {f f' : α → Parser β} (hp : Carries σ p q)
    (hf : ∀ a, Carries σ (f a) (f' (reword σ a))) : Carries σ (p >>= f) (q >>= f') := fun t =>
  .bind (hp t) hf

theorem map {f f' : α → β} (hp : Carries σ p q) (hf : ∀ a, f' (reword σ a) = reword σ (f a)) :
    Carries σ (f <$> p) (f' <$> q) :=
  bind hp fun a => pure (hf a)

theorem get {f f' : Cursor → Parser α} (h : ∀ c : Cursor, Carries σ (f c) (f' (c.reword σ))) :
    Carries σ (get >>= f) (get >>= f') := fun t => .get (h t.cursor t)

theorem inAllowed {f f' : Bool → Parser α} (h : ∀ allowed, Carries σ (f allowed) (f' allowed)) :
    Carries σ (inAllowed >>= f) (inAllowed >>= f') := fun t => h _ t

theorem throw {e : ParseError} : Carries σ (throw e : Parser α) (throw e) := fun _ _ => rfl

theorem ite {b : Prop} [Decidable b] {p' q' : Parser α} (hp : Carries σ p q)
    (hq : Carries σ p' q') : Carries σ (if b then p else p') (if b then q else q') := by
  split
  · exact hp
  · exact hq

/-- A branch that ends in the other one. -/
theorem ite_of {b : Prop} [Decidable b] {p' q' : Parser α} (hq : Carries σ p' q')
    (hp : Carries σ p' q' → Carries σ p q) :
    Carries σ (if b then p else p') (if b then q else q') :=
  ite (hp hq) hq

/-- A branch that may do something before the rest. -/
theorem when {b : Prop} [Decidable b] {p q : Parser Unit} {f f' : Unit → Parser α}
    (hp : Carries σ p q) (hf : Carries σ (f ()) (f' ())) :
    Carries σ (if b then p >>= f else f ()) (if b then q >>= f' else f' ()) :=
  ite (bind hp fun _ => hf) hf

/-- A branch that has to do something before the rest, if a condition fails. -/
theorem otherwise {b : Prop} [Decidable b] {p q : Parser Unit} {f f' : Unit → Parser α}
    (hp : Carries σ p q) (hf : Carries σ (f ()) (f' ())) :
    Carries σ (if b then f () else p >>= f) (if b then f' () else q >>= f') :=
  ite hf (bind hp fun _ => hf)

/-- Two ways to a value that is used in the same way. -/
theorem either {b : Prop} [Decidable b] {p' q' : Parser α} {f f' : α → Parser β}
    (hp : Carries σ p q) (hq : Carries σ p' q') (hf : ∀ a, Carries σ (f a) (f' (reword σ a))) :
    Carries σ (if b then p >>= f else p' >>= f) (if b then q >>= f' else q' >>= f') :=
  ite (bind hp hf) (bind hq hf)

/-- Two ways to a value that is used in the same way, of which one takes a step first. -/
theorem eitherStep {γ : Type} [Reworded γ] {b : Prop} [Decidable b] {s s' : Parser γ}
    {p q : γ → Parser α} {p' q' : Parser α} {f f' : α → Parser β} (hs : Carries σ s s')
    (hp : ∀ c, Carries σ (p c) (q (reword σ c))) (hq : Carries σ p' q')
    (hf : ∀ a, Carries σ (f a) (f' (reword σ a))) :
    Carries σ (if b then s >>= fun c => p c >>= f else p' >>= f)
      (if b then s' >>= fun c => q c >>= f' else q' >>= f') :=
  ite (bind hs fun c => bind (hp c) hf) (bind hq hf)

end Carries

/-! ### Moves -/

theorem carries_complain (complaint : Complaint) :
    Carries σ (complain complaint : Parser α) (complain complaint) := by
  refine .get fun c => ?_
  rw [Cursor.current_reword]
  by_cases h : c.current.kind = .string
  · simp only [Token.kind_reword, Token.span_reword, h, reduceCtorEq, if_false]
    exact .throw
  · rw [Token.reword_of_ne_string h]
    exact .throw

theorem carries_complainFound (complaint : Kind → Complaint) :
    Carries σ (complainFound complaint : Parser α) (complainFound complaint) :=
  .get fun _ => carries_complain _

/-- A token of the given kind is passed, or there is a complaint. -/
theorem CarriesAt.expect {kind : Kind} {f f' : Token → Parser α}
    (hf : t.current.kind = kind →
      CarriesAt σ t.advance (f t.current) (f' (t.current.reword σ))) :
    CarriesAt σ t (expect kind >>= f) (expect kind >>= f') := by
  show CarriesAt σ t
    (Grammar.get >>= fun c =>
      (if c.at_ kind then Grammar.take else complainFound (.expected kind)) >>= f)
    (Grammar.get >>= fun c =>
      (if c.at_ kind then Grammar.take else complainFound (.expected kind)) >>= f')
  refine .get ?_
  rw [Cursor.at_reword]
  by_cases h : t.cursor.at_ kind = true
  · rw [if_pos h]
    exact .take (Cursor.kind_of_at_ h) (hf (kind_of_at_ h))
  · rw [if_neg h]
    exact (carries_complainFound _ t : CarriesAt σ t (complainFound _ : Parser α) _)

theorem carries_skip : Carries σ skip skip := fun _ => .skip (.pure rfl)

theorem carries_here : Carries σ here here := .get fun _ => .pure rfl

theorem carries_since (start : Span) : Carries σ (since start) (since start) := by
  refine .get fun c => .pure ?_
  rfl

theorem carries_accept (kind : Kind) : Carries σ (accept kind) (accept kind) :=
  .get fun _ => .when carries_skip (.pure rfl)

theorem carries_acceptWord (word : String) : Carries σ (acceptWord word) (acceptWord word) := by
  refine .get fun c => ?_
  rw [Cursor.atWord_reword]
  exact .when carries_skip (.pure rfl)

theorem carries_expect (kind : Kind) : Carries σ (expect kind) (expect kind) := by
  intro t
  have h : CarriesAt σ t (expect kind >>= pure) (expect kind >>= pure) := .expect fun _ => .pure rfl
  rwa [bind_pure] at h

theorem carries_expectWord (word : String) : Carries σ (expectWord word) (expectWord word) := by
  refine .get fun c => ?_
  rw [Cursor.atWord_reword]
  exact .ite carries_skip (carries_complainFound _)

theorem carries_closeAngle : Carries σ closeAngle closeAngle := by
  intro t ht
  show (if (t.reword σ).current.kind = .gt then skip (t.reword σ) else _) =
    Outcome.reword σ (if t.current.kind = .gt then skip t else _)
  rw [Tape.kind_reword]
  split
  · exact carries_skip t ht
  · cases h : afterAngle? t.current.kind with
    | some rest => exact congrArg (EStateM.Result.ok ()) (Tape.splitAngle_reword h)
    | none => exact carries_complainFound _ t ht

theorem carries_endStatement : Carries σ endStatement endStatement :=
  .get fun _ => .ite carries_skip (.ite (.pure rfl) (carries_complainFound _))

/-! ### Parsers made of others -/

theorem Outcome.onTape_reword {f : Tape → Tape} (hf : ∀ t, f (t.reword σ) = (f t).reword σ)
    (r : Outcome α) : (r.reword σ).onTape f = (r.onTape f).reword σ := by
  cases r with
  | ok a t => exact congrArg (EStateM.Result.ok _) (hf t)
  | error e t => exact congrArg (EStateM.Result.error e) (hf t)

namespace Carries

theorem discard (h : Carries σ p q) : Carries σ (discard p) (discard q) := map h fun _ => rfl

theorem attempt (h : Carries σ p q) : Carries σ (attempt p) (attempt q) := by
  intro t ht
  have hq := h t ht
  cases hr : p t with
  | ok a t' =>
    rw [hr] at hq
    rw [attempt_eq_some hr, attempt_eq_some hq]
    rfl
  | error e t' =>
    rw [hr] at hq
    rw [attempt_eq_none hr, attempt_eq_none hq]
    rfl

theorem nested (h : Carries σ p q) : Carries σ (nested p) (nested q) := by
  intro t ht
  by_cases hd : t.depth < maxNesting
  · have hq := h { t with depth := t.depth + 1 } ⟨ht.ended, ht.unnoticed⟩
    rw [nested_eq hd]
    refine (nested_eq (t := t.reword σ) hd).trans ?_
    exact (congrArg (Outcome.onTape _) hq).trans (Outcome.onTape_reword (by intro _; rfl) _)
  · rw [nested_eq_tooDeep hd]
    exact (nested_eq_tooDeep (t := t.reword σ) hd).trans (carries_complain _ t ht)

theorem withIn (allowed : Bool) (h : Carries σ p q) :
    Carries σ (withIn allowed p) (withIn allowed q) := by
  intro t ht
  have hq := h { t with noIn := !allowed } ⟨ht.ended, ht.unnoticed⟩
  exact (congrArg (Outcome.onTape fun t' => { t' with noIn := t.noIn }) hq).trans
    (Outcome.onTape_reword (by intro _; rfl) _)

theorem collectUpTo {p q : Parser (Option α)} (h : Carries σ p q) (fuel : Nat) (found : List α) :
    Carries σ (collectUpTo p fuel found) (collectUpTo q fuel (reword σ found)) := by
  induction fuel generalizing found with
  | zero => exact .pure (List.map_reverse ..).symm
  | succ fuel ih =>
    refine .bind h fun a => ?_
    cases a with
    | none => exact .pure (List.map_reverse ..).symm
    | some a => exact ih (a :: found)

theorem collect {p q : Parser (Option α)} (h : Carries σ p q) :
    Carries σ (collect p) (collect q) := by
  refine .get fun c => ?_
  rw [Cursor.remaining_reword]
  exact h.collectUpTo _ []

theorem collectUntil (closer : Kind) (h : Carries σ p q) :
    Carries σ (collectUntil closer p) (collectUntil closer q) :=
  .collect <| .get fun _ => .ite (.pure rfl) (.bind h fun _ => .pure rfl)

theorem withComma (closer : Kind) (h : Carries σ p q) :
    Carries σ (withComma closer p) (withComma closer q) :=
  .bind h fun _ => .get fun _ => .otherwise (.discard (carries_expect _)) (.pure rfl)

theorem commaSeparated (closer : Kind) (h : Carries σ p q) :
    Carries σ (commaSeparated closer p) (commaSeparated closer q) :=
  (h.withComma closer).collectUntil closer

theorem after (kind : Kind) (h : Carries σ p q) : Carries σ (after kind p) (after kind q) :=
  .bind (carries_accept kind) fun _ => .ite (.bind h fun _ => .pure rfl) (.pure rfl)

theorem sepBy1 (separator : Kind) (h : Carries σ p q) :
    Carries σ (sepBy1 separator p) (sepBy1 separator q) :=
  .bind h fun _ => .bind (h.after separator).collect fun _ => .pure rfl

theorem extendUpTo {step step' : α → Parser (Option α)}
    (h : ∀ a, Carries σ (step a) (step' (reword σ a))) (fuel : Nat) (a : α) :
    Carries σ (extendUpTo step fuel a) (extendUpTo step' fuel (reword σ a)) := by
  induction fuel generalizing a with
  | zero => exact .pure rfl
  | succ fuel ih =>
    refine .bind (h a) fun b => ?_
    cases b with
    | none => exact .pure rfl
    | some b => exact ih b

theorem extend {step step' : α → Parser (Option α)}
    (h : ∀ a, Carries σ (step a) (step' (reword σ a))) (a : α) :
    Carries σ (extend step a) (extend step' (reword σ a)) := by
  refine .get fun c => ?_
  rw [Cursor.remaining_reword]
  exact extendUpTo h _ a

end Carries

end Grammar
end TypeStrip
