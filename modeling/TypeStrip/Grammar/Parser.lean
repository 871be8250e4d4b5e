import TypeStrip.Grammar.Tape

/-! Parsers: the moves that they are made of, and how they are put together. -/
namespace TypeStrip.Grammar
open TypeStrip.Token (Kind)

abbrev Outcome (α : Type) := EStateM.Result ParseError Tape α

def Outcome.tape : Outcome α → Tape
  | .ok _ t | .error _ t => t

def Outcome.onTape (f : Tape → Tape) : Outcome α → Outcome α
  | .ok a t => .ok a (f t)
  | .error e t => .error e (f t)

@[simp] theorem Outcome.tape_onTape (f : Tape → Tape) (r : Outcome α) :
    (r.onTape f).tape = f r.tape := by
  cases r <;> rfl

/-- A parser moves along a tape and gives a value, or complains. The place of the complaint is kept
for going on after it. -/
structure Parser (α : Type) where
  run : Tape → Outcome α
  reaches : ∀ t : Tape, t.Reaches (run t).tape

namespace Parser

instance : CoeFun (Parser α) fun _ => Tape → Outcome α := ⟨run⟩

@[inline] protected def pure (a : α) : Parser α := ⟨fun t => .ok a t, fun _ => .refl⟩

/-- One parser after the other. After a complaint the second one is left out. -/
@[inline] protected def bind (p : Parser α) (f : α → Parser β) : Parser β where
  run t :=
    match p t with
    | .ok a t' => f a t'
    | .error e t' => .error e t'
  reaches t := by
    have hp := p.reaches t
    split
    · rename_i a t' h
      rw [h] at hp
      exact hp.trans ((f a).reaches t')
    · rename_i h
      rw [h] at hp
      exact hp

instance : Monad Parser := { pure := Parser.pure, bind := Parser.bind }

theorem bind_run (p : Parser α) (f : α → Parser β) (t : Tape) :
    (p >>= f) t = match p t with
      | .ok a t' => f a t'
      | .error e t' => .error e t' := rfl

theorem bind_eq_ok {p : Parser α} {f : α → Parser β} {t t' : Tape} {b : β} :
    (p >>= f) t = .ok b t' ↔ ∃ a u, p t = .ok a u ∧ f a u = .ok b t' := by
  rw [bind_run]
  cases p t with
  | ok a u => simp [and_assoc]
  | error e u => simp

theorem reaches_of_ok {p : Parser α} {t t' : Tape} {a : α} (h : p t = .ok a t') : t.Reaches t' := by
  have hreaches := p.reaches t
  rwa [h] at hreaches

theorem reaches_of_error {p : Parser α} {t t' : Tape} {e : ParseError} (h : p t = .error e t') :
    t.Reaches t' := by
  have hreaches := p.reaches t
  rwa [h] at hreaches

/-- Whatever a parser does can be undone. -/
theorem rewindsTo (p : Parser α) (t : Tape) : (p t).tape.RewindsTo t := (p.reaches t).rewindsTo

theorem ext {p q : Parser α} (h : ∀ t, p t = q t) : p = q := by
  cases p
  cases q
  congr
  exact funext h

instance : LawfulMonad Parser := .mk' Parser
  (fun p => ext fun t => by
    show (p >>= pure) t = _
    rw [bind_run]
    cases p t <;> rfl)
  (fun _ _ => rfl)
  (fun p f g => ext fun t => by
    rw [bind_run, bind_run, bind_run]
    cases p t <;> rfl)

end Parser

def get : Parser Cursor := ⟨fun t => .ok t.cursor t, fun _ => .refl⟩

def throw (e : ParseError) : Parser α := ⟨fun t => .error e t, fun _ => .refl⟩

def skip : Parser Unit := ⟨fun t => .ok () t.advance, fun _ => .advance .refl⟩

def inAllowed : Parser Bool := ⟨fun t => .ok (!t.noIn) t, fun _ => .refl⟩

/-- Complains about the current token, which may itself be malformed. -/
def complain (complaint : Complaint) : Parser α := do
  let t := (← get).current
  throw ⟨if t.kind = .error then .malformedToken t.value else complaint, t.span⟩

/-- Complains about an expectation that the kind of the current token does not meet. -/
def complainFound (complaint : Kind → Complaint) : Parser α := do
  complain (complaint (← get).current.kind)

def take : Parser Token := do
  skip
  return (← get).previous

def accept (kind : Kind) : Parser Bool := do
  let found := (← get).at_ kind
  if found then skip
  return found

def acceptWord (word : String) : Parser Bool := do
  let found := (← get).atWord word
  if found then skip
  return found

def expect (kind : Kind) : Parser Token := do
  if (← get).at_ kind then take else complainFound (.expected kind)

def expectWord (word : String) : Parser Unit := do
  if (← get).atWord word then skip else complainFound (.expectedWord word)

def here : Parser Span := return (← get).current.span

def since (start : Span) : Parser Span := return start.merge (← get).previous.span

/-- Moves past one `>`, which may be the start of a longer operator: then the rest of that
operator becomes the current token. -/
def closeAngle : Parser Unit where
  run t :=
    if t.current.kind = .gt then skip t
    else
      match afterAngle? t.current.kind with
      | some (kind, value) => .ok () (t.splitAngle kind value)
      | none => complainFound .expectedCloseAngle t
  reaches t := by
    split
    · exact skip.reaches t
    · split
      · exact .splitAngle .refl (by assumption)
      · exact (complainFound .expectedCloseAngle : Parser Unit).reaches t

/-- The end of a statement: a semicolon, or what may stand in its place, which is a closing
brace, the end of the text, or a line break. -/
def endStatement : Parser Unit := do
  let c ← get
  if c.at_ .semicolon then skip
  else if c.at_ .rBrace || c.atEnd || c.current.newlineBefore then return
  else complainFound .expectedSemicolon

/-- Tries a parser. If it complains the tape is rewound. -/
def attempt (p : Parser α) : Parser (Option α) where
  run t :=
    match p t with
    | .ok a t' => .ok (some a) t'
    | .error _ t' => .ok none (t'.restore t.mark)
  reaches t := by
    have hp := p.reaches t
    split
    · rename_i h
      rw [h] at hp
      exact hp
    · rename_i h
      rw [h] at hp
      exact (congrArg t.Reaches hp.rewindsTo.restore_eq).mpr .refl

theorem attempt_eq_some {p : Parser α} {t t' : Tape} {a : α} (h : p t = .ok a t') :
    attempt p t = .ok (some a) t' := by
  show (match p t with | .ok a t' => _ | .error _ t' => _) = _
  rw [h]

/-- A parser that complains leaves nothing behind where it is only tried. -/
theorem attempt_eq_none {p : Parser α} {t t' : Tape} {e : ParseError} (h : p t = .error e t') :
    attempt p t = .ok none t := by
  have hrewinds := p.rewindsTo t
  show (match p t with | .ok a t' => _ | .error _ t' => _) = _
  rw [h] at hrewinds ⊢
  exact congrArg (EStateM.Result.ok none) hrewinds.restore_eq

def nested (p : Parser α) : Parser α where
  run t :=
    if t.depth < maxNesting then
      (p { t with depth := t.depth + 1 }).onTape fun t' => { t' with depth := t'.depth - 1 }
    else complain .tooDeep t
  reaches t := by
    have hp := p.reaches { t with depth := t.depth + 1 }
    split
    · rw [Outcome.tape_onTape]
      exact hp.tracking id (· - 1)
    · exact (complain .tooDeep : Parser α).reaches t

theorem nested_eq {p : Parser α} {t : Tape} (h : t.depth < maxNesting) : nested p t =
    (p { t with depth := t.depth + 1 }).onTape fun t' => { t' with depth := t'.depth - 1 } :=
  if_pos h

theorem nested_eq_tooDeep {p : Parser α} {t : Tape} (h : ¬t.depth < maxNesting) :
    nested p t = complain .tooDeep t :=
  if_neg h

def withIn (allowed : Bool) (p : Parser α) : Parser α where
  run t := (p { t with noIn := !allowed }).onTape fun t' => { t' with noIn := t.noIn }
  reaches t := by
    have hp := p.reaches { t with noIn := !allowed }
    rw [Outcome.tape_onTape]
    exact hp.tracking (fun _ => t.noIn) id

/-- Runs a parser as long as it gives values, at most `fuel` times. -/
def collectUpTo (p : Parser (Option α)) : Nat → List α → Parser (List α)
  | 0, found => return found.reverse
  | fuel + 1, found => do
    match ← p with
    | some a => collectUpTo p fuel (a :: found)
    | none => return found.reverse

/-- Runs a parser as long as it gives values. It has to move on whenever it does, so there are
no more values than tokens. -/
def collect (p : Parser (Option α)) : Parser (List α) := do
  collectUpTo p (← get).remaining []

def untilStep (closer : Kind) (p : Parser α) : Parser (Option α) := do
  let c ← get
  if c.at_ closer || c.atEnd then return none else return some (← p)

def collectUntil (closer : Kind) (p : Parser α) : Parser (List α) := collect (untilStep closer p)

/-- A value and the comma after it, which may only be left out in front of a token of the given
kind. -/
def withComma (closer : Kind) (p : Parser α) : Parser α := do
  let a ← p
  unless (← get).at_ closer do discard <| expect .comma
  return a

/-- Values separated by commas up to a token of the given kind, which is not consumed. A comma
before the closing token is allowed. -/
def commaSeparated (closer : Kind) (p : Parser α) : Parser (List α) :=
  collectUntil closer (withComma closer p)

def after (kind : Kind) (p : Parser α) : Parser (Option α) := do
  if ← accept kind then return some (← p) else return none

def sepBy1 (separator : Kind) (p : Parser α) : Parser (List α) := do
  let first ← p
  let rest ← collect (after separator p)
  return first :: rest

def extendUpTo (step : α → Parser (Option α)) : Nat → α → Parser α
  | 0, a => return a
  | fuel + 1, a => do
    match ← step a with
    | some b => extendUpTo step fuel b
    | none => return a

/-- Repeats a transformation of a value as long as it applies. It has to move on whenever it
does. -/
def extend (step : α → Parser (Option α)) (a : α) : Parser α := do
  extendUpTo step (← get).remaining a

end TypeStrip.Grammar
