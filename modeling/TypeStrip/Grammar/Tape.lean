import TypeStrip.Grammar.Cursor

/-!
The state of a parser: the tokens with a place among them, a journal of the tokens that were
rewritten, and what the grammar keeps track of. A parser makes two moves, and both can be undone.
-/
namespace TypeStrip.Grammar
open TypeStrip.Token (Kind)

/-- The tokens before the place, the last one first, the one at it and those after it. A token that
is rewritten is kept with its index, the last one first. In the head of a loop the operator `in` is
not allowed. The depth counts the levels of the grammar that are entered. -/
structure Tape where
  passed : List Token
  current : Token
  following : List Token
  rewrites : List (Nat × Token) := []
  noIn : Bool := false
  depth : Nat := 0

/-- What it takes to come back to a place. -/
structure Mark where
  position : Nat
  rewrites : Nat
  noIn : Bool

/-- The kind and spelling of what is left of an operator after its first `>`. -/
def afterAngle? : Kind → Option (Kind × String)
  | .gtGt => some (.gt, ">")
  | .gtGtGt => some (.gtGt, ">>")
  | .gtEq => some (.eq, "=")
  | .gtGtEq => some (.gtEq, ">=")
  | .gtGtGtEq => some (.gtGtEq, ">>=")
  | _ => none

def undo (rewrites : List (Nat × Token)) (tokens : List Token) : List Token :=
  rewrites.foldl (fun tokens (index, token) => tokens.set index token) tokens

namespace Tape

/-- The place before the first token. A stream without an end mark gets one. -/
def ofTokens (tokens : List Token) : Tape :=
  let last := (tokens.getLast?.map (·.span)).getD ⟨0, 0, 0⟩
  let ended :=
    if tokens.getLast?.any (·.kind == .eof) then tokens else tokens ++ [Token.endOfText last]
  match ended with
  | first :: rest => { passed := [], current := first, following := rest }
  | [] => { passed := [], current := Token.endOfText last, following := [] }

def tokens (t : Tape) : List Token := t.passed.reverse ++ t.current :: t.following

def position (t : Tape) : Nat := t.passed.length

def cursor (t : Tape) : Cursor := ⟨t.passed.head?.getD t.current, t.current, t.following⟩

/-- The tape at the next token, unless nothing is left. -/
def advance (t : Tape) : Tape :=
  match t.cursor.atEnd, t.following with
  | false, next :: rest => { t with passed := t.current :: t.passed, current := next, following := rest }
  | _, _ => t

/-- The tape with the rest of an operator in place of the operator, whose first character is taken
away. -/
def splitAngle (t : Tape) (kind : Kind) (value : String) : Tape :=
  let span := t.current.span
  { t with
    current := ⟨kind, { span with start := span.start + 1 }, value, false⟩
    rewrites := (t.position, t.current) :: t.rewrites }

def mark (t : Tape) : Mark := ⟨t.position, t.rewrites.length, t.noIn⟩

def goTo (t : Tape) (tokens : List Token) (position : Nat) : Tape :=
  match tokens.drop position with
  | [] => t
  | current :: following => { t with passed := (tokens.take position).reverse, current, following }

/-- The tape back at a mark. The tokens that were rewritten after it are put back. -/
def restore (t : Tape) (m : Mark) : Tape :=
  let later := t.rewrites.length - m.rewrites
  { t.goTo (undo (t.rewrites.take later) t.tokens) m.position with
    rewrites := t.rewrites.drop later
    noIn := m.noIn }

/-! ### Moves -/

/-- The tapes that moves lead to: to the next token, or to the rest of an operator. -/
inductive Reaches (t : Tape) : Tape → Prop where
  | refl : Reaches t t
  | advance {t' : Tape} (h : Reaches t t') : Reaches t t'.advance
  | splitAngle {t' : Tape} {kind : Kind} {value : String} (h : Reaches t t')
    (ha : afterAngle? t'.current.kind = some (kind, value)) : Reaches t (t'.splitAngle kind value)

variable {t t' u : Tape}

theorem Reaches.trans (h : t.Reaches t') (h' : t'.Reaches u) : t.Reaches u := by
  induction h' with
  | refl => exact h
  | advance _ ih => exact ih.advance
  | splitAngle _ ha ih => exact ih.splitAngle ha

def tracking (noIn : Bool → Bool) (depth : Nat → Nat) (t : Tape) : Tape :=
  { t with noIn := noIn t.noIn, depth := depth t.depth }

/-- Moves do not depend on what is kept track of. -/
theorem Reaches.tracking (h : t.Reaches t') (noIn : Bool → Bool) (depth : Nat → Nat) :
    (t.tracking noIn depth).Reaches (t'.tracking noIn depth) := by
  induction h with
  | refl => exact .refl
  | @advance t' _ ih =>
    have hadvance : t'.advance.tracking noIn depth = (t'.tracking noIn depth).advance := by
      unfold Tape.advance cursor Tape.tracking
      dsimp only
      split <;> rfl
    rw [hadvance]
    exact ih.advance
  | splitAngle _ ha ih => exact ih.splitAngle ha

/-! ### Undoing -/

/-- What moves have made of a tape: it has gone on, what is kept track of is as before, and undoing
what they have rewritten gives the tokens of before. -/
structure RewindsTo (t' t : Tape) : Prop where
  depth : t'.depth = t.depth
  noIn : t'.noIn = t.noIn
  position : t.position ≤ t'.position
  length : t'.tokens.length = t.tokens.length
  before : t'.tokens.take t.position = t.tokens.take t.position
  rewrites : ∃ later, t'.rewrites = later ++ t.rewrites ∧ undo later t'.tokens = t.tokens

@[simp] theorem depth_advance : t.advance.depth = t.depth := by
  unfold advance
  split <;> rfl

@[simp] theorem noIn_advance : t.advance.noIn = t.noIn := by
  unfold advance
  split <;> rfl

@[simp] theorem rewrites_advance : t.advance.rewrites = t.rewrites := by
  unfold advance
  split <;> rfl

@[simp] theorem tokens_advance : t.advance.tokens = t.tokens := by
  unfold advance
  split
  · rename_i h
    simp [tokens, h]
  · rfl

theorem position_le_advance : t.position ≤ t.advance.position := by
  unfold advance
  split
  · exact Nat.le_succ _
  · exact Nat.le_refl _

theorem tokens_splitAngle (kind : Kind) (value : String) :
    (t.splitAngle kind value).tokens =
      t.tokens.set t.position (t.splitAngle kind value).current := by
  simp [splitAngle, tokens, position]

theorem undo_append (later former : List (Nat × Token)) (tokens : List Token) :
    undo (later ++ former) tokens = undo former (undo later tokens) :=
  List.foldl_append ..

theorem goTo_eq (t u : Tape) : t.goTo u.tokens u.position =
    { t with passed := u.passed, current := u.current, following := u.following } := by
  have hlength : u.passed.reverse.length = u.position := List.length_reverse
  have hdrop : u.tokens.drop u.position = u.current :: u.following := List.drop_left' hlength
  have htake : u.tokens.take u.position = u.passed.reverse := List.take_left' hlength
  rw [goTo, hdrop]
  simp only [htake, List.reverse_reverse]

namespace RewindsTo

theorem refl (t : Tape) : t.RewindsTo t := ⟨rfl, rfl, Nat.le_refl _, rfl, rfl, [], rfl, rfl⟩

theorem trans (h : u.RewindsTo t') (h' : t'.RewindsTo t) : u.RewindsTo t where
  depth := h.depth.trans h'.depth
  noIn := h.noIn.trans h'.noIn
  position := Nat.le_trans h'.position h.position
  length := h.length.trans h'.length
  before := by
    have hmin : min t.position t'.position = t.position := Nat.min_eq_left h'.position
    rw [← h'.before, ← hmin, ← List.take_take, ← List.take_take, h.before]
  rewrites := by
    obtain ⟨later, hl, hul⟩ := h.rewrites
    obtain ⟨former, hf, huf⟩ := h'.rewrites
    exact ⟨later ++ former, by rw [hl, hf, List.append_assoc], by rw [undo_append, hul, huf]⟩

theorem advance (t : Tape) : t.advance.RewindsTo t where
  depth := depth_advance
  noIn := noIn_advance
  position := position_le_advance
  length := by rw [tokens_advance]
  before := by rw [tokens_advance]
  rewrites := ⟨[], rewrites_advance, tokens_advance⟩

theorem splitAngle (t : Tape) (kind : Kind) (value : String) :
    (t.splitAngle kind value).RewindsTo t where
  depth := rfl
  noIn := rfl
  position := Nat.le_refl _
  length := by rw [tokens_splitAngle, List.length_set]
  before := by rw [tokens_splitAngle, List.take_set_of_le (Nat.le_refl _)]
  rewrites := by
    refine ⟨[(t.position, t.current)], rfl, ?_⟩
    show (Tape.tokens _).set _ _ = _
    rw [tokens_splitAngle, List.set_set]
    simp [tokens, Tape.position]

/-- Going back to the mark of a tape gives the tape. -/
theorem restore_eq (h : t'.RewindsTo t) : t'.restore t.mark = t := by
  obtain ⟨later, hl, hu⟩ := h.rewrites
  have hlater : t'.rewrites.length - t.mark.rewrites = later.length := by
    rw [hl, List.length_append]
    exact Nat.add_sub_cancel ..
  rw [restore, hlater, hl, List.take_left, List.drop_left, hu]
  show ({ t'.goTo t.tokens t.position with rewrites := _, noIn := _ } : Tape) = t
  rw [goTo_eq]
  exact congrArg (fun depth => { t with depth }) h.depth

end RewindsTo

theorem Reaches.rewindsTo (h : t.Reaches t') : t'.RewindsTo t := by
  induction h with
  | refl => exact .refl t
  | advance _ ih => exact (RewindsTo.advance _).trans ih
  | splitAngle _ _ ih => exact (RewindsTo.splitAngle _ _ _).trans ih

end Tape

end TypeStrip.Grammar
