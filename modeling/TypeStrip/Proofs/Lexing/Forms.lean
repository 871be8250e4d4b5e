import TypeStrip.Token.Stream
import TypeStrip.Proofs.Lexing.Strings
import TypeStrip.Proofs.Lexing.Numbers
import TypeStrip.Proofs.Lexing.Operators

/-!
What a text on one line is read as: the tokens without their places. A text is read from its front,
given what the text after its first token is read as.
-/
namespace TypeStrip.Token
open TypeStrip.Text TypeStrip.Number

structure Form where
  kind : Kind
  value : String
  newlineBefore : Bool := false
deriving DecidableEq

def form (t : Token) : Form := ⟨t.kind, t.value, t.newlineBefore⟩

def Form.end_ : Form := ⟨.eof, "", false⟩

def Form.of (spelling : String) : Form :=
  ⟨(operators.lookup spelling).getD (kindOfWord spelling), spelling, false⟩

theorem operators_lookup : ∀ o ∈ operators, operators.lookup o.1 = some o.2 := by decide +kernel

theorem isWord_operator : ∀ o ∈ operators, isWord o.1 = false := by decide +kernel

theorem Form.of_operator {spelling : String} {kind : Kind} (h : (spelling, kind) ∈ operators) :
    Form.of spelling = ⟨kind, spelling, false⟩ := by
  rw [Form.of, operators_lookup _ h]
  rfl

theorem Form.of_word {word : String} (h : isWord word = true) :
    Form.of word = ⟨kindOfWord word, word, false⟩ := by
  have hnone : operators.lookup word = none := List.lookup_eq_none_iff.2 fun o ho => by
    rw [bne_iff_ne]
    rintro rfl
    rw [isWord_operator o ho] at h
    exact absurd h (by decide)
  rw [Form.of, hnone]
  rfl

/-- A text is read as tokens of the given forms and the mark of the end, wherever it stands. -/
def Lexes (cs : List Char) (fs : List Form) : Prop :=
  ∀ file start, (tokensFrom file start cs).map form = fs ++ [.end_]

/-- The tokens of a text, given what comes after the blanks and comments at its front. -/
theorem tokensFrom_eq (file start : Nat) (cs : List Char) :
    tokensFrom file start cs =
      match gap .blank start false cs with
      | .openComment first last =>
        [⟨.error, ⟨first, last, file⟩, "Unterminated multi-line comment", false⟩,
          ⟨.eof, ⟨last, last, file⟩, "", false⟩]
      | .reached position newline [] => [⟨.eof, ⟨position, position, file⟩, "", newline⟩]
      | .reached position newline (c :: rest) =>
        let l := lexeme c rest
        let stop := position + byteCount l.source
        ⟨l.kind, ⟨position, stop, file⟩, l.value, newline⟩ ::
          tokensFrom file stop (rest.drop (l.source.length - 1)) := by
  rw [tokensFrom]
  split <;> simp_all

/-- A gap ends at what is neither a blank nor the start of a comment. -/
theorem gap_reached {c : Char} {cs : List Char} (hb : isBlank c = false)
    (hc : c = '/' → ∀ d ds, cs = d :: ds → d ≠ '/' ∧ d ≠ '*') (start : Nat) (newline : Bool) :
    gap .blank start newline (c :: cs) = .reached start newline (c :: cs) := by
  unfold gap
  split
  case h_6 e =>
    obtain ⟨hslash, e⟩ := List.cons.inj e
    exact absurd rfl (hc hslash _ _ e).1
  case h_7 e =>
    obtain ⟨hslash, e⟩ := List.cons.inj e
    exact absurd rfl (hc hslash _ _ e).2
  case h_8 e =>
    obtain ⟨rfl, rfl⟩ := List.cons.inj e
    simp [hb]
  all_goals contradiction

/-- A text that is one lexeme as a whole is one token. -/
theorem tokensFrom_whole {c : Char} {cs : List Char} (hb : isBlank c = false) (hc : c ≠ '/')
    (hl : (lexeme c cs).source = c :: cs) (file start : Nat) :
    let span : Span := ⟨start, start + byteCount (c :: cs), file⟩
    tokensFrom file start (c :: cs) =
      [⟨(lexeme c cs).kind, span, (lexeme c cs).value, false⟩, endOfText span] := by
  have hend (position : Nat) : tokensFrom file position [] =
      [⟨.eof, ⟨position, position, file⟩, "", false⟩] := by
    rw [tokensFrom_eq]
    rfl
  rw [tokensFrom_eq, gap_reached hb fun e => absurd e hc]
  simp only [hl, List.length_cons, Nat.add_sub_cancel, List.drop_length, hend]
  rfl

namespace Lexes

theorem nil : Lexes [] [] := by
  intro file start
  rw [tokensFrom_eq]
  rfl

/-- A blank between tokens is passed over. -/
theorem blank {cs : List Char} {fs : List Form} (h : Lexes cs fs) : Lexes (' ' :: cs) fs := by
  intro file start
  rw [← h file (start + 1), tokensFrom_eq, tokensFrom_eq file (start + 1)]
  rfl

/-- A text starts with a token if it starts with neither a blank nor a comment. -/
theorem token {c : Char} {cs rest : List Char} {kind : Kind} {value : String} {fs : List Form}
    (hb : isBlank c = false) (hc : c = '/' → ∀ d ds, cs ++ rest = d :: ds → d ≠ '/' ∧ d ≠ '*')
    (hl : lexeme c (cs ++ rest) = ⟨kind, value, c :: cs⟩) (h : Lexes rest fs) :
    Lexes (c :: cs ++ rest) (⟨kind, value, false⟩ :: fs) := by
  intro file start
  rw [List.cons_append, tokensFrom_eq, gap_reached hb hc]
  simp only [hl, List.length_cons, Nat.add_sub_cancel, List.drop_left, List.map_cons, h file]
  rfl

/-- A string in front of any text. -/
theorem string (s : String) {rest : List Char} {fs : List Form} (h : Lexes rest fs) :
    Lexes ((Text.quoted s).toList ++ rest) (⟨.string, s, false⟩ :: fs) := by
  have hq : (Text.quoted s).toList = '"' :: (s.toList.flatMap quotedChar ++ ['"']) := by
    simp [Text.quoted]
  have hl : lexeme '"' ((s.toList.flatMap quotedChar ++ ['"']) ++ rest) =
      ⟨.string, s, '"' :: (s.toList.flatMap quotedChar ++ ['"'])⟩ := by
    rw [← hq, List.append_assoc, ← stringLexeme_quoted s rest]
    rfl
  rw [hq]
  exact token (by decide) (fun e => absurd e (by decide)) hl h

/-- A word in front of what ends it. -/
theorem word {word : String} (hw : isWord word = true) {rest : List Char} {fs : List Form}
    (hrest : EndsWord rest) (h : Lexes rest fs) :
    Lexes (word.toList ++ rest) (.of word :: fs) := by
  have hall := forall_isWordPart hw
  rw [Form.of_word hw]
  unfold isWord at hw
  split at hw
  · exact absurd hw (by decide)
  · rename_i c cs hs
    have hstart := (Bool.and_eq_true_iff.1 hw).1
    have hl : lexeme c (cs ++ rest) = ⟨kindOfWord word, word, c :: cs⟩ := by
      rw [lexeme_word hstart, ← List.cons_append, ← hs, wordLexeme_append hall hrest]
    have hslash : c ≠ '/' := by
      rintro rfl
      exact absurd hstart (by decide)
    rw [hs]
    exact token (isBlank_of_isWordStart hstart) (fun e => absurd e hslash) hl h

/-- A number in front of what ends it. -/
theorem number {text : String} (ht : IsPlain text.toList) {rest : List Char} {fs : List Form}
    (hrest : EndsWord rest) (hdot : (∀ c ∈ text.toList, c.isDigit = true) → EndsNumber rest)
    (h : Lexes rest fs) : Lexes (text.toList ++ rest) (⟨.number, text, false⟩ :: fs) := by
  obtain ⟨c, cs, hs⟩ := List.exists_cons_of_ne_nil ht.ne_nil
  rw [hs] at ht hdot
  have htext : String.ofList (c :: cs) = text := by rw [← hs, String.ofList_toList]
  have hl := lexeme_plain ht hrest hdot
  rw [htext] at hl
  have hslash : c ≠ '/' := by
    rintro rfl
    exact absurd ht.isDigit_head (by decide)
  have hblank : isBlank c = false := Bool.eq_false_iff.2 fun hb => by
    have := isWordPart_of_isBlank hb
    rw [isWordPart_of_isDigit ht.isDigit_head] at this
    exact absurd this (by decide)
  rw [hs]
  exact token hblank (fun e => absurd e hslash) hl h

/-- An operator in front of what does not make it longer. -/
theorem operator {spelling : String} {kind : Kind} (hmem : (spelling, kind) ∈ operators)
    {rest : List Char} {fs : List Form} (hrest : EndsOperator spelling rest) (h : Lexes rest fs) :
    Lexes (spelling.toList ++ rest) (.of spelling :: fs) := by
  rw [Form.of_operator hmem]
  obtain ⟨c, cs, hs⟩ := List.exists_cons_of_ne_nil (operator_ne_nil _ hmem)
  have hb : isBlank c = false := ((operator_chars _ hmem).2 c (by simp [hs])).2
  have hslash : c = '/' → ∀ d ds, cs ++ rest = d :: ds → d ≠ '/' ∧ d ≠ '*' := by
    rintro rfl
    exact hrest.slash hmem hs
  rw [hs]
  exact token hb hslash (hs ▸ lexeme_operator hmem hs hrest) h

/-- An operator or a word in front of a blank. -/
theorem spaced {s : String} (hs : s ∈ operators.map Prod.fst ∨ isWord s = true)
    {rest : List Char} {fs : List Form} (h : Lexes rest fs) :
    Lexes (s.toList ++ ' ' :: rest) (.of s :: fs) := by
  rcases hs with hs | hw
  · obtain ⟨o, ho, rfl⟩ := List.mem_map.1 hs
    exact operator ho (endsOperator_cons (leavesAlone_blank o ho)) h.blank
  · exact word hw (endsWord_cons (isWordPart_closer ' ' (by decide))) h.blank

end Lexes

/-! ### What is read as a word -/

def Kind.isWord (k : Kind) : Bool := k == .identifier || k.isReserved

/-- The kinds of words, operators and delimiters, whose tokens have their spelling as value. -/
def Kind.isVerbatim (k : Kind) : Bool := k.isWord || operators.any fun o => o.2 == k

theorem isVerbatim_decimalLexeme (cs : List Char) : (decimalLexeme cs).kind.isVerbatim = false := by
  unfold decimalLexeme
  dsimp only
  split <;> rfl

theorem isVerbatim_numberLexeme (cs : List Char) : (numberLexeme cs).kind.isVerbatim = false := by
  unfold numberLexeme
  split
  · split
    · rfl
    · exact isVerbatim_decimalLexeme _
  · exact isVerbatim_decimalLexeme _

theorem isVerbatim_stringLexeme (quote : Char) (cs : List Char) :
    (stringLexeme quote cs).kind.isVerbatim = false := by
  unfold stringLexeme
  split <;> rfl

theorem isVerbatim_templateLexeme (cs : List Char) :
    (templateLexeme cs).kind.isVerbatim = false := by
  unfold templateLexeme
  split <;> rfl

/-- A lexeme is of a kind whose value may differ from its spelling, or it is the word or the
operator at the front. -/
theorem lexeme_cases (c : Char) (cs : List Char) :
    (lexeme c cs).kind.isVerbatim = false ∨
      (isWordStart c = true ∧ lexeme c cs = wordLexeme (c :: cs)) ∨
      operator? (c :: cs) = some (lexeme c cs) := by
  unfold lexeme
  split
  · exact .inl (isVerbatim_stringLexeme c cs)
  · split
    · exact .inl (isVerbatim_templateLexeme cs)
    · split
      · exact .inl (isVerbatim_numberLexeme _)
      · split
        · rename_i hstart
          exact .inr (.inl ⟨hstart, rfl⟩)
        · split
          · exact .inl (show Kind.number.isVerbatim = false from rfl)
          · cases operator? (c :: cs) with
            | none => exact .inl (show Kind.error.isVerbatim = false from rfl)
            | some l => exact .inr (.inr rfl)

theorem isWord_operators : ∀ o ∈ operators, o.2.isWord = false := by decide +kernel

theorem isWord_operator? {cs : List Char} {l : Lexeme} (h : operator? cs = some l) :
    l.kind.isWord = false := by
  obtain ⟨o, ho, hl⟩ := List.exists_of_findSome?_eq_some h
  dsimp only at hl
  split at hl
  · cases hl
    exact isWord_operators o ho
  · cases hl

/-- Only what starts like a word is read as one. -/
theorem isWordStart_of_lexeme {c : Char} {cs : List Char} (h : (lexeme c cs).kind.isWord = true) :
    isWordStart c = true := by
  rcases lexeme_cases c cs with hother | ⟨hstart, -⟩ | hoperator
  · rw [Kind.isVerbatim, h] at hother
    cases hother
  · exact hstart
  · rw [isWord_operator? hoperator] at h
    cases h

/-- What is read as a word is a word of its kind. -/
theorem isWord_lexeme {c : Char} {cs : List Char} (h : (lexeme c cs).kind.isWord = true) :
    isWord (lexeme c cs).value = true ∧ (lexeme c cs).kind = kindOfWord (lexeme c cs).value := by
  have hstart := isWordStart_of_lexeme h
  have hparts : (cs.takeWhile isWordPart).all isWordPart = true := List.all_takeWhile
  rw [lexeme_word hstart]
  refine ⟨?_, rfl⟩
  rw [wordLexeme, List.takeWhile_cons_of_pos (isWordPart_of_isWordStart hstart), isWord,
    String.toList_ofList]
  exact Bool.and_eq_true_iff.2 ⟨hstart, hparts⟩

theorem isWord_kindOfWord (word : String) : (kindOfWord word).isWord = true := by
  rcases kindOfWord_cases word with hk | hk
  · rw [hk]
    rfl
  · exact Bool.or_eq_true_iff.2 (.inr hk)

theorem Form.isWord_kind {word : String} (h : isWord word = true) :
    (Form.of word).kind.isWord = true := by
  rw [Form.of_word h]
  exact isWord_kindOfWord word

/-- A word is none of the other tokens. -/
theorem Form.kind_ne_of_isWord {word : String} (h : isWord word = true) {k : Kind}
    (hk : k.isWord = false) : (Form.of word).kind ≠ k := by
  rintro rfl
  rw [Form.isWord_kind h] at hk
  cases hk

theorem IsIdentifier.kind_of {name : String} (h : IsIdentifier name) :
    (Form.of name).kind = .identifier := by
  rw [Form.of_word h.word]
  exact h.kind

/-- The words are the texts that are read as one token, an identifier or a reserved word, with the
text as its value. -/
theorem isWord_iff_lexes {word : String} :
    isWord word = true ↔ ∃ k : Kind, k.isWord = true ∧ Lexes word.toList [⟨k, word, false⟩] := by
  constructor
  · intro h
    have hl := Lexes.nil.word h endsWord_nil
    rw [List.append_nil, Form.of_word h] at hl
    exact ⟨kindOfWord word, isWord_kindOfWord word, hl⟩
  · rintro ⟨k, hk, h⟩
    have h := h 0 0
    rw [tokensFrom_eq] at h
    split at h
    · obtain ⟨h, -⟩ := List.cons.inj h
      cases h
      exact absurd hk (show ¬Kind.error.isWord = true by decide)
    · simp at h
    · rename_i c cs _
      obtain ⟨h, -⟩ := List.cons.inj h
      have hkind : (lexeme c cs).kind = k := congrArg Form.kind h
      have hvalue : (lexeme c cs).value = word := congrArg Form.value h
      exact hvalue ▸ (isWord_lexeme (hkind ▸ hk)).1

/-- The identifiers are the texts that are read as one identifier. -/
theorem isIdentifier_iff_lexes {name : String} :
    IsIdentifier name ↔ Lexes name.toList [⟨.identifier, name, false⟩] := by
  constructor
  · intro h
    have hl := Lexes.nil.word h.word endsWord_nil
    rwa [List.append_nil, Form.of_word h.word, h.kind] at hl
  · intro h
    have hw := isWord_iff_lexes.2 ⟨.identifier, rfl, h⟩
    have hl := Lexes.nil.word hw endsWord_nil
    rw [List.append_nil, Form.of_word hw] at hl
    have hforms := (hl 0 0).symm.trans (h 0 0)
    exact isIdentifier_of_kindOfWord hw (congrArg Form.kind (List.cons.inj hforms).1)

end TypeStrip.Token
