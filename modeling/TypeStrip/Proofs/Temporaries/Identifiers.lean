import TypeStrip.Proofs.Lexing.Forms
import TypeStrip.Proofs.Temporaries.Numbering

/-!
Temporaries as tokens. The name of a temporary is one identifier, unless the file that it is named
after starts with a numeral that is neither a letter nor a digit from 0 to 9. Such a character is
kept because it may go on a word, but no word may start with it.
-/
namespace TypeStrip.Text

variable {c : Char}

theorem isWordPart_underscore : isWordPart '_' = true := rfl

/-- A numeral that is neither a letter nor a digit from 0 to 9, like a digit of another script. -/
def isForeignNumeral (c : Char) : Bool := isNumeric c && !isLetter c && !c.isDigit

/-- The foreign numerals are the parts of words, digits apart, that no word starts with. -/
theorem isForeignNumeral_iff : isForeignNumeral c = true ↔
    isWordPart c = true ∧ isWordStart c = false ∧ c.isDigit = false := by
  simp only [isForeignNumeral, Bool.and_eq_true, Bool.not_eq_true']
  constructor
  · rintro ⟨⟨hnumeric, hletter⟩, hdigit⟩
    have hunderscore : c ≠ '_' := by
      rintro rfl
      exact absurd hnumeric (by decide)
    have hdollar : c ≠ '$' := by
      rintro rfl
      exact absurd hnumeric (by decide)
    simp [isWordPart, isWordStart, hnumeric, hletter, hdigit, hunderscore, hdollar]
  · rintro ⟨hpart, hstart, hdigit⟩
    simp only [isWordStart, Bool.or_eq_false_iff] at hstart
    simp only [isWordPart, hstart, Bool.false_or, Bool.or_false] at hpart
    exact ⟨⟨hpart, hstart.1.1⟩, hdigit⟩

theorem isWordStart_eq (hpart : isWordPart c = true) (hdigit : c.isDigit = false) :
    isWordStart c = !isForeignNumeral c := by
  cases hstart : isWordStart c with
  | false => rw [isForeignNumeral_iff.2 ⟨hpart, hstart, hdigit⟩, Bool.not_true]
  | true =>
    have hforeign : isForeignNumeral c = false := by
      refine Bool.eq_false_iff.2 fun h => ?_
      rw [(isForeignNumeral_iff.1 h).2.1] at hstart
      cases hstart
    rw [hforeign, Bool.not_false]

end TypeStrip.Text

namespace TypeStrip.Token
open TypeStrip.Text

/-! ### Words and numerals as tokens -/

theorem isWordPart_operators :
    ∀ o ∈ operators, ∃ c cs, o.1.toList = c :: cs ∧ isWordPart c = false := by
  have hall : (operators.all fun o => o.1.toList.head?.any fun c => !isWordPart c) = true := by
    decide
  intro o ho
  have hfirst := List.all_eq_true.1 hall o ho
  cases hspelling : o.1.toList with
  | nil =>
    rw [hspelling] at hfirst
    cases hfirst
  | cons c cs =>
    rw [hspelling] at hfirst
    exact ⟨c, cs, rfl, by simpa using hfirst⟩

theorem operator?_of_isWordPart {c : Char} (h : isWordPart c = true) (cs : List Char) :
    operator? (c :: cs) = none := by
  refine List.findSome?_eq_none_iff.2 fun o ho => ?_
  obtain ⟨d, ds, hspelling, hpart⟩ := isWordPart_operators o ho
  have hne : (d == c) = false := by
    refine beq_eq_false_iff_ne.2 ?_
    rintro rfl
    rw [h] at hpart
    cases hpart
  simp [hspelling, List.isPrefixOf, hne]

theorem isWordPart_slash : isWordPart '/' = false := rfl

/-- A foreign numeral at the front is an error of its own. -/
theorem lexeme_foreignNumeral {c : Char} (h : isForeignNumeral c = true) (cs : List Char) :
    lexeme c cs = ⟨.error, "Unexpected character: " ++ String.singleton c, [c]⟩ := by
  obtain ⟨hpart, hstart, hdigit⟩ := isForeignNumeral_iff.1 h
  have hne {d : Char} (hd : isWordPart d = false) : c ≠ d := by
    rintro rfl
    rw [hpart] at hd
    cases hd
  have hquote : ¬(c = '"' ∨ c = '\'') := not_or.2 ⟨hne rfl, hne rfl⟩
  have hpoint : ¬(c = '.' ∧ cs.head?.any Char.isDigit) := fun hc => hne rfl hc.1
  rw [lexeme, if_neg hquote, if_neg (hne rfl), hdigit, if_neg (by decide), hstart,
    if_neg (by decide), if_neg hpoint, operator?_of_isWordPart hpart, Option.getD_none]

theorem gap_of_isWordPart {c : Char} (h : isWordPart c = true) (start : Nat) (cs : List Char) :
    gap .blank start false (c :: cs) = .reached start false (c :: cs) := by
  have hblank : isBlank c = false := by
    refine Bool.eq_false_iff.2 fun hb => ?_
    rw [isWordPart_of_isBlank hb] at h
    cases h
  refine gap_reached hblank (fun hslash => ?_) start false
  rw [hslash, isWordPart_slash] at h
  cases h

theorem tokensFrom_foreignNumeral {c : Char} (h : isForeignNumeral c = true)
    (file start : Nat) (cs : List Char) :
    tokensFrom file start (c :: cs) =
      ⟨.error, ⟨start, start + c.utf8Size, file⟩,
          "Unexpected character: " ++ String.singleton c, false⟩ ::
        tokensFrom file (start + c.utf8Size) cs := by
  rw [tokensFrom_eq, gap_of_isWordPart (isForeignNumeral_iff.1 h).1]
  simp only [lexeme_foreignNumeral h]
  rfl

/-- An identifier alone is one token. -/
theorem tokenize_identifier {name : String} (h : IsIdentifier name) (file start : Nat) :
    let span : Span := ⟨start, start + byteCount name.toList, file⟩
    tokenize name file start = [⟨.identifier, span, name, false⟩, endOfText span] := by
  have hparts := forall_isWordPart h.word
  have hread := wordLexeme_append hparts endsWord_nil
  have hword := h.word
  unfold isWord at hword
  split at hword
  · cases hword
  · rename_i c cs hname
    obtain ⟨hstart, -⟩ := Bool.and_eq_true_iff.1 hword
    rw [List.append_nil, h.kind, hname, ← lexeme_word hstart] at hread
    have hslash : c ≠ '/' := by
      rintro rfl
      exact absurd hstart (by decide)
    have hsource : (lexeme c cs).source = c :: cs := by rw [hread]
    have hwhole := tokensFrom_whole (isBlank_of_isWordStart hstart) hslash hsource file start
    rw [hread] at hwhole
    rw [tokenize, hname]
    exact hwhole

end TypeStrip.Token

namespace TypeStrip.Lowering
open TypeStrip.Text TypeStrip.Token

/-! ### Temporaries -/

def startsForeign (specifier : String) : Bool :=
  (stem (lastSegment specifier.toList)).head?.any isForeignNumeral

theorem isWordPart_replaced (c : Char) : isWordPart (if isWordPart c then c else '_') = true := by
  split
  · assumption
  · exact isWordPart_underscore

theorem isForeignNumeral_replaced (c : Char) :
    isForeignNumeral (if isWordPart c then c else '_') = isForeignNumeral c := by
  split
  · rfl
  · next hpart =>
    have hforeign : isForeignNumeral c = false :=
      Bool.eq_false_iff.2 fun h => hpart (isForeignNumeral_iff.1 h).1
    rw [hforeign]
    rfl

/-- What temporaries are named after has parts of words only. At its front is no digit, and a
foreign numeral only if the file name starts with one. -/
theorem exists_toList_temporaryBase (specifier : String) :
    ∃ c cs, (temporaryBase specifier).toList = c :: cs ∧ (∀ d ∈ c :: cs, isWordPart d = true) ∧
      c.isDigit = false ∧ isForeignNumeral c = startsForeign specifier := by
  unfold temporaryBase startsForeign
  cases stem (lastSegment specifier.toList) with
  | nil => exact ⟨'_', [], rfl, List.forall_mem_singleton.2 isWordPart_underscore, rfl, rfl⟩
  | cons first rest =>
    have hparts : ∀ d ∈ (first :: rest).map fun c => if isWordPart c then c else '_',
        isWordPart d = true := by
      intro d hd
      obtain ⟨c, -, rfl⟩ := List.mem_map.1 hd
      exact isWordPart_replaced c
    have hforeign := isForeignNumeral_replaced first
    simp only [List.map_cons, String.toList_ofList, List.head?_cons, Option.any_some] at hparts ⊢
    generalize (if isWordPart first then first else '_') = c at hparts hforeign ⊢
    rw [← hforeign]
    cases hdigit : c.isDigit with
    | true =>
      have hnone : isForeignNumeral c = false := by simp [isForeignNumeral, hdigit]
      rw [hnone]
      exact ⟨'_', _, rfl, List.forall_mem_cons.2 ⟨isWordPart_underscore, hparts⟩, rfl, rfl⟩
    | false => exact ⟨c, _, rfl, hparts, hdigit, rfl⟩

/-- The underscore keeps the name of a temporary apart from all reserved words. -/
theorem ofWord?_temporaryName (base : String) (number : Nat) :
    Kind.ofWord? (temporaryName base number) = none := by
  have hwords : ∀ o ∈ reservedWords, '_' ∉ o.1.toList := by decide
  refine List.lookup_eq_none_iff.2 fun o ho => bne_iff_ne.2 fun heq => hwords o ho ?_
  simp [← heq, temporaryName]

/-- A temporary is read as one identifier that covers its name, unless the file name that it is
named after starts with a foreign numeral. In that case its first character is read as an error. -/
theorem tokenize_temporary (specifier : String) (number file start : Nat) :
    let name := temporaryName (temporaryBase specifier) number
    let span : Span := ⟨start, start + byteCount name.toList, file⟩
    (startsForeign specifier = false →
      tokenize name file start = [⟨.identifier, span, name, false⟩, endOfText span]) ∧
    (startsForeign specifier = true → ∃ c cs, name.toList = c :: cs ∧
      tokenize name file start =
        ⟨.error, ⟨start, start + c.utf8Size, file⟩,
            "Unexpected character: " ++ String.singleton c, false⟩ ::
          tokensFrom file (start + c.utf8Size) cs) := by
  intro name span
  obtain ⟨c, cs, hbase, hparts, hdigit, hforeign⟩ := exists_toList_temporaryBase specifier
  obtain ⟨hc, hcs⟩ := List.forall_mem_cons.1 hparts
  have hname : name.toList = c :: (cs ++ '_' :: (toString number).toList) := by
    simp [name, temporaryName, hbase]
  constructor
  · intro h
    have hword : isWord name = true := by
      rw [isWord, hname]
      refine Bool.and_eq_true_iff.2 ⟨?_, List.all_eq_true.2 ?_⟩
      · rw [isWordStart_eq hc hdigit, hforeign, h, Bool.not_false]
      · exact List.forall_mem_append.2 ⟨hcs, List.forall_mem_cons.2 ⟨isWordPart_underscore,
          fun d hd => isWordPart_of_isDigit (isDigit_of_mem_toString hd)⟩⟩
    exact tokenize_identifier ⟨hword, ofWord?_temporaryName _ number⟩ file start
  · intro h
    refine ⟨c, _, hname, ?_⟩
    rw [tokenize, hname]
    exact tokensFrom_foreignNumeral (hforeign.trans h) file start _

/-- A fullwidth digit is a foreign numeral. -/
example : (tokenize (temporaryName (temporaryBase "./２d") 1) 0 0).map Token.kind =
    [.error, .identifier, .eof] := by
  decide +kernel

end TypeStrip.Lowering
