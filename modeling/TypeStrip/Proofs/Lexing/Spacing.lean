import TypeStrip.Proofs.Lexing.Forms

/-!
Tokens that are written one after the other with a blank between them are read back: operators and
delimiters, reserved words, identifiers, decimal digits and strings.
-/
namespace TypeStrip.Token
open TypeStrip.Text TypeStrip.Number

/-- A token that can be written by itself. -/
inductive Atom where
  | operator (spelling : String) (kind : Kind) (h : (spelling, kind) ∈ operators)
  | reserved (word : String) (kind : Kind) (h : (word, kind) ∈ reservedWords)
  | identifier (name : String) (h : IsIdentifier name)
  | digits (text : String) (h : IsDigits text.toList)
  | string (value : String)

namespace Atom

def text : Atom → String
  | operator spelling _ _ => spelling
  | reserved word _ _ => word
  | identifier name _ => name
  | digits text _ => text
  | string value => quoted value

def kind : Atom → Kind
  | operator _ kind _ => kind
  | reserved _ kind _ => kind
  | identifier _ _ => .identifier
  | digits _ _ => .number
  | string _ => .string

def value : Atom → String
  | operator spelling _ _ => spelling
  | reserved word _ _ => word
  | identifier name _ => name
  | digits text _ => text
  | string value => value

def form (a : Atom) : Form := ⟨a.kind, a.value, false⟩

end Atom

theorem reservedWords_spec : ∀ o ∈ reservedWords, isWord o.1 = true ∧ kindOfWord o.1 = o.2 := by
  decide +kernel

/-- A text that leaves what is in front of it alone: the end of the text, or a blank. -/
def StartsBlank (rest : List Char) : Prop := ∀ c cs, rest = c :: cs → c = ' '

namespace StartsBlank

variable {rest : List Char}

theorem nil : StartsBlank [] := fun _ _ h => nomatch h

theorem cons (rest : List Char) : StartsBlank (' ' :: rest) :=
  fun _ _ h => (List.cons.inj h).1.symm

theorem endsWord (h : StartsBlank rest) : EndsWord rest := by
  rintro c cs e
  rw [h c cs e]
  exact isWordPart_closer ' ' (by decide)

theorem endsNumber (h : StartsBlank rest) : EndsNumber rest :=
  ⟨h.endsWord, fun cs e => absurd (h _ _ e) (by decide)⟩

theorem endsOperator (h : StartsBlank rest) {spelling : String} {kind : Kind}
    (ho : (spelling, kind) ∈ operators) : EndsOperator spelling rest := by
  rintro c cs e
  rw [h c cs e]
  exact leavesAlone_blank (spelling, kind) ho

end StartsBlank

/-- A token in front of a blank, or at the end. -/
theorem Lexes.atom (a : Atom) {rest : List Char} {fs : List Form} (hrest : StartsBlank rest)
    (h : Lexes rest fs) : Lexes (a.text.toList ++ rest) (a.form :: fs) := by
  cases a with
  | operator spelling kind ho =>
    have hl := h.operator ho (hrest.endsOperator ho)
    rwa [Form.of_operator ho] at hl
  | reserved word kind hw =>
    obtain ⟨hword, hkind⟩ := reservedWords_spec _ hw
    have hl := h.word hword hrest.endsWord
    rwa [Form.of_word hword, hkind] at hl
  | identifier name hn =>
    have hl := h.word hn.word hrest.endsWord
    rwa [Form.of_word hn.word, hn.kind] at hl
  | digits text hd => exact h.number (.whole hd) hrest.endsWord fun _ => hrest.endsNumber
  | string value => exact h.string value

/-- Tokens with a blank between them are read one after the other. -/
theorem lexes_atoms (atoms : List Atom) :
    Lexes (" ".intercalate (atoms.map Atom.text)).toList (atoms.map Atom.form) := by
  rw [String.toList_intercalate, List.map_map]
  induction atoms with
  | nil => exact .nil
  | cons a atoms ih =>
    cases atoms with
    | nil =>
      have hl := Lexes.nil.atom a .nil
      rw [List.append_nil] at hl
      simpa using hl
    | cons b atoms =>
      have hl := ih.blank.atom a (.cons _)
      simpa using hl

end TypeStrip.Token
