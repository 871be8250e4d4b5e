import TypeStrip.Template.Split
import TypeStrip.Proofs.Lexing.Forms

/-!
Strings and templates decode escapes alike: a text that can be the body of either stands for the same
text in both, unless it has a carriage return behind a backslash. A string passes over that, like
over every other line break behind a backslash, and a template keeps it.
-/
namespace TypeStrip.Text

/-- A text that can stand between quotes and between backquotes. Neither a quote nor a line break nor
a substitution is in it, except for what a backslash hides. -/
inductive IsShared (quote : Char) : List Char → Prop where
  | nil : IsShared quote []
  | plain {c : Char} {cs : List Char} (hc : c ∉ [quote, '\\', '\n', '\r'])
    (ho : c = '$' → cs.head? ≠ some '\x7b') (h : IsShared quote cs) : IsShared quote (c :: cs)
  | escape {c : Char} {cs : List Char} (hc : c ≠ '\r') (h : IsShared quote cs) :
    IsShared quote ('\\' :: c :: cs)
  | carriageReturn {cs : List Char} (h : IsShared quote cs) : IsShared quote ('\\' :: '\r' :: cs)
  | lineEnd {cs : List Char} (h : IsShared quote cs) : IsShared quote ('\\' :: '\r' :: '\n' :: cs)

variable {quote c : Char} {cs : List Char}

/-! ### What an escape takes -/

def IsEscapePart (c : Char) : Prop := isHexDigit c = true ∨ c = '\x7b' ∨ c = '\x7d'

theorem IsEscapePart.ne_backslash (h : IsEscapePart c) : c ≠ '\\' := by
  rintro rfl
  exact absurd h (by unfold IsEscapePart; decide)

theorem IsEscapePart.ne_return (h : IsEscapePart c) : c ≠ '\r' := by
  rintro rfl
  exact absurd h (by unfold IsEscapePart; decide)

theorem exists_front_codeEscape (count : Nat) (cs : List Char) :
    ∃ front, cs = front ++ (codeEscape count cs).2 ∧ ∀ d ∈ front, IsEscapePart d := by
  let digits := (cs.take count).takeWhile isHexDigit
  have hprefix : digits <+: cs := (List.takeWhile_prefix _).trans (List.take_prefix _ _)
  obtain ⟨rest, hrest⟩ := hprefix
  refine ⟨digits, ?_, fun d hd => .inl (List.mem_takeWhile_imp hd)⟩
  show cs = digits ++ cs.drop digits.length
  rw [← hrest, List.drop_left]

theorem exists_front_unicodeEscape (cs : List Char) :
    ∃ front, cs = front ++ (unicodeEscape cs).2 ∧ ∀ d ∈ front, IsEscapePart d := by
  unfold unicodeEscape
  split
  · rename_i cs
    have hdigits : ∀ d ∈ '\x7b' :: cs.takeWhile isHexDigit, IsEscapePart d :=
      List.forall_mem_cons.2 ⟨.inr (.inl rfl), fun d hd => .inl (List.mem_takeWhile_imp hd)⟩
    have hcs := List.takeWhile_append_dropWhile (p := isHexDigit) (l := cs)
    dsimp only
    unfold skipBrace
    split
    · rename_i rest hrest
      refine ⟨'\x7b' :: (cs.takeWhile isHexDigit ++ ['\x7d']), ?_, ?_⟩
      · rw [hrest] at hcs
        simp [hcs]
      · rw [← List.cons_append]
        exact List.forall_mem_append.2
          ⟨hdigits, List.forall_mem_singleton.2 (.inr (.inr rfl))⟩
    · exact ⟨'\x7b' :: cs.takeWhile isHexDigit, by simp [hcs], hdigits⟩
  · exact exists_front_codeEscape 4 cs

/-- An escape takes digits and braces after its first character. -/
theorem exists_front_escaped (c : Char) (cs : List Char) :
    ∃ front, cs = front ++ (escaped (c :: cs)).2 ∧ ∀ d ∈ front, IsEscapePart d := by
  simp only [escaped]
  split
  · exact exists_front_unicodeEscape cs
  · split
    · exact exists_front_codeEscape 2 cs
    · exact ⟨[], by split <;> rfl, List.forall_mem_nil _⟩

theorem notMem_escaped (h : '\r' ∉ cs) : '\r' ∉ (escaped cs).2 := by
  cases cs with
  | nil => exact h
  | cons c cs =>
    obtain ⟨front, hfront, -⟩ := exists_front_escaped c cs
    rw [hfront] at h
    exact fun hmem => h (List.mem_cons_of_mem _ (List.mem_append_right _ hmem))

theorem IsShared.tail (h : IsShared quote (c :: cs)) (hc : c ≠ '\\') : IsShared quote cs := by
  cases h with
  | plain _ _ h => exact h
  | _ => exact absurd rfl hc

theorem IsShared.of_append {front : List Char} (hf : ∀ d ∈ front, IsEscapePart d)
    (h : IsShared quote (front ++ cs)) : IsShared quote cs := by
  induction front with
  | nil => exact h
  | cons d front ih =>
    obtain ⟨hd, hfront⟩ := List.forall_mem_cons.1 hf
    exact ih hfront (h.tail hd.ne_backslash)

/-- What follows an escape can stand in both as well. -/
theorem IsShared.escaped (h : IsShared quote cs) (c : Char) :
    IsShared quote (escaped (c :: cs)).2 := by
  obtain ⟨front, hfront, hparts⟩ := exists_front_escaped c cs
  rw [hfront] at h
  exact h.of_append hparts

/-! ### The decoded texts -/

theorem cookString_escape (hc : c ≠ '\r') (cs : List Char) :
    cookString ('\\' :: c :: cs) =
      (Text.escaped (c :: cs)).1.toList ++ cookString (Text.escaped (c :: cs)).2 :=
  cookString.eq_4 _ (fun _ e => hc (List.cons.inj e).1) (fun _ e => hc (List.cons.inj e).1)

theorem cookString_plain (hc : c ≠ '\\') (cs : List Char) :
    cookString (c :: cs) = c :: cookString cs :=
  cookString.eq_5 _ _ (fun _ e => absurd e hc) (fun _ e => absurd e hc) hc

theorem cookTemplate_plain (hc : c ≠ '\\') (hr : c ≠ '\r') (cs : List Char) :
    cookTemplate (c :: cs) = c :: cookTemplate cs :=
  cookTemplate.eq_5 _ _ (fun _ e => absurd e hr) hr hc

theorem cookTemplate_return (cs : List Char) :
    cookTemplate ('\\' :: '\r' :: cs) = '\r' :: cookTemplate cs := by
  rw [cookTemplate]
  rfl

/-- Without carriage returns, a string and a template stand for the same text. -/
theorem cookTemplate_eq_cookString (h : '\r' ∉ cs) : cookTemplate cs = cookString cs := by
  fun_induction cookString cs with
  | case1 => rw [cookTemplate]
  | case2 cs | case3 cs => simp at h
  | case4 cs hlineEnd hreturn ih =>
    rw [cookTemplate, ih (notMem_escaped fun hmem => h (List.mem_cons_of_mem _ hmem))]
  | case5 c cs _ _ hc ih =>
    obtain ⟨hr, hcs⟩ := not_or.1 (mt List.mem_cons.2 h)
    rw [cookTemplate_plain hc (Ne.symm hr), ih hcs]

theorem IsShared.head?_ne (h : IsShared quote cs) : cs.head? ≠ some '\n' := by
  cases h with
  | plain hc => simp_all [eq_comm]
  | _ => simp

/-- Every carriage return makes the text longer that a template stands for. -/
theorem IsShared.length_cookString_add (h : IsShared quote cs) :
    (cookString cs).length + cs.count '\r' ≤ (cookTemplate cs).length := by
  induction hn : cs.length using Nat.strongRecOn generalizing cs with
  | ind n ih =>
    subst hn
    cases h with
    | nil => simp [cookString]
    | @plain c cs hc _ h =>
      simp only [List.mem_cons, List.not_mem_nil, or_false, not_or] at hc
      have hrest := ih cs.length (by simp) h rfl
      rw [cookString_plain hc.2.1, cookTemplate_plain hc.2.1 hc.2.2.2,
        List.count_cons_of_ne hc.2.2.2]
      simp only [List.length_cons]
      omega
    | @escape c cs hc h =>
      obtain ⟨front, hfront, hparts⟩ := exists_front_escaped c cs
      have hcount : front.count '\r' = 0 :=
        List.count_eq_zero.2 fun hmem => (hparts _ hmem).ne_return rfl
      have hlength := length_escaped_le (c :: cs)
      have hrest := ih (Text.escaped (c :: cs)).2.length
        (by simp only [List.length_cons] at hlength ⊢; omega) (h.escaped c) rfl
      rw [cookString_escape hc, cookTemplate, List.count_cons_of_ne (by decide),
        List.count_cons_of_ne hc, List.length_append, List.length_append]
      have hcs := congrArg (List.count '\r') hfront
      rw [List.count_append, hcount, Nat.zero_add] at hcs
      omega
    | @carriageReturn cs h =>
      have hhead (ds : List Char) (e : cs = '\n' :: ds) : False := h.head?_ne (by rw [e]; rfl)
      have hrest := ih cs.length (by simp only [List.length_cons]; omega) h rfl
      rw [cookString.eq_3 _ hhead, cookTemplate_return, List.count_cons_of_ne (by decide),
        List.count_cons_self]
      simp only [List.length_cons]
      omega
    | @lineEnd cs h =>
      have hrest := ih cs.length (by simp only [List.length_cons]; omega) h rfl
      rw [cookString, cookTemplate_return, cookTemplate_plain (by decide) (by decide),
        List.count_cons_of_ne (by decide), List.count_cons_self, List.count_cons_of_ne (by decide)]
      simp only [List.length_cons]
      omega

/-- A string and a template stand for the same text exactly if there is no carriage return. -/
theorem IsShared.cookTemplate_eq_iff (h : IsShared quote cs) :
    cookTemplate cs = cookString cs ↔ '\r' ∉ cs := by
  refine ⟨fun he hr => ?_, cookTemplate_eq_cookString⟩
  have hlength := h.length_cookString_add
  have hpos := List.count_pos_iff.2 hr
  rw [he] at hlength
  omega

/-! ### Where the bodies end -/

/-- The next quote ends the string. -/
theorem IsShared.stringBody (h : IsShared quote cs) (hb : quote ≠ '\\') (hn : quote ≠ '\n')
    (rest : List Char) : Token.stringBody quote (cs ++ quote :: rest) = (cs, true) := by
  induction h with
  | nil =>
    rw [List.nil_append, Token.stringBody.eq_5 _ _ _ (fun e => absurd e hb) (fun _ e => absurd e hb)
      (fun _ _ e => absurd e hb), if_pos rfl]
  | plain hc _ _ ih =>
    simp only [List.mem_cons, List.not_mem_nil, or_false, not_or] at hc
    rw [List.cons_append, Token.stringBody_cons hc.2.1 hc.1 hc.2.2.1, ih]
  | escape hc _ ih => rw [List.cons_append, List.cons_append, Token.stringBody_escape hc, ih]
  | @carriageReturn cs h ih =>
    have hhead (ds : List Char) (e : cs ++ quote :: rest = '\n' :: ds) : False := by
      cases cs with
      | nil => exact hn (List.cons.inj e).1
      | cons c cs => exact h.head?_ne (congrArg some (List.cons.inj e).1)
    rw [List.cons_append, List.cons_append,
      Token.stringBody.eq_4 _ _ _ fun ds _ e => hhead ds e, ih]
  | lineEnd _ ih =>
    rw [List.cons_append, List.cons_append, List.cons_append, Token.stringBody.eq_3, ih]

end TypeStrip.Text

namespace TypeStrip.Template
open TypeStrip.Text

variable {quote c : Char} {cs : List Char}

theorem segments_escape (h : ∀ offset, segments offset cs = .ok (cs, [])) (c : Char)
    (offset : Nat) : segments offset ('\\' :: c :: cs) = .ok ('\\' :: c :: cs, []) := by
  rw [segments, h]
  rfl

theorem segments_plain (hb : c ≠ '\\') (ho : c = '$' → cs.head? ≠ some '\x7b')
    (h : ∀ offset, segments offset cs = .ok (cs, [])) (offset : Nat) :
    segments offset (c :: cs) = .ok (c :: cs, []) := by
  rw [segments.eq_5 _ _ _ (fun e => absurd e hb) (fun _ _ e => absurd e hb), h]
  · rfl
  · exact fun ds hc hcs => ho hc (by rw [hcs]; rfl)

/-- There is no substitution in the body. -/
theorem segments_of_isShared (h : IsShared quote cs) (offset : Nat) :
    segments offset cs = .ok (cs, []) := by
  induction h generalizing offset with
  | nil => rw [segments]
  | plain hc ho _ ih =>
    simp only [List.mem_cons, List.not_mem_nil, or_false, not_or] at hc
    exact segments_plain hc.2.1 ho ih offset
  | escape _ _ ih | carriageReturn _ ih => exact segments_escape ih _ offset
  | lineEnd _ ih =>
    exact segments_escape (segments_plain (by decide) (fun e => absurd e (by decide)) ih) _ offset

theorem split_of_isShared {raw : String} (h : IsShared quote raw.toList) :
    split raw = .ok ⟨String.ofList (cookTemplate raw.toList), []⟩ := by
  rw [split, segments_of_isShared h]
  rfl

end TypeStrip.Template

namespace TypeStrip.Token
open TypeStrip.Text TypeStrip.Template

variable {quote : Char} {raw : String}

/-- A body between quotes is one string. -/
theorem tokenize_of_isShared (hq : quote = '"' ∨ quote = '\'') (h : IsShared quote raw.toList)
    (file start : Nat) :
    let text := String.singleton quote ++ raw ++ String.singleton quote
    let span : Span := ⟨start, start + byteCount text.toList, file⟩
    tokenize text file start =
      [⟨.string, span, String.ofList (cookString raw.toList), false⟩, endOfText span] := by
  intro text span
  have htext : text.toList = quote :: (raw.toList ++ [quote]) := by simp [text]
  have hmarks : isBlank quote = false ∧ quote ≠ '/' ∧ quote ≠ '\\' ∧ quote ≠ '\n' := by
    rcases hq with rfl | rfl <;> decide
  obtain ⟨hblank, hslash, hback, hbreak⟩ := hmarks
  have hl : lexeme quote (raw.toList ++ [quote]) =
      ⟨.string, String.ofList (cookString raw.toList), quote :: (raw.toList ++ [quote])⟩ := by
    rw [lexeme, if_pos hq, stringLexeme, h.stringBody hback hbreak]
    rfl
  rw [tokenize, htext, tokensFrom_whole hblank hslash (by rw [hl]), hl, ← htext]

/-- A body between double quotes is one string, and between backquotes it is one text without
substitutions. The string and the text are the same exactly if there is no carriage return. -/
theorem string_eq_text_iff (h : IsShared '"' raw.toList) (file start : Nat) :
    let source := "\"" ++ raw ++ "\""
    let span : Span := ⟨start, start + byteCount source.toList, file⟩
    ∃ value text, tokenize source file start = [⟨.string, span, value, false⟩, endOfText span] ∧
      split raw = .ok ⟨text, []⟩ ∧ (value = text ↔ '\r' ∉ raw.toList) := by
  refine ⟨_, _, tokenize_of_isShared (.inl rfl) h file start, split_of_isShared h, ?_⟩
  rw [String.ofList_inj, eq_comm]
  exact h.cookTemplate_eq_iff

example : (tokenize "\"a\\\rb\"" 0 0).map Token.value = ["ab", ""] ∧
    (split "a\\\rb").map Parts.texts = .ok ["a\rb"] := by
  decide +kernel

end TypeStrip.Token
