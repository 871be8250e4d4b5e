import TypeStrip.Proofs.Lexing.Spacing
import TypeStrip.Proofs.Places.Tiling

/-!
Operators are read as long as they can be. With blanks between them tokens are read as they are
written, and without blanks an operator is the longest one at its place.
-/
namespace TypeStrip.Token
open TypeStrip.Text

def Kind.isOperator (k : Kind) : Bool := operators.any fun o => o.2 == k

/-- A question mark in front of a number that starts with a point. -/
def QuestionBeforeNumber (cs : List Char) : Prop :=
  ∃ d ds, cs = '?' :: '.' :: d :: ds ∧ d.isDigit = true

/-- The operator at the front of a text: the longest one there, but a question mark in front of a
number that starts with a point. -/
structure IsOperatorAt (cs : List Char) (spelling : String) (kind : Kind) : Prop where
  mem : (spelling, kind) ∈ operators
  starts : spelling.toList <+: cs
  longest : ¬QuestionBeforeNumber cs → ∀ o ∈ operators, o.1.toList <+: cs →
    o.1.length ≤ spelling.length
  question : QuestionBeforeNumber cs → spelling = "?"

/-! ### The front of a text -/

variable {c : Char} {cs following : List Char} {kind : Kind} {l : Lexeme}

theorem admits_eq_false_iff :
    admits kind following = false ↔
      kind = .questionDot ∧ ∃ d ds, following = d :: ds ∧ d.isDigit = true := by
  unfold admits
  split
  · simp
  · rename_i hnot
    refine iff_of_false (by simp) ?_
    rintro ⟨rfl, d, ds, rfl, -⟩
    exact hnot d ds rfl rfl

/-- No operator begins one that is tried after it. -/
theorem pairwise_operators :
    operators.Pairwise fun a b => a.1.toList.isPrefixOf b.1.toList = false := by
  decide +kernel

/-- An operator that may not be read in front of what follows it. -/
theorem questionBeforeNumber_of_admits {o : String × Kind} (ho : o ∈ operators)
    (hp : o.1.toList <+: cs) (ha : admits o.2 (cs.drop o.1.toList.length) = false) :
    QuestionBeforeNumber cs := by
  obtain ⟨hkind, d, ds, hd, hdigit⟩ := admits_eq_false_iff.1 ha
  obtain ⟨rest, rfl⟩ := hp
  rw [List.drop_left] at hd
  rw [(operator_questionDot o ho).1 hkind, hd]
  exact ⟨d, ds, rfl, hdigit⟩

/-- What may be read as an operator in front of a number that starts with a point is a question
mark. -/
theorem eq_question_of_admits {o : String × Kind} (ho : o ∈ operators) (hp : o.1.toList <+: cs)
    (ha : admits o.2 (cs.drop o.1.toList.length) = true) (h : QuestionBeforeNumber cs) :
    o.1 = "?" := by
  obtain ⟨d, ds, rfl, hdigit⟩ := h
  have hdot : o.1 ≠ "?." := by
    intro hdot
    have hkind : operators.lookup "?." = some o.2 := hdot ▸ operators_lookup o ho
    have hfalse : admits o.2 (('?' :: '.' :: d :: ds).drop o.1.toList.length) = false := by
      refine admits_eq_false_iff.2 ⟨?_, d, ds, by rw [hdot]; rfl, hdigit⟩
      exact (Option.some.inj hkind).symm
    rw [hfalse] at ha
    cases ha
  have hpoint : ['?', '.'] <+: '?' :: '.' :: d :: ds := ⟨d :: ds, rfl⟩
  rcases List.prefix_or_prefix_of_prefix hp hpoint with hp | hp
  · rcases List.prefix_cons_iff.1 hp with hnil | ⟨t, ht, hp⟩
    · exact absurd hnil (operator_ne_nil o ho)
    · rcases List.prefix_cons_iff.1 hp with rfl | ⟨u, rfl, hu⟩
      · exact String.toList_inj.1 ht
      · rw [List.prefix_nil.1 hu] at ht
        exact absurd (String.toList_inj.1 ht) hdot
  · exact absurd ((operator_questionDot o ho).2 (List.isPrefixOf_iff_prefix.2 hp)) hdot

theorem isOperatorAt_of_operator? (h : operator? cs = some l) :
    l.source = l.value.toList ∧ IsOperatorAt cs l.value l.kind := by
  obtain ⟨before, o, after, hall, ho, hbefore⟩ := List.findSome?_eq_some_iff.1 h
  have hmem : o ∈ operators := by simp [hall]
  dsimp only at ho
  split at ho
  · rename_i hread
    cases ho
    obtain ⟨hstarts, hadmits⟩ := Bool.and_eq_true_iff.1 hread
    rw [List.isPrefixOf_iff_prefix] at hstarts
    refine ⟨rfl, hmem, hstarts, fun hnumber p hp hp' => ?_,
      eq_question_of_admits hmem hstarts hadmits⟩
    rw [hall] at hp
    rcases List.mem_append.1 hp with hfirst | hlater
    · -- an operator that is tried before could only have been refused in front of a digit
      have hrefused := hbefore p hfirst
      simp only [List.isPrefixOf_iff_prefix.2 hp', Bool.true_and, ite_eq_right_iff,
        reduceCtorEq, imp_false, Bool.not_eq_true] at hrefused
      have hp : p ∈ operators := hall ▸ List.mem_append_left _ hfirst
      exact absurd (questionBeforeNumber_of_admits hp hp' hrefused) hnumber
    · rcases List.mem_cons.1 hlater with rfl | hlater
      · exact Nat.le_refl _
      · have hpairs := pairwise_operators
        rw [hall] at hpairs
        have hnot := (List.pairwise_cons.1 (List.pairwise_append.1 hpairs).2.1).1 p hlater
        rcases List.prefix_or_prefix_of_prefix hp' hstarts with hle | hle
        · rw [← String.length_toList, ← String.length_toList]
          exact hle.length_le
        · rw [List.isPrefixOf_iff_prefix.2 hle] at hnot
          cases hnot
  · cases ho

theorem Kind.isVerbatim_of_isOperator (h : kind.isOperator = true) : kind.isVerbatim = true :=
  Bool.or_eq_true_iff.2 (.inr h)

theorem Kind.isOperator_of_isWord (h : kind.isWord = true) : kind.isOperator = false := by
  revert h
  cases kind <;> decide

/-- What is read as an operator is the operator at the front. -/
theorem isOperatorAt_lexeme (h : (lexeme c cs).kind.isOperator = true) :
    (lexeme c cs).source = (lexeme c cs).value.toList ∧
      IsOperatorAt (c :: cs) (lexeme c cs).value (lexeme c cs).kind := by
  rcases lexeme_cases c cs with hother | ⟨-, hword⟩ | hoperator
  · rw [Kind.isVerbatim_of_isOperator h] at hother
    cases hother
  · rw [hword, Kind.isOperator_of_isWord (isWord_wordLexeme _)] at h
    cases h
  · exact isOperatorAt_of_operator? hoperator

/-! ### All tokens -/

/-- Every operator among the tokens of a text is the one at the front of the text from there on. -/
theorem isOperatorAt_tokensFrom (file start : Nat) (cs : List Char) :
    ∀ t ∈ tokensFrom file start cs, t.kind.isOperator = true →
      ∃ before rest, cs = before ++ rest ∧
        t.span =
          ⟨start + byteCount before, start + byteCount before + byteCount t.value.toList, file⟩ ∧
        IsOperatorAt rest t.value t.kind := by
  induction start, cs using tokensFrom_induction file with
  | comment start passed text stop =>
    refine List.forall_mem_cons.2 ⟨?_, List.forall_mem_singleton.2 ?_⟩ <;> exact fun h => by cases h
  | last start gap newline => exact List.forall_mem_singleton.2 fun h => by cases h
  | lexeme start gap newline c rest after tokens _ hafter ih =>
    refine List.forall_mem_cons.2 ⟨fun h => ?_, fun t ht h => ?_⟩
    · obtain ⟨hsource, hoperator⟩ := isOperatorAt_lexeme h
      exact ⟨gap, c :: rest, rfl, by rw [hsource], hoperator⟩
    · obtain ⟨before, more, rfl, hspan, hoperator⟩ := ih t ht h
      refine ⟨gap ++ ((lexeme c rest).source ++ before), more, ?_, ?_, hoperator⟩
      · rw [← hafter]
        simp
      · rw [hspan]
        simp only [byteCount_append, Nat.add_assoc]

/-- Tokens that are written with a blank between them are read back with their kinds and values.
In any text, an operator is the longest one that starts at its place; only a question mark and a
point in front of a digit are not read as one. -/
theorem spaced_read_back_and_longest :
    (∀ (atoms : List Atom) (file start : Nat),
      (tokenize (" ".intercalate (atoms.map Atom.text)) file start).map
          (fun t => (t.kind, t.value)) =
        atoms.map (fun a => (a.kind, a.value)) ++ [(.eof, "")]) ∧
    ∀ (source : String) (file base : Nat), ∀ t ∈ tokenize source file base,
      t.kind.isOperator = true →
      ∃ before rest, source.toList = before ++ rest ∧
        t.span =
          ⟨base + byteCount before, base + byteCount before + byteCount t.value.toList, file⟩ ∧
        IsOperatorAt rest t.value t.kind := by
  refine ⟨fun atoms file start => ?_, fun source file base =>
    isOperatorAt_tokensFrom file base source.toList⟩
  have hforms :=
    congrArg (List.map fun f : Form => (f.kind, f.value)) (lexes_atoms atoms file start)
  rw [List.map_map, List.map_append, List.map_map] at hforms
  exact hforms

/-- Five tokens with blanks between them, and an operator in a text without any. -/
theorem spaced_read_back_and_longest_shift :
    (tokenize "a ?. 5 \"\\n\" in" 0 0).map (fun t => (t.kind, t.value)) =
      [(.identifier, "a"), (.questionDot, "?."), (.number, "5"), (.string, "\n"), (.kwIn, "in"),
        (.eof, "")] ∧
    ∃ before rest, "a>>>=b".toList = before ++ rest ∧
      (⟨1, 5, 0⟩ : Span) =
        ⟨0 + byteCount before, 0 + byteCount before + byteCount ">>>=".toList, 0⟩ ∧
      IsOperatorAt rest ">>>=" .gtGtGtEq :=
  ⟨spaced_read_back_and_longest.1 [.identifier "a" ⟨by decide +kernel, by decide +kernel⟩,
      .operator "?." .questionDot (by decide),
      .digits "5" ⟨by decide, List.forall_mem_singleton.2 rfl⟩, .string "\n",
      .reserved "in" .kwIn (by decide)] 0 0,
    spaced_read_back_and_longest.2 "a>>>=b" 0 0 ⟨.gtGtGtEq, ⟨1, 5, 0⟩, ">>>=", false⟩
      (by decide +kernel) (by decide)⟩

example : (tokenize "a?.5:b?.c" 0 0).map Token.value =
    ["a", "?", "0.5", ":", "b", "?.", "c", ""] := by
  decide +kernel

end TypeStrip.Token
