import TypeStrip.Proofs.Lexing.Forms
import TypeStrip.Proofs.Numbers.Integers

/-!
Numbers in base sixteen, eight or two. Such a number is one token, whatever separators are among its
digits, and stands for the double nearest to it as long as it fits into 64 bits; a longer one stands
for no number.
-/
namespace TypeStrip.Number
open TypeStrip.Token

variable {base : Nat} {mark : Char} {cs body : List Char}

/-! ### Digits -/

/-- The number that digits stand for, the first of them being the most significant. What is no digit
of the base does not count. -/
def radixValue (base : Nat) (cs : List Char) : Nat :=
  Nat.ofDigits base (cs.filterMap (digitIn? base)).reverse

theorem natOfDigits?_radixValue (h : ∀ c ∈ cs, (digitIn? base c).isSome = true) :
    natOfDigits? base cs = some (radixValue base cs) := by
  induction cs using List.reverseRecOn with
  | nil => rfl
  | append_singleton cs c ih =>
    obtain ⟨hcs, hc⟩ := List.forall_mem_append.1 h
    obtain ⟨d, hd⟩ := Option.isSome_iff_exists.1 (hc c List.mem_cons_self)
    have hread : cs.foldlM (fun n c => (digitIn? base c).map (n * base + ·)) 0 =
        some (radixValue base cs) := ih hcs
    have hvalue : radixValue base (cs ++ [c]) = radixValue base cs * base + d := by
      rw [radixValue, List.filterMap_append, List.filterMap_cons_some hd, List.reverse_append]
      show Nat.ofDigits base (d :: (cs.filterMap (digitIn? base)).reverse) = _
      rw [Nat.ofDigits_cons, radixValue]
      ring
    rw [natOfDigits?, List.foldlM_append, hread, hvalue]
    show (some (radixValue base cs)).bind _ = _
    simp [hd]

theorem digitIn?_separator (base : Nat) : digitIn? base '_' = none := rfl

theorem radixValue_withoutSeparators (base : Nat) (cs : List Char) :
    radixValue base (withoutSeparators cs) = radixValue base cs := by
  rw [radixValue, radixValue, withoutSeparators, List.filterMap_filter]
  congr 2
  refine List.filterMap_congr fun c _ => ?_
  by_cases hc : c = '_'
  · rw [hc, digitIn?_separator]
    rfl
  · simp [hc]

/-- An unsigned integer is read as long as it fits into 64 bits. -/
theorem word?_digits (hne : cs ≠ []) (h : ∀ c ∈ cs, (digitIn? base c).isSome = true) :
    word? base cs = if radixValue base cs < 2 ^ 64 then some (radixValue base cs) else none := by
  unfold word?
  split
  · have hplus := h '+' List.mem_cons_self
    rw [show digitIn? base '+' = none from rfl] at hplus
    exact absurd hplus (by decide)
  · simp only [List.isEmpty_eq_false_iff.2 hne, Bool.false_eq_true, if_false,
      natOfDigits?_radixValue h, Option.filter_some, decide_eq_true_eq]
    rfl

/-- After a mark the digits are read in the base that it announces. -/
theorem parse?_mark (h : baseOfMark? mark = some base) (digits : List Char) :
    parse? (String.ofList ('0' :: mark.toLower :: digits)) =
      (word? base digits).map fun n => nearest false n 1 := by
  unfold parse?
  rw [String.toList_ofList]
  unfold baseOfMark? at h
  split at h <;> cases h <;> rfl

/-! ### Tokens -/

structure IsRadixBody (base : Nat) (body : List Char) : Prop where
  digits : ∀ c ∈ body, (digitIn? base c).isSome = true ∨ c = '_'
  nonempty : ∃ c ∈ body, c ≠ '_'

theorem IsRadixBody.withoutSeparators (h : IsRadixBody base body) :
    withoutSeparators body ≠ [] ∧ ∀ c ∈ withoutSeparators body, (digitIn? base c).isSome = true := by
  constructor
  · obtain ⟨c, hc, hne⟩ := h.nonempty
    exact List.ne_nil_of_mem (List.mem_filter.2 ⟨hc, bne_iff_ne.2 hne⟩)
  · intro c hc
    obtain ⟨hmem, hne⟩ := List.mem_filter.1 hc
    exact (h.digits c hmem).resolve_right (bne_iff_ne.1 hne)

theorem IsRadixBody.digitRun_eq (h : IsRadixBody base body) : digitRun base body = body := by
  rw [digitRun, List.takeWhile_eq_self_iff]
  intro c hc
  simpa using h.digits c hc

theorem numberLexeme_mark (hmark : baseOfMark? mark = some base) (h : IsRadixBody base body) :
    numberLexeme ('0' :: mark :: body) =
      ⟨.number, String.ofList ('0' :: mark.toLower :: Token.withoutSeparators body),
        '0' :: mark :: body⟩ := by
  rw [numberLexeme, hmark]
  simp only [h.digitRun_eq]

/-- A number with a mark is one token, without a value if it does not fit into 64 bits, and otherwise
with that of the nearest double, which is the number itself up to `2^53`. -/
theorem tokenize_radix (hmark : baseOfMark? mark = some base) (h : IsRadixBody base body)
    (file start : Nat) :
    let source := String.ofList ('0' :: mark :: body)
    let span : Span := ⟨start, start + Text.byteCount source.toList, file⟩
    ∃ t, tokenize source file start = [t, endOfText span] ∧
      t.kind = .number ∧ t.span = span ∧ t.newlineBefore = false ∧
      (2 ^ 64 ≤ radixValue base body → t.numberValue? = none) ∧
      (radixValue base body < 2 ^ 64 → ∃ x, t.numberValue? = some x ∧
        IsNearest x (radixValue base body) ∧
        (radixValue base body ≤ 2 ^ 53 → IsInt x (radixValue base body))) := by
  intro source span
  obtain ⟨hne, hdigits⟩ := h.withoutSeparators
  have hlexeme : lexeme '0' (mark :: body) = _ :=
    (lexeme_digit (by decide) _).trans (numberLexeme_mark hmark h)
  have htokens : tokenize source file start =
      [⟨.number, span, String.ofList ('0' :: mark.toLower :: withoutSeparators body), false⟩,
        endOfText span] := by
    have hsource : (lexeme '0' (mark :: body)).source = '0' :: mark :: body := by rw [hlexeme]
    have hwhole := tokensFrom_whole (by decide) (by decide) hsource file start
    rw [hlexeme] at hwhole
    simp only [tokenize, source, span, String.toList_ofList]
    exact hwhole
  have hvalue : parse? (String.ofList ('0' :: mark.toLower :: withoutSeparators body)) =
      (if radixValue base body < 2 ^ 64 then some (radixValue base body) else none).map
        fun n => nearest false n 1 := by
    rw [parse?_mark hmark, word?_digits hne hdigits, radixValue_withoutSeparators]
  refine ⟨_, htokens, rfl, rfl, rfl, fun hlong => ?_, fun hshort => ?_⟩
  · refine hvalue.trans ?_
    rw [if_neg (not_lt.2 hlong)]
    rfl
  · refine ⟨nearest false (radixValue base body) 1, hvalue.trans ?_, ?_, isInt_nearest⟩
    · rw [if_pos hshort]
      rfl
    · exact isNearest_nearest (hshort.trans_le (pow_le_pow_right₀ one_le_two (by norm_num)))

/-- The least number that is too long. -/
example :
    (tokenize "0x1_0000_0000_0000_0000" 0 0).map (fun t => (t.kind, t.numberValue?)) =
      [(.number, none), (.eof, none)] := by
  decide +kernel

end TypeStrip.Number
