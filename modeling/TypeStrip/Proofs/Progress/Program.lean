import TypeStrip.Proofs.Grammar.Rewinding
import TypeStrip.Proofs.Progress.Loops
import TypeStrip.Proofs.Progress.Recursion

/-!
The steps through a module. Each one passes a token, also one that ends with a complaint, so there
are no more of them than tokens.
-/
namespace TypeStrip.Grammar
open TypeStrip.Token (Kind)

variable {g : Inner} {t t' : Tape}

/-! ### Going on after a complaint -/

/-- What is left of an operator is not the mark of the end. -/
theorem ne_eof_of_afterAngle? {k kind : Kind} {value : String} (h : afterAngle? k = some (kind, value)) :
    kind ≠ .eof := by
  rintro rfl
  cases k <;> cases h

/-- The end is only reached by moving on. -/
theorem Tape.Reaches.position_lt_of_eof (h : t.Reaches t') (ht : t.Ended) (hk : t.current.kind ≠ .eof)
    (hend : t'.current.kind = .eof) : t.position < t'.position := by
  induction h with
  | refl => exact absurd hend hk
  | @advance t' h ih =>
    by_cases hk' : t'.current.kind = .eof
    · exact Nat.lt_of_lt_of_le (ih hk') position_le_advance
    · rw [(ht.reaches h).position_advance hk']
      exact Nat.lt_succ_of_le h.position_le
  | splitAngle h ha => exact absurd hend (ne_eof_of_afterAngle? ha)

theorem Cursor.ne_eof_of_atEnd {c : Cursor} (h : c.atEnd = false) : c.current.kind ≠ .eof :=
  beq_eq_false_iff_ne.1 h

theorem position_lt_synchronize (ht : t.Ended) (hk : t.current.kind ≠ .eof) :
    t.position < (synchronize t).position := by
  have hle := (reaches_seekUpTo t.cursor.remaining t.advance).position_le
  rw [ht.position_advance hk] at hle
  exact hle

theorem reaches_synchronize (t : Tape) : t.Reaches (synchronize t) :=
  (Tape.Reaches.advance .refl).trans (reaches_seekUpTo ..)

/-- A place where parsing can go on is found among the tokens that are left. -/
theorem resumes_seekUpTo {fuel : Nat} (ht : t.Ended) (hfuel : t.cursor.remaining ≤ fuel) :
    (seekUpTo fuel t).cursor.resumes = true := by
  induction fuel generalizing t with
  | zero => exact absurd hfuel (Nat.not_succ_le_zero _)
  | succ fuel ih =>
    rw [seekUpTo]
    split
    · assumption
    · rename_i h
      rw [Bool.not_eq_true, Cursor.resumes, Bool.or_eq_false_iff, Bool.or_eq_false_iff] at h
      have hk : t.current.kind ≠ .eof := Cursor.ne_eof_of_atEnd h.1.1
      have hreaches : t.Reaches t.advance := .advance .refl
      have hremaining := hreaches.position_add_remaining
      rw [ht.position_advance hk] at hremaining
      exact ih (ht.reaches hreaches) (by omega)

theorem resumes_synchronize (ht : t.Ended) : (synchronize t).cursor.resumes = true := by
  have hreaches : t.Reaches t.advance := .advance .refl
  refine resumes_seekUpTo (ht.reaches hreaches) ?_
  have hremaining := hreaches.position_add_remaining
  have hle := hreaches.position_le
  omega

/-! ### Steps -/

theorem position_lt_itemStep (hg : InnerConsumes g) (ht : t.Ended) (hk : t.current.kind ≠ .eof) :
    t.position < (itemStep g t).2.position := by
  unfold itemStep
  split
  · rw [ht.position_advance hk]
    exact Nat.lt_succ_self _
  · split
    · rename_i hr
      exact consumes_item hg t ht _ _ hr trivial
    · rename_i e t' hr
      have hreaches := Parser.reaches_of_error hr
      by_cases hk' : t'.current.kind = .eof
      -- A complaint at the end is one that came after something was passed.
      · have hlt := hreaches.position_lt_of_eof ht hk hk'
        exact Nat.lt_of_lt_of_le hlt (reaches_synchronize t').position_le
      · have hlt := position_lt_synchronize (ht.reaches hreaches) hk'
        exact Nat.lt_of_le_of_lt hreaches.position_le hlt

/-- There are fewer steps than tokens that are left with the mark of the end, and counting them
does not cut them off. -/
theorem itemStepsUpTo_spec (hg : InnerConsumes g) (k : Nat) {fuel : Nat} (ht : t.Ended)
    (hfuel : t.cursor.remaining ≤ fuel) :
    itemStepsUpTo g (fuel + k) t = itemStepsUpTo g fuel t ∧
      (itemStepsUpTo g fuel t).length < t.cursor.remaining := by
  induction fuel generalizing t with
  | zero => exact absurd hfuel (Nat.not_succ_le_zero _)
  | succ fuel ih =>
    rw [Nat.add_right_comm, itemStepsUpTo, itemStepsUpTo]
    split
    · exact ⟨rfl, Nat.succ_pos _⟩
    · rename_i hend
      have hreaches := reaches_itemStep g t
      rw [Bool.not_eq_true] at hend
      have hlt := position_lt_itemStep hg ht (Cursor.ne_eof_of_atEnd hend)
      have hremaining := hreaches.position_add_remaining
      obtain ⟨hmore, hlength⟩ := ih (ht.reaches hreaches) (by omega)
      refine ⟨congrArg (List.cons _) hmore, ?_⟩
      rw [List.length_cons]
      omega

theorem length_complaints_le (steps : List (Except ParseError Item)) :
    (complaints steps).length ≤ steps.length :=
  List.length_filterMap_le _ _

/-- The mark of the end is the only token that may be added. -/
theorem remaining_ofTokens_le (tokens : List Token) :
    (Tape.ofTokens tokens).cursor.remaining ≤ tokens.length + 1 := by
  unfold Tape.ofTokens
  dsimp only
  split <;> rename_i h
  · have hlength := congrArg List.length h
    refine Nat.le_trans (Nat.le_of_eq hlength.symm) ?_
    split
    · exact Nat.le_succ _
    · exact Nat.le_of_eq (List.length_append ..)
  · exact Nat.le_add_left ..

/-- There are no more steps through a module than tokens. -/
theorem length_itemSteps_le (hg : InnerConsumes g) (tokens : List Token) :
    (itemStepsUpTo g (Tape.ofTokens tokens).cursor.remaining (.ofTokens tokens)).length
      ≤ tokens.length := by
  have hlt := (itemStepsUpTo_spec hg 0 (ended_ofTokens tokens) (Nat.le_refl _)).2
  exact Nat.le_of_lt_succ (Nat.lt_of_lt_of_le hlt (remaining_ofTokens_le tokens))

/-- There are no more complaints about a module than tokens. -/
theorem length_errors_le {tokens : List Token} {errors : List ParseError}
    (h : parseProgram tokens = .error errors) : errors.length ≤ tokens.length := by
  have hg : InnerConsumes (grammar tokens) := innerConsumes_levels _ _
  have hsteps := length_itemSteps_le hg tokens
  unfold parseProgram at h
  dsimp only at h
  split at h
  · cases h
  · cases h
    exact Nat.le_trans (length_complaints_le _) hsteps

/-! ### Progress -/

/-- Reading goes on from a place: past an item, to where parsing can go on after a complaint, past
every step through a module and every round of a loop. Steps, rounds and the times that a rule comes
back to itself are counted, but none is left out for that. -/
structure GoesOn (g : Inner) (t : Tape) : Prop where
  item_ok : ∀ i t', item g t = .ok i t' → t.position < t'.position
  item_error : ∀ e t', item g t = .error e t' → t.position ≤ t'.position
  synchronize : t.cursor.atEnd = false → t.position < (synchronize t).position
  resumes : (Grammar.synchronize t).cursor.resumes = true
  step : t.cursor.atEnd = false → t.position < (itemStep g t).2.position
  steps : ∀ k, itemStepsUpTo g (t.cursor.remaining + k) t = itemStepsUpTo g t.cursor.remaining t
  length_steps : (itemStepsUpTo g t.cursor.remaining t).length < t.cursor.remaining
  round : ∀ {α : Type} {step : Parser (Option α)}, Round g step →
    ∀ a t', step t = .ok (some a) t' → t.position < t'.position
  collect : ∀ {α : Type} {step : Parser (Option α)}, Round g step → ∀ k found,
    collectUpTo step (t.cursor.remaining + k) found t = collectUpTo step t.cursor.remaining found t
  length_collect : ∀ {α : Type} {step : Parser (Option α)}, Round g step →
    ∀ as t', Grammar.collect step t = .ok as t' → t.position + as.length ≤ t'.position
  extend : ∀ {α : Type} {step : α → Parser (Option α)}, (∀ a, Round g (step a)) → ∀ k a,
    extendUpTo step (t.cursor.remaining + k) a t = extendUpTo step t.cursor.remaining a t
  patterns : ∀ k, patternUpTo g (t.cursor.remaining + k) t = patternUpTo g t.cursor.remaining t
  typeOperators : ∀ k,
    typeOperatorUpTo g (t.cursor.remaining + k) t = typeOperatorUpTo g t.cursor.remaining t
  operands : ∀ k power,
    binaryUpTo g (t.cursor.remaining + k) power t = binaryUpTo g t.cursor.remaining power t
  constructions : ∀ k allowCall, leftHandSideUpTo g (t.cursor.remaining + k) allowCall t =
    leftHandSideUpTo g t.cursor.remaining allowCall t
  dottedNames : ∀ k item isDeclare, namespaceUpTo item isDeclare (t.cursor.remaining + k) t =
    namespaceUpTo item isDeclare t.cursor.remaining t
  exportedItems : ∀ k, itemUpTo g (t.cursor.remaining + k) t = itemUpTo g t.cursor.remaining t

theorem goesOn (hg : InnerConsumes g) (ht : t.Ended) : GoesOn g t where
  item_ok i t' h := consumes_item hg t ht i t' h trivial
  item_error _ _ h := (Parser.reaches_of_error h).position_le
  synchronize h := position_lt_synchronize ht (Cursor.ne_eof_of_atEnd h)
  resumes := resumes_synchronize ht
  step h := position_lt_itemStep hg ht (Cursor.ne_eof_of_atEnd h)
  steps k := (itemStepsUpTo_spec hg k ht (Nat.le_refl _)).1
  length_steps := (itemStepsUpTo_spec hg 0 ht (Nat.le_refl _)).2
  round hr _ t' h := moves_round hg hr t ht _ t' h rfl
  collect hr k found := (collectUpTo_spec (moves_round hg hr) k found ht (Nat.le_refl _)).1
  length_collect hr _ _ h := length_of_collect (moves_round hg hr) ht h
  extend hr k a := extendUpTo_eq (fun a => moves_round hg (hr a)) k a ht (Nat.le_refl _)
  patterns k := agree_patternUpTo k _ t ht (Nat.le_refl _)
  typeOperators k := agree_typeOperatorUpTo k _ t ht (Nat.le_refl _)
  operands k power := agree_binaryUpTo hg k _ power t ht (Nat.le_refl _)
  constructions k allowCall := agree_leftHandSideUpTo k _ allowCall t ht (Nat.le_refl _)
  dottedNames k item isDeclare := agree_namespaceUpTo item isDeclare k _ t ht (Nat.le_refl _)
  exportedItems k := agree_itemUpTo k _ t ht (Nat.le_refl _)

/-- Reading goes on from every place in every list of tokens, well formed or not. So there are no
more steps through a module than tokens, and no more complaints. -/
theorem parsing_goes_on :
    (∀ tokens t, (Tape.ofTokens tokens).Reaches t → t.Ended) ∧
      (∀ substitution n t, t.Ended → GoesOn (levels substitution n) t) ∧
      ∀ tokens,
        (itemStepsUpTo (grammar tokens) (Tape.ofTokens tokens).cursor.remaining
          (.ofTokens tokens)).length ≤ tokens.length ∧
        ∀ errors, parseProgram tokens = .error errors → errors.length ≤ tokens.length :=
  ⟨fun tokens _ h => (ended_ofTokens tokens).reaches h,
    fun _ _ _ ht => goesOn (innerConsumes_levels _ _) ht,
    fun tokens => ⟨length_itemSteps_le (innerConsumes_levels _ _) tokens, fun _ h => length_errors_le h⟩⟩

def strayParenthesis : List Token :=
  [⟨.semicolon, ⟨0, 1, 0⟩, ";", false⟩, ⟨.rParen, ⟨2, 3, 0⟩, ")", false⟩]

/-- An empty statement is passed over, and the complaint about the parenthesis is the only one. -/
theorem parsing_goes_on_strayParenthesis :
    let g := levels (fun _ => .error ⟨.tooDeep, default⟩) 2
    let t := Tape.ofTokens strayParenthesis
    (∃ i t', item g t = .ok i t' ∧ t.position < t'.position ∧
      ∃ e t'', item g t' = .error e t'' ∧ t'.position ≤ t''.position) ∧
      (∃ s t', untilStep .rBrace g.stmt t = .ok (some s) t' ∧ t.position < t'.position) ∧
      ∃ errors, parseProgram strayParenthesis = .error errors ∧ errors.length ≤ 2 := by
  intro g t
  obtain ⟨hended, hgoes, hcount⟩ := parsing_goes_on
  have ht : t.Ended := hended strayParenthesis t .refl
  have hitem : ∃ i t', item g t = .ok i t' ∧ ∃ e t'', item g t' = .error e t'' :=
    ⟨_, _, rfl, _, _, rfl⟩
  have hround : ∃ s t', untilStep .rBrace g.stmt t = .ok (some s) t' := ⟨_, _, rfl⟩
  have hprogram : ∃ errors, parseProgram strayParenthesis = .error errors := ⟨_, rfl⟩
  obtain ⟨i, u, hi, e, v, he⟩ := hitem
  obtain ⟨s, w, hs⟩ := hround
  obtain ⟨errors, herrors⟩ := hprogram
  have hu : u.Ended := ht.reaches (Parser.reaches_of_ok hi)
  exact ⟨⟨i, u, hi, (hgoes _ _ t ht).item_ok i u hi, e, v, he, (hgoes _ _ u hu).item_error e v he⟩,
    ⟨s, w, hs, (hgoes _ _ t ht).round .statements s w hs⟩, errors, herrors, (hcount _).2 errors herrors⟩

end TypeStrip.Grammar
