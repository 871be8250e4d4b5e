import TypeStrip.Proofs.Printing.Assignments

/-!
Operator expressions as a whole: the text of what one is lowered to is read as the expression again.
-/
namespace TypeStrip.Grammar
open TypeStrip.Token (Kind Form)
open Code (binaryPower leftPower rightPower powerOfSequence powerOfAssignment powerOfConditional
  powerOfUnary powerOfPostfix powerOfMember powerOfPrimary)

variable {substitution : List Token → Except ParseError Expr} {e a : Expr} {n k : Nat}

/-! ### Expressions by how tightly they bind -/

/-- The power that an operator after an expression must stay below, so that it is not taken by the
right operand of the expression. -/
def ceiling : Expr → Nat
  | .binary _ _ op _ => rightPower op - 1
  | _ => 15

/-- How the tokens of an expression of the given height are read: as the tightest part of the
grammar that may stand for it, on three levels for each level of its height. -/
inductive IsRead (substitution : List Token → Except ParseError Expr) (n : Nat) (e : Expr) : Prop where
  | chain (hp : powerOfMember ≤ e.code.power)
    (h : ∀ k ≥ 3 * n, ReadsChain k (levels substitution (k + 1)) e.forms e)
  | operand (hp : powerOfUnary ≤ e.code.power) (hlt : e.code.power < powerOfMember)
    (h : ∀ k ≥ 3 * n + 1, ReadsOperand k (levels substitution (k + 1)) e.forms e)
  | binary (hp : powerOfConditional < e.code.power) (hlt : e.code.power < powerOfUnary)
    (h : ∀ k ≥ 3 * n + 1, ReadsBinary k (levels substitution (k + 1)) e.code.power (ceiling e) e.forms e)
  | assign (hp : powerOfAssignment ≤ e.code.power) (hlt : e.code.power ≤ powerOfConditional)
    (h : ∀ k ≥ 3 * n + 2, ReadsAssign k (levels substitution (k + 1)) e.forms e)
  | sequence (hlt : e.code.power < powerOfAssignment)
    (h : ∀ k ≥ 3 * n, ReadsWhole k (levels substitution (k + 1)) e.forms e)

/-- The powers in their order. -/
theorem powers_lt : 1 < powerOfAssignment ∧ powerOfAssignment < powerOfConditional ∧
    powerOfConditional < powerOfUnary ∧ powerOfUnary < powerOfMember := by decide

theorem ceiling_pos (e : Expr) : 0 < ceiling e := by
  unfold ceiling
  split
  · rename_i op _
    cases op <;> decide
  · decide

/-- An expression in parentheses takes up two levels more where it stands between commas. -/
theorem ReadsWhole.parenthesized (hs : SoundSubstitution substitution) {fs : List Form}
    (h : ReadsWhole k (levels substitution (k + 1)) fs e) :
    ReadsAssign (k + 2) (levels substitution (k + 3)) (.of "(" :: (fs ++ [.of ")"])) e :=
  (h.primary.chain.operand.binary 2 1).assign (keepsInner_levels hs (k + 2)) (by decide) (by decide)

namespace IsRead

theorem readsChain (h : IsRead substitution n e) (hp : powerOfMember ≤ e.code.power)
    (hk : 3 * n ≤ k) : ReadsChain k (levels substitution (k + 1)) e.forms e := by
  have hpowers := powers_lt
  cases h with
  | chain _ h => exact h k hk
  | operand _ hlt | binary _ hlt | assign _ hlt | sequence hlt => omega

theorem readsOperand (h : IsRead substitution n e) (hp : powerOfUnary ≤ e.code.power)
    (hk : 3 * n + 1 ≤ k) : ReadsOperand k (levels substitution (k + 1)) e.forms e := by
  have hpowers := powers_lt
  cases h with
  | chain _ h =>
    obtain ⟨k, rfl⟩ : ∃ j, k = j + 1 := ⟨k - 1, by omega⟩
    exact (h k (by omega)).operand
  | operand _ _ h => exact h k hk
  | binary _ hlt | assign _ hlt | sequence hlt => omega

theorem readsBinary (h : IsRead substitution n e) (hp : powerOfConditional < e.code.power)
    (hk : 3 * n + 1 ≤ k) :
    ReadsBinary k (levels substitution (k + 1)) e.code.power (ceiling e) e.forms e := by
  have hpowers := powers_lt
  by_cases hunary : powerOfUnary ≤ e.code.power
  · exact (h.readsOperand hunary hk).binary _ _
  · cases h with
    | binary _ _ h => exact h k hk
    | chain hp' | operand hp' => omega
    | assign _ hlt | sequence hlt => omega

variable (hs : SoundSubstitution substitution)
include hs

theorem readsAssign (h : IsRead substitution n e) (hp : powerOfAssignment ≤ e.code.power)
    (hk : 3 * n + 2 ≤ k) : ReadsAssign k (levels substitution (k + 1)) e.forms e := by
  have hpowers := powers_lt
  by_cases hbinary : powerOfConditional < e.code.power
  · obtain ⟨k, rfl⟩ : ∃ j, k = j + 1 := ⟨k - 1, by omega⟩
    exact (h.readsBinary hbinary (by omega)).assign (keepsInner_levels hs _) (by omega) (ceiling_pos e)
  · cases h with
    | assign _ _ h => exact h k hk
    | chain hp' | operand hp' | binary hp' => omega
    | sequence hlt => omega

theorem readsWhole (h : IsRead substitution n e) (hk : 3 * n + 2 ≤ k) :
    ReadsWhole k (levels substitution (k + 1)) e.forms e := by
  have hpowers := powers_lt
  by_cases hassign : powerOfAssignment ≤ e.code.power
  · exact (h.readsAssign hs hassign hk).whole
  · cases h with
    | sequence _ h => exact h k (by omega)
    | chain hp | operand hp | binary hp | assign hp => omega

/-! ### Parentheses where they are needed -/

/-- The object of an access, or what is called. -/
theorem guardedChain (h : IsRead substitution n e) {needed : Bool}
    (hneeded : needed = false → powerOfMember ≤ e.code.power) (hk : 3 * n + 2 ≤ k) :
    ReadsChain k (levels substitution (k + 1)) (enclosed needed e.forms) e := by
  cases needed with
  | true => exact (h.readsWhole hs hk).primary.chain
  | false => exact h.readsChain (hneeded rfl) (by omega)

/-- The operand of a prefix operator. -/
theorem guardedOperand (h : IsRead substitution n e) (hk : 3 * n + 3 ≤ k) :
    ReadsOperand k (levels substitution (k + 1)) (enclosed (e.isLooser powerOfUnary) e.forms) e := by
  by_cases hp : powerOfUnary ≤ e.code.power
  · rw [Expr.isLooser, decide_eq_false (by omega)]
    exact h.readsOperand hp (by omega)
  · rw [Expr.isLooser, decide_eq_true (by omega)]
    obtain ⟨k, rfl⟩ : ∃ j, k = j + 1 := ⟨k - 1, by omega⟩
    exact (h.readsWhole hs (by omega)).primary.chain.operand

/-- The operand of a binary operator that asks for at least the given power. -/
theorem guardedBinary (h : IsRead substitution n e) {least need : Nat}
    (hleast : powerOfConditional < least) (hneed : least ≤ e.code.power → need ≤ ceiling e)
    (hk : 3 * n + 3 ≤ k) :
    ReadsBinary k (levels substitution (k + 1)) least need (enclosed (e.isLooser least) e.forms) e := by
  by_cases hp : least ≤ e.code.power
  · rw [Expr.isLooser, decide_eq_false (by omega)]
    exact (h.readsBinary (by omega) (by omega)).mono hp (hneed hp)
  · rw [Expr.isLooser, decide_eq_true (by omega)]
    obtain ⟨k, rfl⟩ : ∃ j, k = j + 1 := ⟨k - 1, by omega⟩
    exact (h.readsWhole hs (by omega)).primary.chain.operand.binary _ _

/-- An expression between commas. -/
theorem guardedAssign (h : IsRead substitution n e) (hk : 3 * n + 2 ≤ k) :
    ReadsAssign k (levels substitution (k + 1)) (enclosed (e.isLooser powerOfAssignment) e.forms) e := by
  have hpowers := powers_lt
  by_cases hp : powerOfAssignment ≤ e.code.power
  · rw [Expr.isLooser, decide_eq_false (by omega)]
    exact h.readsAssign hs hp hk
  · rw [Expr.isLooser, decide_eq_true (by omega)]
    cases h with
    | sequence _ h =>
      -- A sequence takes up fewer levels than other expressions, which leaves two for the others.
      obtain ⟨k, rfl⟩ : ∃ j, k = j + 2 := ⟨k - 2, by omega⟩
      exact (h k (by omega)).parenthesized hs
    | chain hp' | operand hp' | binary hp' | assign hp' => omega

/-- An expression where it is all that is read, with or without parentheses. -/
theorem guardedWhole (h : IsRead substitution n e) (needed : Bool) (hk : 3 * n + 4 ≤ k) :
    ReadsWhole k (levels substitution (k + 1)) (enclosed needed e.forms) e := by
  cases needed with
  | true =>
    obtain ⟨k, rfl⟩ : ∃ j, k = j + 2 := ⟨k - 2, by omega⟩
    exact ((h.readsWhole hs (by omega)).parenthesized hs).whole
  | false => exact h.readsWhole hs (by omega)

end IsRead

/-! ### All operator expressions -/

/-- A place binds tightly enough for an access. -/
theorem power_of_isPlace (h : e.isPlace = true) : powerOfMember ≤ e.code.power := by
  cases e with
  | ident => exact show powerOfMember ≤ powerOfPrimary by decide
  | member | index => exact le_refl powerOfMember
  | _ => exact absurd h (by simp [Expr.isPlace])

theorem power_of_isLooseObject (h : e.isLooseObject = false) : powerOfMember ≤ e.code.power := by
  rw [Expr.isLooseObject, Bool.or_eq_false_iff, Expr.isLooser, decide_eq_false_iff_not] at h
  omega

theorem power_of_isLooser {least : Nat} (h : e.isLooser least = false) : least ≤ e.code.power := by
  rw [Expr.isLooser, decide_eq_false_iff_not] at h
  omega

/-- The left operand of an operator leaves the operator alone. -/
theorem kindPower_lt_ceiling (op : BinaryOp) (h : leftPower op ≤ e.code.power) :
    kindPower (Form.of op.text).kind + 1 ≤ ceiling e := by
  have hpower := kindPower_kind op
  unfold ceiling
  split
  · exact kindPower_lt_of_leftPower h
  · have hle := binaryPower_le op
    split at hle <;> omega

/-- The right operand of an operator leaves all operators alone that the whole leaves alone. -/
theorem rightPower_le_ceiling (op : BinaryOp) (h : rightPower op ≤ e.code.power) :
    rightPower op - 1 ≤ ceiling e := by
  have hle := binaryPower_le op
  unfold ceiling
  split
  · rename_i op' _
    have hop : rightPower op ≤ binaryPower op' := h
    have hop' : binaryPower op' ≤ rightPower op' := by
      unfold rightPower
      split <;> omega
    omega
  · unfold rightPower
    split at hle
    · rw [if_pos ‹_›]
      omega
    · rw [if_neg ‹_›]
      omega

theorem powerOfConditional_lt_leftPower (op : BinaryOp) : powerOfConditional < leftPower op := by
  cases op <;> decide

theorem powerOfConditional_lt_rightPower (op : BinaryOp) : powerOfConditional < rightPower op := by
  cases op <;> decide

theorem binaryPower_bounds (op : BinaryOp) :
    powerOfConditional < binaryPower op ∧ binaryPower op < powerOfUnary := by
  cases op <;> decide

/-- What an operator expression is lowered to is no hole. -/
theorem endsInHole_code (h : e.OperatorForm n) : Code.endsInHole [e.code] = false := by
  cases h <;> rfl

namespace IsRead

/-! ### One level around expressions -/

variable {b c i f : Expr} {es : List Expr} {s : Span}

/-- An expression that is one token, or a bracketed one. -/
theorem primary (hp : e.code.power = powerOfPrimary)
    (h : ∀ k ≥ 3 * n, ReadsPrimary k (levels substitution (k + 1)) e.forms e) :
    IsRead substitution n e :=
  .chain (hp ▸ by decide) fun k hk => (h k hk).chain

variable (hs : SoundSubstitution substitution)
include hs

theorem ofBinary {op : BinaryOp} (hop : op ≠ .lt) (ha : IsRead substitution n a)
    (hb : IsRead substitution n b) : IsRead substitution (n + 1) (.binary s a op b) := by
  obtain ⟨hp, hlt⟩ := binaryPower_bounds op
  refine .binary hp hlt fun k hk => ?_
  have hleft := ha.guardedBinary (k := k) hs (powerOfConditional_lt_leftPower op)
    (kindPower_lt_ceiling op) (by omega)
  have hright := hb.guardedBinary (k := k) hs (powerOfConditional_lt_rightPower op)
    (rightPower_le_ceiling op) (by omega)
  exact hleft.op hop hright le_rfl (Nat.lt_succ_self _) le_rfl le_rfl s

/-- A left operand that needs no parentheses takes up no further level. -/
theorem ofBinaryLeft {op : BinaryOp} (hop : op ≠ .lt) (ha : IsRead substitution (n + 1) a)
    (hpower : leftPower op ≤ a.code.power) (hb : IsRead substitution n b) :
    IsRead substitution (n + 1) (.binary s a op b) := by
  obtain ⟨hp, hlt⟩ := binaryPower_bounds op
  refine .binary hp hlt fun k hk => ?_
  have hleft : ReadsBinary k (levels substitution (k + 1)) (leftPower op)
      (kindPower (Form.of op.text).kind + 1) (enclosed (a.isLooser (leftPower op)) a.forms) a := by
    rw [Expr.isLooser, decide_eq_false (by omega)]
    exact (ha.readsBinary ((powerOfConditional_lt_leftPower op).trans_le hpower) hk).mono hpower
      (kindPower_lt_ceiling op hpower)
  have hright := hb.guardedBinary (k := k) hs (powerOfConditional_lt_rightPower op)
    (rightPower_le_ceiling op) (by omega)
  exact hleft.op hop hright le_rfl (Nat.lt_succ_self _) le_rfl le_rfl s

theorem ofUnary {op : UnaryOp} (hplace : op.isUpdate = true → a.isPlace = true)
    (ha : IsRead substitution n a) : IsRead substitution (n + 1) (.unary s op a) := by
  have hpower : (Expr.unary s op a).code.power =
    if op.isPostfix then powerOfPostfix else powerOfUnary := rfl
  refine .operand (by rw [hpower]; split <;> decide) (by rw [hpower]; split <;> decide) fun k hk => ?_
  obtain ⟨k, rfl⟩ : ∃ j, k = j + 1 := ⟨k - 1, by omega⟩
  rw [Expr.forms]
  by_cases hop : op.isPostfix = true
  · have hupdate : op.isUpdate = true := by
      revert hop
      cases op <;> decide
    rw [if_pos hop]
    exact (ha.guardedChain hs (fun _ => power_of_isPlace (hplace hupdate)) (by omega)).update
      (hplace hupdate) hop s
  · rw [if_neg hop]
    exact (ha.guardedOperand hs (by omega)).prefixed (by simpa using hop) hplace s

theorem ofAwait (ha : IsRead substitution n a) : IsRead substitution (n + 1) (.await s a) := by
  refine .operand (le_refl powerOfUnary) (show powerOfUnary < powerOfMember by decide) fun k hk => ?_
  obtain ⟨k, rfl⟩ : ∃ j, k = j + 1 := ⟨k - 1, by omega⟩
  exact (ha.guardedOperand hs (by omega)).await s

theorem ofAssign {op : AssignOp} (hplace : a.isPlace = true) (ha : IsRead substitution n a)
    (hb : IsRead substitution n b) : IsRead substitution (n + 1) (.assign s a op b) := by
  refine .assign (le_refl powerOfAssignment)
    (show powerOfAssignment ≤ powerOfConditional by decide) fun k hk => ?_
  obtain ⟨k, rfl⟩ : ∃ j, k = j + 1 := ⟨k - 1, by omega⟩
  have htarget : ReadsBinary k (levels substitution (k + 1)) powerOfPostfix 1
      (enclosed (a.isLooser powerOfPostfix) a.forms) a :=
    ha.guardedBinary hs (by decide) (fun _ => ceiling_pos a) (by omega)
  exact htarget.assignment (keepsInner_levels hs _) (by decide) (by decide) op hplace
    (hb.guardedAssign hs (by omega))

theorem ofConditional (ha : IsRead substitution n a) (hb : IsRead substitution n b)
    (hc : IsRead substitution n c) : IsRead substitution (n + 1) (.conditional s a b c) := by
  refine .assign (show powerOfAssignment ≤ powerOfConditional by decide)
    (le_refl powerOfConditional) fun k hk => ?_
  obtain ⟨k, rfl⟩ : ∃ j, k = j + 1 := ⟨k - 1, by omega⟩
  have htest : ReadsBinary k (levels substitution (k + 1)) (powerOfConditional + 1) 1
      (enclosed (a.isLooser (powerOfConditional + 1)) a.forms) a :=
    ha.guardedBinary hs (by decide) (fun _ => ceiling_pos a) (by omega)
  exact htest.conditional (keepsInner_levels hs _) (by decide) (by decide)
    (hb.guardedAssign hs (by omega)) (hc.guardedAssign hs (by omega))

theorem ofMember {name : Name} (hname : Text.isWord name.text = true) (ha : IsRead substitution n a) :
    IsRead substitution (n + 1) (.member s a name) := by
  refine .chain (le_refl powerOfMember) fun k hk => ?_
  exact (ha.guardedChain hs power_of_isLooseObject (by omega)).link (readsLink_member hname)
    (by simp) (show (Form.of ".").kind ≠ .kwFunction by decide)

theorem ofOptionalMember {name : Name} (hname : Text.isWord name.text = true)
    (ha : IsRead substitution n a) : IsRead substitution (n + 1) (.optionalMember s a name) := by
  refine .chain (le_refl powerOfMember) fun k hk => ?_
  have hlink : ReadsLink k (levels substitution (k + 1)) a [.of "?.", .of name.text]
      (.optionalMember s a name) :=
    readsLink_optional fun start a' ha gs => reads_optionalMember hname ha gs
  exact (ha.guardedChain hs power_of_isLooseObject (by omega)).link hlink (by simp)
    (show (Form.of "?.").kind ≠ .kwFunction by decide)

/-- What stands between the brackets of an access. -/
theorem reads_index {k : Nat} (hi : IsRead substitution n i) (hk : 3 * n + 2 ≤ k) (gs : List Form)
    (hgs : headKind gs = .rBracket) :
    Reads k (expression (levels substitution (k + 1))) (i.forms ++ gs) gs (Restores i) :=
  (hi.readsWhole hs hk).reads gs (hgs ▸ by decide)

theorem ofIndex (ha : IsRead substitution n a) (hi : IsRead substitution n i) :
    IsRead substitution (n + 1) (.index s a i) := by
  refine .chain (le_refl powerOfMember) fun k hk => ?_
  have hindex := hi.reads_index hs (k := k) (by omega)
  exact (ha.guardedChain hs power_of_isLooseObject (by omega)).link (readsLink_index hindex)
    (by simp) (show (Form.of "[").kind ≠ .kwFunction by decide)

theorem ofOptionalIndex (ha : IsRead substitution n a) (hi : IsRead substitution n i) :
    IsRead substitution (n + 1) (.optionalIndex s a i) := by
  refine .chain (le_refl powerOfMember) fun k hk => ?_
  have hindex := hi.reads_index hs (k := k) (by omega)
  have hlink : ReadsLink k (levels substitution (k + 1)) a (.of "?." :: .of "[" :: (i.forms ++ [.of "]"]))
      (.optionalIndex s a i) :=
    readsLink_optional fun start a' ha gs => by
      rw [List.cons_append, List.append_assoc]
      exact reads_optionalIndex hindex ha gs
  exact (ha.guardedChain hs power_of_isLooseObject (by omega)).link hlink (by simp)
    (show (Form.of "?.").kind ≠ .kwFunction by decide)

/-- An argument of a call. -/
theorem argument {k : Nat} (he : IsRead substitution n e) (hk : 3 * n + 2 ≤ k) :
    ReadsElement k (spreadable (levels substitution (k + 1))) .rParen (fun e a => a.bare = e.bare)
      Expr.argForm e :=
  (he.guardedAssign hs hk).element (by decide)

theorem ofCall (hf : IsRead substitution n f) (hes : ∀ e ∈ es, IsRead substitution n e) :
    IsRead substitution (n + 1) (.call s f [] es) := by
  refine .chain (le_refl powerOfMember) fun k hk => ?_
  have hargs := fun e he => (hes e he).argument hs (k := k) (by omega)
  exact (hf.guardedChain hs power_of_isLooser (by omega)).link (readsLink_call hargs) (by simp)
    (show (Form.of "(").kind ≠ .kwFunction by decide)

theorem ofOptionalCall (hf : IsRead substitution n f) (hes : ∀ e ∈ es, IsRead substitution n e) :
    IsRead substitution (n + 1) (.optionalCall s f [] es) := by
  refine .chain (le_refl powerOfMember) fun k hk => ?_
  have hargs := fun e he => (hes e he).argument hs (k := k) (by omega)
  have hlink : ReadsLink k (levels substitution (k + 1)) f
      (.of "?." :: .of "(" :: (separated (Expr.argForms es) ++ [.of ")"]))
      (.optionalCall s f [] es) :=
    readsLink_optional fun start a' ha gs => by
      rw [List.cons_append, List.append_assoc]
      exact reads_optionalCall hargs ha gs
  exact (hf.guardedChain hs power_of_isLooser (by omega)).link hlink (by simp)
    (show (Form.of "?.").kind ≠ .kwFunction by decide)

theorem ofArray
    (hes : ∀ e ∈ es, e ≠ .omitted → Code.endsInHole [e.code] = false ∧ IsRead substitution n e) :
    IsRead substitution (n + 1) (.array s es) := by
  refine .primary rfl fun k hk => readsPrimary_array fun e he => ?_
  by_cases ho : e = .omitted
  · exact ho ▸ .hole
  · obtain ⟨hhole, hread⟩ := hes e he ho
    exact .element hhole ((hread.guardedAssign hs (by omega)).element (by decide))

theorem ofSequence (htwo : 2 ≤ es.length) (hes : ∀ e ∈ es, IsRead substitution n e) :
    IsRead substitution (n + 1) (.sequence s es) := by
  refine .sequence (show powerOfSequence < powerOfAssignment by decide) fun k hk => ?_
  exact readsWhole_sequence htwo fun e he => (hes e he).guardedAssign hs (by omega)

end IsRead

/-- Every operator expression is read as the part of the grammar that it is. -/
theorem isRead (hs : SoundSubstitution substitution) (h : e.OperatorForm n) :
    IsRead substitution n e := by
  induction h with
  | number h => exact .primary rfl fun _ _ => readsPrimary_number h
  | string => exact .primary rfl fun _ _ => readsPrimary_string
  | boolean => exact .primary rfl fun _ _ => readsPrimary_boolean
  | null => exact .primary rfl fun _ _ => readsPrimary_null
  | ident h => exact .primary rfl fun _ _ => readsPrimary_ident h
  | this => exact .primary rfl fun _ _ => readsPrimary_this
  | binary hop _ _ iha ihb => exact iha.ofBinary hs hop ihb
  | unary hplace _ iha => exact iha.ofUnary hs hplace
  | await _ iha => exact iha.ofAwait hs
  | assign hplace _ _ iha ihb => exact iha.ofAssign hs hplace ihb
  | conditional _ _ _ iha ihb ihc => exact iha.ofConditional hs ihb ihc
  | member hname _ iha => exact iha.ofMember hs hname
  | optionalMember hname _ iha => exact iha.ofOptionalMember hs hname
  | index _ _ iha ihi => exact iha.ofIndex hs ihi
  | optionalIndex _ _ iha ihi => exact iha.ofOptionalIndex hs ihi
  | call _ _ ihf ihargs => exact ihf.ofCall hs ihargs
  | optionalCall _ _ ihf ihargs => exact ihf.ofOptionalCall hs ihargs
  | array hes ihes => exact .ofArray hs fun e he ho => ⟨endsInHole_code (hes e he ho), ihes e he ho⟩
  | sequence htwo _ ihes => exact .ofSequence hs htwo ihes

end TypeStrip.Grammar
