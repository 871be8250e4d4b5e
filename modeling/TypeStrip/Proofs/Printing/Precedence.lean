import TypeStrip.Proofs.Printing.Operands

/-!
Binary operators: the powers with which the text of an operator is guarded and the powers with which
it is read group operands alike.
-/
namespace TypeStrip.Grammar
open TypeStrip.Token (Kind Form)
open Code (binaryPower leftPower rightPower)

variable {room : Nat} {g : Inner} {fs gs : List Form} {e a b : Expr} {power need : Nat}

/-! ### Powers -/

def kindPower (k : Kind) : Nat := bindingPower ⟨default, ⟨k, default, "", false⟩, []⟩ true

theorem bindingPower_eq {c : Cursor} (h : c.current.kind ≠ .identifier) :
    bindingPower c true = kindPower c.current.kind := by
  unfold kindPower bindingPower
  dsimp only
  split <;> first | rfl | exact absurd ‹_› h

theorem binaryOp?_kind (op : BinaryOp) : binaryOp? (Form.of op.text).kind = some op := by
  cases op <;> decide

/-- The powers of the two tables are one apart. -/
theorem kindPower_kind (op : BinaryOp) :
    kindPower (Form.of op.text).kind + 1 = binaryPower op := by
  cases op <;> decide

theorem kindPower_pos (op : BinaryOp) : 0 < kindPower (Form.of op.text).kind := by
  cases op <;> decide

theorem endsOperand_kind {op : BinaryOp} (h : op ≠ .lt) :
    endsOperand (Form.of op.text).kind = true := by
  revert h
  cases op <;> decide

theorem ne_identifier_of_endsOperand {k : Kind} (h : endsOperand k = true) : k ≠ .identifier := by
  rintro rfl
  exact absurd h (by decide)

theorem binaryPower_le (op : BinaryOp) :
    binaryPower op ≤ if op = .pow then 15 else 14 := by
  cases op <;> decide

/-- An operator after an operand that needs no parentheses is left to the operator before it. -/
theorem kindPower_lt_of_leftPower {op next : BinaryOp} (h : leftPower next ≤ binaryPower op) :
    kindPower (Form.of next.text).kind < rightPower op - 1 := by
  have hpower := kindPower_kind next
  have hnext := binaryPower_le next
  have hop := binaryPower_le op
  unfold leftPower at h
  unfold rightPower
  split at h
  · rename_i e
    subst e
    split at hop
    · subst op
      exact absurd h (by decide)
    · have : binaryPower .pow = 15 := rfl
      omega
  · rw [if_neg ‹_›] at hnext
    split
    · subst op
      show _ < 15 - 1
      omega
    · omega

/-! ### Operators between operands -/

theorem binaryUpTo_succ (g : Inner) (fuel power : Nat) :
    binaryUpTo g (fuel + 1) power =
      g.unary >>= fun left => extend (binaryStep g (binaryUpTo g fuel) power) left := rfl

/-- The tokens of an expression that is read as an operand of a looser binary operator, to which
more operators may be added: it is read where powers below its own are asked for, in front of an
operator that needs less than is left. -/
structure ReadsBinary (room : Nat) (g : Inner) (power need : Nat) (fs : List Form) (e : Expr) : Prop where
  starts : headKind fs ∈ operandKinds
  reads : ∀ fuel p gs, p < power → (fs ++ gs).length ≤ fuel → endsOperand (headKind gs) = true →
    kindPower (headKind gs) < need → ∀ t : Tape, t.On room (fs ++ gs) →
      ∃ a t' steps, binaryUpTo g (fuel + 1) p t =
          extendUpTo (binaryStep g (binaryUpTo g fuel) p) steps a t' ∧ t'.On room gs ∧ gs.length < steps ∧
        Restores e a

theorem ReadsBinary.mono (h : ReadsBinary room g power need fs e) {power' need' : Nat}
    (hpower : power' ≤ power) (hneed : need' ≤ need) : ReadsBinary room g power' need' fs e where
  starts := h.starts
  reads fuel p gs hp hfuel hgs hlt :=
    h.reads fuel p gs (by omega) hfuel hgs (by omega)

theorem ReadsOperand.binary (h : ReadsOperand room g fs e) (power need : Nat) :
    ReadsBinary room g power need fs e where
  starts := h.starts
  reads fuel p gs _ _ hgs _ t ht := by
    obtain ⟨a, t', hr, ht', ha⟩ := h.reads gs hgs t ht
    refine ⟨a, t', t'.cursor.remaining, ?_, ht', by rw [ht'.cursor.remaining]; omega, ha⟩
    rw [binaryUpTo_succ, bind_eq_of_ok hr]
    rfl

/-- No operator is added in front of one that is too loose. -/
theorem reads_binaryStep_none {operand : Nat → Parser Expr} {p : Nat} (hgs : endsOperand (headKind gs) = true)
    (hp : kindPower (headKind gs) = 0 ∨ kindPower (headKind gs) < p) :
    Reads room (binaryStep g operand p a) gs gs fun found => found = none := by
  refine .get fun c hc => ?_
  have hpower : bindingPower c true = kindPower (headKind gs) := by
    rw [bindingPower_eq (hc.kind ▸ ne_identifier_of_endsOperand hgs), hc.kind]
  refine .bind reads_inAllowed fun allowed hallowed => ?_
  dsimp only
  rw [hallowed, hpower, if_pos (by simpa using hp)]
  exact .pure rfl

/-- One operand in front of an operator that is too loose, or of none. -/
theorem reads_binaryUpTo {fuel p : Nat} {Q : Expr → Prop} (h : Reads room g.unary fs gs Q)
    (hgs : endsOperand (headKind gs) = true)
    (hp : kindPower (headKind gs) = 0 ∨ kindPower (headKind gs) < p) :
    Reads room (binaryUpTo g (fuel + 1) p) fs gs Q :=
  h.bind fun _ ha => reads_extend_none (reads_binaryStep_none hgs hp) ha

theorem ReadsBinary.finish (h : ReadsBinary room g power need fs e) {fuel p : Nat} (hp : p < power)
    (hfuel : (fs ++ gs).length ≤ fuel) (hgs : endsOperand (headKind gs) = true)
    (hneed : kindPower (headKind gs) < need)
    (hstop : kindPower (headKind gs) = 0 ∨ kindPower (headKind gs) < p) :
    Reads room (binaryUpTo g (fuel + 1) p) (fs ++ gs) gs (Restores e) := by
  intro t ht
  obtain ⟨a, t', steps, hr, ht', hsteps, ha⟩ := h.reads fuel p gs hp hfuel hgs hneed t ht
  cases steps with
  | zero => exact absurd hsteps (Nat.not_lt_zero _)
  | succ steps =>
    have hnone : Reads room (binaryStep g (binaryUpTo g fuel) p a) gs gs fun found => found = none :=
      reads_binaryStep_none hgs hstop
    obtain ⟨found, t'', hstep, ht'', rfl⟩ := hnone t' ht'
    exact ⟨a, t'', by rw [hr, extendUpTo, bind_eq_of_ok hstep]; rfl, ht'', ha⟩

/-- Two operands that are guarded as the operator asks for are read as its operands. -/
theorem ReadsBinary.op {powerA needA powerB needB : Nat} {op : BinaryOp} (hop : op ≠ .lt)
    (ha : ReadsBinary room g powerA needA fs a) (hb : ReadsBinary room g powerB needB gs b)
    (hleft : leftPower op ≤ powerA) (hnext : kindPower (Form.of op.text).kind < needA)
    (hright : rightPower op ≤ powerB) (hneed : rightPower op - 1 ≤ needB) (s : Span) :
    ReadsBinary room g (binaryPower op) (rightPower op - 1) (fs ++ .of op.text :: gs)
      (.binary s a op b) where
  starts := by
    rw [headKind_append (ne_nil_of_mem ha.starts (by decide))]
    exact ha.starts
  reads fuel p rest hp hfuel hrest hlt t ht := by
    have hpower := kindPower_kind op
    have hends := endsOperand_kind hop
    rw [List.append_assoc, List.cons_append] at ht hfuel
    simp only [List.length_append, List.length_cons] at hfuel
    have hpleft : p < powerA := by
      unfold leftPower at hleft
      split at hleft <;> omega
    obtain ⟨a', t', steps, hr, ht', hsteps, ha'⟩ := ha.reads fuel p (.of op.text :: (gs ++ rest))
      hpleft (by simp only [List.length_append, List.length_cons]; omega) hends hnext t ht
    rw [List.length_cons] at hsteps
    obtain ⟨fuel, rfl⟩ : ∃ n, fuel = n + 1 := ⟨fuel - 1, by omega⟩
    obtain ⟨steps, rfl⟩ : ∃ n, steps = n + 1 := ⟨steps - 1, by omega⟩
    have hstep : Reads room (binaryStep g (binaryUpTo g (fuel + 1)) p a') (.of op.text :: (gs ++ rest)) rest
        fun found => ∃ e', found = some e' ∧ Restores (.binary s a op b) e' := by
      refine .get fun c hc => ?_
      have hk : c.current.kind = (Form.of op.text).kind := hc.kind
      have hbp : bindingPower c true = kindPower (Form.of op.text).kind := by
        rw [bindingPower_eq (hk ▸ ne_identifier_of_endsOperand hends), hk]
      have hword : c.at_ .identifier = false := hc.at_ne (ne_identifier_of_endsOperand hends)
      refine .bind reads_inAllowed fun allowed hallowed => ?_
      dsimp only
      have hpos := kindPower_pos op
      have hq : (if op = .pow then kindPower (Form.of op.text).kind
          else kindPower (Form.of op.text).kind + 1) = rightPower op - 1 := by
        unfold rightPower
        split <;> omega
      rw [hallowed, hbp, hword, hk, binaryOp?_kind, if_neg (by simp; omega), if_neg (by decide)]
      dsimp only
      rw [hq]
      -- The right operand takes all operators that bind at least as tightly as it may.
      refine .bind reads_skip fun _ _ => .bind (hb.finish ?_ ?_ hrest ?_ (.inr hlt)) fun b' hb' =>
        .pure ⟨_, rfl, by rw [Restores, Expr.bare, Expr.bare, ha', hb']⟩
      · omega
      · rw [List.length_append]
        omega
      · omega
    obtain ⟨found, t'', hs, ht'', e', rfl, he'⟩ := hstep t' ht'
    refine ⟨e', t'', steps, ?_, ht'', by simp only [List.length_append] at hsteps; omega, he'⟩
    rw [hr, extendUpTo, bind_eq_of_ok hs]

end TypeStrip.Grammar
