import TypeStrip.Proofs.Grammar.Levels
import TypeStrip.Proofs.Printing.Precedence

/-!
Assignments, conditionals and sequences. In front of each of them an arrow function is tried, which
comes to nothing where there is no arrow.
-/
namespace TypeStrip.Grammar
open TypeStrip.Token (Kind Form)

variable {room : Nat} {g : Inner} {fs gs : List Form} {e a b : Expr}

/-! ### Without an arrow -/

def NoArrow (c : Cursor) : Prop := ∀ t ∈ c.current :: c.following, t.kind ≠ .fatArrow

theorem kind_ne_fatArrow_of_afterAngle? {kind rest : Kind} {value : String}
    (h : afterAngle? kind = some (rest, value)) : rest ≠ .fatArrow := by
  unfold afterAngle? at h
  split at h <;> cases h <;> decide

instance : Kept NoArrow where
  advance t ht := by
    unfold Tape.advance
    split
    · rename_i hf
      exact fun u hu => ht u (List.mem_cons_of_mem _ (show u ∈ t.following from hf ▸ hu))
    · exact ht
  splitAngle t kind value h ht := by
    refine List.forall_mem_cons.2 ⟨kind_ne_fatArrow_of_afterAngle? h, ?_⟩
    exact fun u hu => ht u (List.mem_cons_of_mem _ hu)

theorem Cursor.On.noArrow {c : Cursor} (h : c.On fs) : NoArrow c := h.kind_ne_fatArrow

theorem NoArrow.sees {c : Cursor} (h : NoArrow c) (n : Nat) : c.sees n .fatArrow = false := by
  unfold Cursor.sees
  cases hp : c.peek? n with
  | none => rfl
  | some t =>
    have ht : t ∈ c.current :: c.following := by
      cases n with
      | zero => exact Option.some.inj hp ▸ List.mem_cons_self
      | succ n => exact List.mem_cons_of_mem _ (List.mem_of_getElem? hp)
    exact beq_eq_false_iff_ne.2 (h t ht)

def Complains (I : Cursor → Prop) {α : Type} (p : Parser α) : Prop :=
  ∀ t : Tape, I t.cursor → ∃ e t', p t = .error e t'

theorem Keeps.complains {I : Cursor → Prop} {α β : Type} [Read α] {p : Parser α} {f : α → Parser β}
    (hp : Keeps I p) (hf : ∀ a, Complains I (f a)) : Complains I (p >>= f) := by
  intro t ht
  have h := hp t ht
  rw [Parser.bind_run]
  cases hr : p t with
  | ok a t' =>
    rw [hr] at h
    exact hf a t' h.1
  | error e t' => exact ⟨e, t', rfl⟩

/-- The head of an arrow function needs an arrow. -/
theorem complains_arrowHead (hg : KeepsInner NoArrow g) : Complains NoArrow (arrowHead g) := by
  refine (keeps_optionalTypeParams hg).complains fun _ => ?_
  refine (keeps_params hg).complains fun _ => ?_
  refine (keeps_returnType hg).complains fun _ => ?_
  intro t ht
  have hat : t.cursor.at_ .fatArrow = false := by
    rw [Cursor.at_, beq_eq_false_iff_ne.2 (ht _ List.mem_cons_self), Bool.and_false]
  show ∃ e t', (ite _ _ _ : Parser _) t = .error e t'
  rw [if_pos (by simp [hat])]
  exact ⟨_, _, rfl⟩

/-- An attempt at what needs an arrow comes to nothing. -/
theorem Complains.reads_attempt {α : Type} {p : Parser α} (h : Complains NoArrow p) :
    Reads room (attempt p) fs fs fun found => found = none := by
  intro t ht
  obtain ⟨e, t', hp⟩ := h t ht.cursor.noArrow
  exact ⟨none, t, attempt_eq_none hp, ht, rfl⟩

/-- What looks like the parameters of an arrow function is left for another reading. -/
theorem reads_arrow? (hg : KeepsInner NoArrow g) :
    Reads room (arrow? g) fs fs fun found => found = none := by
  refine .get fun c hc => ?_
  have hahead : Complains NoArrow (do
      if c.atWord "async" && c.sameLine 1 && c.seesAny 1 [.identifier, .lParen, .lt] then skip
      arrowHead g) := by
    dsimp only
    split
    · exact keeps_skip.complains fun _ => complains_arrowHead hg
    · exact complains_arrowHead hg
  dsimp only
  rw [hc.noArrow.sees, Bool.and_false, Bool.false_and, if_neg (by decide)]
  by_cases hparams : (!c.seesAny (if c.atWord "async" && c.sameLine 1 &&
      c.seesAny 1 [.identifier, .lParen, .lt] then 1 else 0) [.lParen, .lt]) = true
  · rw [if_pos hparams]
    exact .pure rfl
  · rw [if_neg hparams]
    refine hahead.reads_attempt.bind fun found hfound => ?_
    rw [hfound]
    exact .pure rfl

/-! ### Expressions without commas -/

variable {power need : Nat} {ts ys ns : List Form} {s : Span}

def assignEnds : List Kind := [.eof, .rParen, .rBracket, .comma, .colon]

theorem endsOperand_of_mem_assignEnds : ∀ k ∈ assignEnds, endsOperand k = true := by decide

theorem kindPower_of_mem_assignEnds : ∀ k ∈ assignEnds, kindPower k = 0 := by decide

theorem assignOp?_of_mem_assignEnds : ∀ k ∈ assignEnds, assignOp? k = none := by decide

theorem question_notMem_assignEnds : Kind.question ∉ assignEnds := by decide

theorem question_kind : (Form.of "?").kind = .question := by decide
theorem colon_kind : (Form.of ":").kind = .colon := by decide

theorem assignOp?_kind (op : AssignOp) : assignOp? (Form.of op.text).kind = some op := by
  cases op <;> decide

theorem ends_assignOp (op : AssignOp) :
    endsOperand (Form.of op.text).kind = true ∧ kindPower (Form.of op.text).kind = 0 ∧
      (Form.of op.text).kind ≠ .question := by
  cases op <;> decide

/-- The tokens of an expression that is read as one without commas, with more levels of the grammar
around it. -/
structure ReadsAssign (room : Nat) (g : Inner) (fs : List Form) (e : Expr) : Prop where
  starts : headKind fs ∈ operandKinds
  reads : ∀ gs, headKind gs ∈ assignEnds → Reads room (g.assign) (fs ++ gs) gs (Restores e)

/-- Operators up to a token that is none. -/
theorem ReadsBinary.whole (h : ReadsBinary room g power need fs e) (hpower : 1 < power)
    (hneed : 0 < need) (hgs : endsOperand (headKind gs) = true)
    (hzero : kindPower (headKind gs) = 0) {c : Cursor} (hc : c.On (fs ++ gs)) :
    Reads room (binaryUpTo g c.remaining 1) (fs ++ gs) gs (Restores e) := by
  rw [hc.remaining]
  exact h.finish hpower le_rfl hgs (by omega) (.inl hzero)

/-- A test that nothing is chosen with. -/
theorem reads_conditional {Q : Expr → Prop}
    (h : ∀ c : Cursor, c.On fs → Reads room (binaryUpTo g c.remaining 1) fs gs Q)
    (hq : headKind gs ≠ .question) : Reads room (conditional g) fs gs Q := by
  refine .get fun c hc => .bind (h c hc) fun a ha => ?_
  refine .bind (reads_accept_ne hq) fun found hfound => ?_
  rw [if_neg (by simp [hfound])]
  exact .pure ha

theorem ReadsBinary.test (h : ReadsBinary room g power need fs e) (hpower : 1 < power)
    (hneed : 0 < need) (hgs : endsOperand (headKind gs) = true)
    (hzero : kindPower (headKind gs) = 0) (hq : headKind gs ≠ .question) :
    Reads room (conditional g) (fs ++ gs) gs (Restores e) :=
  reads_conditional (fun _ hc => h.whole hpower hneed hgs hzero hc) hq

/-- A choice between two values. -/
theorem ReadsBinary.choice (h : ReadsBinary room g power need ts a) (hpower : 1 < power)
    (hneed : 0 < need) (hyes : ReadsAssign room g ys b) (hno : ReadsAssign room g ns e)
    (hgs : headKind gs ∈ assignEnds) :
    Reads room (conditional g) (ts ++ .of "?" :: (ys ++ .of ":" :: ns) ++ gs) gs
      (Restores (.conditional s a b e)) := by
  rw [List.append_assoc, List.cons_append, List.append_assoc, List.cons_append]
  have hq : headKind (Form.of "?" :: (ys ++ Form.of ":" :: (ns ++ gs))) = .question := question_kind
  have hcolon : headKind (Form.of ":" :: (ns ++ gs)) = .colon := colon_kind
  refine .get fun c hc => ?_
  refine .bind (h.whole hpower hneed (by rw [hq]; decide) (by rw [hq]; decide) hc) fun a' ha => ?_
  refine .bind (reads_accept question_kind) fun found hfound => ?_
  rw [if_pos hfound]
  refine .bind (.withIn (hyes.reads _ (by rw [hcolon]; decide))) fun b' hb => ?_
  refine .bind (reads_token colon_kind) fun _ _ => .bind (hno.reads gs hgs) fun e' he => .pure ?_
  rw [Restores, Expr.bare, Expr.bare, ha, hb, he]

def assignRest (g : Inner) (target : Expr) : Parser Expr := do
  match assignOp? (← get).current.kind with
  | some op =>
    unless isTarget op target do throw ⟨.invalidTarget, target.span⟩
    skip
    let value ← g.assign
    return .assign (target.span.merge value.span) target op value
  | none => return target

theorem reads_assignRest_none {target : Expr} {Q : Expr → Prop} (hgs : headKind gs ∈ assignEnds)
    (ha : Q target) : Reads room (assignRest g target) gs gs Q := by
  refine .get fun c hc => ?_
  have hop : assignOp? c.current.kind = none := by
    rw [hc.kind]
    exact assignOp?_of_mem_assignEnds _ hgs
  simp only [hop]
  exact .pure ha

theorem reads_assignRest {target : Expr} (op : AssignOp) (hplace : a.isPlace = true)
    (ha : Restores a target) (hb : ReadsAssign room g fs b) (hgs : headKind gs ∈ assignEnds) :
    Reads room (assignRest g target) (.of op.text :: (fs ++ gs)) gs (Restores (.assign s a op b)) := by
  refine .get fun c hc => ?_
  have hop : assignOp? c.current.kind = some op := by
    rw [hc.kind]
    exact assignOp?_kind op
  have htarget : isTarget op target = true := isTarget_of_isPlace op _ (ha ▸ isPlace_bare a hplace)
  simp only [hop, htarget]
  refine .bind reads_skip fun _ _ => .bind (hb.reads gs hgs) fun b' hb' => .pure ?_
  rw [Restores, Expr.bare, Expr.bare, ha, hb']

/-- What is no arrow function and no `yield` starts with a target. -/
theorem reads_assignBody {hs : List Form} {P Q : Expr → Prop} (hg : KeepsInner NoArrow g)
    (hyield : headKind fs ≠ .kwYield) (h : Reads room (conditional g) fs gs P)
    (hrest : ∀ target, P target → Reads room (assignRest g target) gs hs Q) :
    Reads room (assignBody g) fs hs Q := by
  refine .bind (reads_arrow? hg) fun found hfound => ?_
  rw [hfound]
  refine .get fun c hc => ?_
  rw [hc.at_ne hyield, if_neg (by decide)]
  exact h.bind hrest

theorem yield_ne_headKind (h : headKind fs ∈ operandKinds) (gs : List Form) :
    headKind (fs ++ gs) ≠ .kwYield := by
  rw [headKind_append (ne_nil_of_mem h (by decide))]
  intro e
  exact absurd (e ▸ h) (by decide)

/-- Operators alone. -/
theorem ReadsBinary.assign (h : ReadsBinary room g power need fs e) (hg : KeepsInner NoArrow g)
    (hpower : 1 < power) (hneed : 0 < need) : ReadsAssign (room + 1) g.outward fs e where
  starts := h.starts
  reads gs hgs := by
    refine .nested (reads_assignBody hg (yield_ne_headKind h.starts gs)
      (h.test hpower hneed ?_ ?_ ?_) fun _ ha => reads_assignRest_none hgs ha)
    · exact endsOperand_of_mem_assignEnds _ hgs
    · exact kindPower_of_mem_assignEnds _ hgs
    · exact fun e => question_notMem_assignEnds (e ▸ hgs)

/-- A choice between two values. -/
theorem ReadsBinary.conditional (h : ReadsBinary room g power need ts a) (hg : KeepsInner NoArrow g)
    (hpower : 1 < power) (hneed : 0 < need) (hyes : ReadsAssign room g ys b) (hno : ReadsAssign room g ns e) :
    ReadsAssign (room + 1) g.outward (ts ++ .of "?" :: (ys ++ .of ":" :: ns)) (.conditional s a b e) where
  starts := by
    rw [headKind_append (ne_nil_of_mem h.starts (by decide))]
    exact h.starts
  reads gs hgs := by
    refine .nested (reads_assignBody hg ?_ (h.choice hpower hneed hyes hno hgs) fun _ ha =>
      reads_assignRest_none hgs ha)
    rw [List.append_assoc]
    exact yield_ne_headKind h.starts _

/-- An assignment to a place. -/
theorem ReadsBinary.assignment (h : ReadsBinary room g power need ts a) (hg : KeepsInner NoArrow g)
    (hpower : 1 < power) (hneed : 0 < need) (op : AssignOp) (hplace : a.isPlace = true)
    (hb : ReadsAssign room g fs b) :
    ReadsAssign (room + 1) g.outward (ts ++ .of op.text :: fs) (.assign s a op b) where
  starts := by
    rw [headKind_append (ne_nil_of_mem h.starts (by decide))]
    exact h.starts
  reads gs hgs := by
    obtain ⟨hends, hzero, hq⟩ := ends_assignOp op
    rw [List.append_assoc, List.cons_append]
    exact .nested (reads_assignBody hg (yield_ne_headKind h.starts _)
      (h.test hpower hneed hends hzero hq) fun _ ha => reads_assignRest op hplace ha hb hgs)

/-! ### Expressions with commas -/

def wholeEnds : List Kind := [.eof, .rParen, .rBracket]

theorem mem_assignEnds : ∀ k ∈ wholeEnds, k ∈ assignEnds := by decide

theorem comma_notMem_wholeEnds : Kind.comma ∉ wholeEnds := by decide

structure ReadsWhole (room : Nat) (g : Inner) (fs : List Form) (e : Expr) : Prop where
  starts : headKind fs ∈ operandKinds
  reads : ∀ gs, headKind gs ∈ wholeEnds → Reads room (expression g) (fs ++ gs) gs (Restores e)

theorem reads_expression {Q : Expr → Prop} (h : Reads room g.assign fs gs Q)
    (hgs : headKind gs ∈ wholeEnds) : Reads room (expression g) fs gs Q := by
  have hcomma : headKind gs ≠ .comma := fun e => comma_notMem_wholeEnds (e ▸ hgs)
  refine h.bind fun a ha => .get fun c hc => ?_
  rw [hc.at_ne hcomma, if_pos (by decide)]
  exact .pure ha

theorem ReadsAssign.whole (h : ReadsAssign room g fs e) : ReadsWhole room g fs e where
  starts := h.starts
  reads gs hgs := reads_expression (h.reads gs (mem_assignEnds _ hgs)) hgs

/-- Expressions after commas, up to what ends them. -/
theorem collects_sequence {es : List Expr} (h : ∀ e ∈ es, ReadsAssign room g e.argForm e)
    (hgs : headKind gs ∈ wholeEnds) :
    Collects room (after .comma (g.assign)) (fun e a => a.bare = e.bare)
      ((es.map fun e => .of "," :: e.argForm).flatten ++ gs) es gs := by
  induction es with
  | nil => exact .nil (reads_after_ne fun e => comma_notMem_wholeEnds (e ▸ hgs))
  | cons e es ih =>
    obtain ⟨he, hes⟩ := List.forall_mem_cons.1 h
    rw [List.map_cons, List.flatten_cons, List.append_assoc, List.cons_append]
    refine .cons (reads_after comma_kind (he.reads _ ?_)) ?_ (ih hes)
    · cases es with
      | nil => exact mem_assignEnds _ hgs
      | cons e' es => exact show (Form.of ",").kind ∈ assignEnds by decide
    · simp only [List.length_append, List.length_cons]
      omega

theorem separated_eq (fs : List Form) (fss : List (List Form)) :
    separated (fs :: fss) = fs ++ (fss.map fun gs => .of "," :: gs).flatten := by
  induction fss generalizing fs with
  | nil => simp [separated]
  | cons gs fss ih => rw [separated_cons _ (by simp), ih gs, List.map_cons, List.flatten_cons]; rfl

/-- Several expressions between commas. -/
theorem readsWhole_sequence {es : List Expr} (htwo : 2 ≤ es.length)
    (h : ∀ e ∈ es, ReadsAssign room g e.argForm e) :
    ReadsWhole room g (separated (Expr.argForms es)) (.sequence s es) := by
  match es, htwo with
  | e :: e' :: es, _ =>
    obtain ⟨he, hes⟩ := List.forall_mem_cons.1 h
    have hne := ne_nil_of_mem he.starts (by decide)
    rw [Expr.argForms_eq_map, List.map_cons, separated_eq, List.map_map]
    refine ⟨by rw [headKind_append hne]; exact he.starts, fun gs hgs => ?_⟩
    rw [List.append_assoc]
    refine .bind (he.reads _ (show (Form.of ",").kind ∈ assignEnds by decide)) fun a ha => ?_
    refine .get fun c hc => ?_
    rw [hc.at_head (k := .comma) comma_kind, if_neg (by decide)]
    refine .bind (reads_collect (collects_sequence hes hgs)) fun as has =>
      .bind (reads_since _) fun _ _ => .pure ?_
    rw [Restores, Expr.bare, Expr.bare, bareAll_eq (.cons ha has)]

/-! ### Expressions inside others -/

/-- An expression in parentheses is a primary one, whatever it is. -/
theorem ReadsWhole.primary (h : ReadsWhole room g fs e) :
    ReadsPrimary room g (.of "(" :: (fs ++ [.of ")"])) e where
  starts := show (Form.of "(").kind ∈ primaryKinds by decide
  reads heritage gs _ := by
    refine .get fun c hc => ?_
    have hk : c.current.kind = .lParen := hc.kind.trans lParen_kind
    have hend : (Form.of ")").kind ∈ wholeEnds := by decide
    simp only [hk]
    rw [List.cons_append, List.append_assoc]
    have hinner : Reads room (parenthesized g) (.of "(" :: (fs ++ .of ")" :: gs)) gs (Restores e) :=
      .bind (reads_token lParen_kind) fun _ _ => .bind (.withIn (h.reads _ hend)) fun a ha =>
        .bind (reads_token rParen_kind) fun _ _ => .pure ha
    exact .bind hinner fun a ha => .bind (reads_since _) fun _ _ =>
      .pure (by rw [Restores, Expr.bare_paren]; exact ha)

/-- An element or argument that is not spread. -/
theorem ReadsAssign.element (h : ReadsAssign room g e.argForm e) {closer : Kind}
    (hcloser : closer ∈ [Kind.rBracket, .rParen]) :
    ReadsElement room (spreadable g) closer (fun e a => a.bare = e.bare) Expr.argForm e where
  starts := by
    have hall : ∀ k ∈ [Kind.rBracket, .rParen], ∀ s ∈ operandKinds,
        s ≠ k ∧ s ≠ .comma ∧ s ≠ .eof := by decide
    exact hall closer hcloser _ h.starts
  reads gs hgs := by
    have hdots : headKind (e.argForm ++ gs) ≠ .dotDotDot := by
      rw [headKind_append (ne_nil_of_mem h.starts (by decide))]
      intro e
      exact absurd (e ▸ h.starts) (by decide)
    have hend : headKind gs ∈ assignEnds := by
      have hall : ∀ k ∈ [Kind.rBracket, .rParen], k ∈ assignEnds := by decide
      rcases hgs with hgs | hgs
      · exact hgs ▸ show Kind.comma ∈ assignEnds by decide
      · exact hgs ▸ hall closer hcloser
    refine .bind (reads_here) fun _ _ => .bind (reads_accept_ne hdots) fun found hfound => ?_
    rw [if_neg (by simp [hfound])]
    exact h.reads gs hend

end TypeStrip.Grammar
