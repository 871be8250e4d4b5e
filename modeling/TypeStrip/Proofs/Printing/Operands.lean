import TypeStrip.Grammar.Program
import TypeStrip.Proofs.Printing.Lists

/-!
Operands: accesses to members and calls are read link by link, and prefix and postfix operators
around them.
-/
namespace TypeStrip.Grammar
open TypeStrip.Token (Kind Form kindOfWord_cases)

variable {room : Nat} {g : Inner} {fs gs ls : List Form} {e a : Expr}

/-- An expression that is read for another one, which it is apart from parentheses and places. -/
def Restores (e : Expr) (a : Expr) : Prop := a.bare = e.bare

/-! ### What goes on after an expression -/

def endsLinks (k : Kind) : Bool :=
  !([Kind.dot, .questionDot, .lBracket, .lParen, .lt, .bang, .template, .kwFunction].contains k)

def endsOperand (k : Kind) : Bool :=
  endsLinks k && !([Kind.plusPlus, .minusMinus, .identifier].contains k)

/-! ### Primary expressions -/

def primaryKinds : List Kind :=
  [.number, .string, .kwTrue, .kwFalse, .kwNull, .kwThis, .identifier, .lParen, .lBracket]

structure ReadsPrimary (room : Nat) (g : Inner) (fs : List Form) (e : Expr) : Prop where
  starts : headKind fs ∈ primaryKinds
  reads : ∀ heritage gs, headKind gs ≠ .kwFunction →
    Reads room (primary g heritage) (fs ++ gs) gs (Restores e)

theorem readsPrimary_number {x : Float} {s : Span} (h : Number.ReadsBack x) :
    ReadsPrimary room g [Literal.form (.number x)] (.literal s (.number x)) where
  starts := show Kind.number ∈ primaryKinds by decide
  reads heritage gs _ := by
    refine .get fun c hc => ?_
    have hk : c.current.kind = .number := hc.kind
    have hv : numberOf c.current = x := by
      rw [numberOf, Token.numberValue?, hc.value, Literal.form, h.parse, Option.getD_some]
    simp only [hk]
    exact .bind reads_skip fun _ _ => .pure (by rw [hv, Restores, Expr.bare, Expr.bare])

theorem reads_primary_string (heritage : Parser Expr) (value : String) :
    Reads room (primary g heritage) (Literal.form (.string value) :: gs) gs fun e =>
      ∃ s, e = .literal s (.string value) := by
  refine .get fun c hc => ?_
  have hk : c.current.kind = .string := hc.kind
  have hv : c.current.value = value := hc.value
  simp only [hk]
  exact .bind reads_skip fun _ _ => .pure ⟨_, by rw [hv]⟩

theorem readsPrimary_string {value : String} {s : Span} :
    ReadsPrimary room g [Literal.form (.string value)] (.literal s (.string value)) where
  starts := show Kind.string ∈ primaryKinds by decide
  reads heritage _ _ := (reads_primary_string heritage value).mono fun e he => by
    obtain ⟨s', rfl⟩ := he
    rw [Restores, Expr.bare, Expr.bare]

theorem readsPrimary_boolean {value : Bool} {s : Span} :
    ReadsPrimary room g [Literal.form (.boolean value)] (.literal s (.boolean value)) where
  starts := by cases value <;> decide
  reads heritage gs _ := by
    refine .get fun c hc => ?_
    cases value with
    | false =>
      have hk : c.current.kind = .kwFalse := hc.kind.trans (show (Form.of "false").kind = .kwFalse by decide)
      simp only [hk]
      exact .bind reads_skip fun _ _ => .pure (by rw [Restores, Expr.bare, Expr.bare])
    | true =>
      have hk : c.current.kind = .kwTrue := hc.kind
      simp only [hk]
      exact .bind reads_skip fun _ _ => .pure (by rw [Restores, Expr.bare, Expr.bare])

theorem readsPrimary_null {s : Span} : ReadsPrimary room g [Literal.form .null] (.literal s .null) where
  starts := by decide
  reads heritage gs _ := by
    refine .get fun c hc => ?_
    have hk : c.current.kind = .kwNull := hc.kind
    simp only [hk]
    exact .bind reads_skip fun _ _ => .pure (by rw [Restores, Expr.bare, Expr.bare])

theorem readsPrimary_this {s : Span} : ReadsPrimary room g [.of "this"] (.this s) where
  starts := by decide
  reads heritage gs _ := by
    refine .get fun c hc => ?_
    have hk : c.current.kind = .kwThis := hc.kind
    simp only [hk]
    exact .bind reads_skip fun _ _ => .pure (by rw [Restores, Expr.bare, Expr.bare])

theorem headKind_ident {name : String} (h : Token.IsIdentifier name) (gs : List Form) :
    headKind (.of name :: gs) ∈ primaryKinds := by
  rw [Form.of_word h.word, h.kind]
  exact show Kind.identifier ∈ primaryKinds by decide

/-- A name is read as a variable. It could only be the word in front of a function if one
followed. -/
theorem reads_primary_ident (heritage : Parser Expr) {name : String} (h : Token.IsIdentifier name)
    (hgs : headKind gs ≠ .kwFunction) :
    Reads room (primary g heritage) (.of name :: gs) gs fun e => ∃ s, e = .ident s name := by
  refine .get fun c hc => ?_
  rw [Form.of_word h.word, h.kind] at hc
  have hk : c.current.kind = .identifier := hc.kind
  have hv : c.current.value = name := hc.value
  have hf : c.sees 1 .kwFunction = false := (hc.sees_one _).trans (beq_eq_false_iff_ne.2 hgs)
  simp only [hk, hf]
  rw [Form.of_word h.word]
  refine .bind reads_skip fun _ _ => ?_
  rw [if_neg (by simp)]
  exact .pure ⟨_, by rw [hv]⟩

theorem readsPrimary_ident {name : String} {s : Span} (h : Token.IsIdentifier name) :
    ReadsPrimary room g [.of name] (.ident s name) where
  starts := headKind_ident h []
  reads heritage gs hgs := (reads_primary_ident heritage h hgs).mono fun e he => by
    obtain ⟨s', rfl⟩ := he
    rw [Restores, Expr.bare, Expr.bare]

theorem readsPrimary_array {es : List Expr} {s : Span} (h : ∀ e ∈ es, ReadsHoled room g e) :
    ReadsPrimary room g (.of "[" :: (separated (elementForms es) ++ [.of "]"])) (.array s es) where
  starts := by
    show (Form.of "[").kind ∈ primaryKinds
    decide
  reads heritage gs _ := by
    refine .get fun c hc => ?_
    have hk : c.current.kind = .lBracket := hc.kind.trans lBracket_kind
    simp only [hk]
    rw [List.cons_append, List.append_assoc]
    refine .bind (reads_arrayLiteral h gs) fun as has => .bind (reads_since _) fun _ _ => .pure ?_
    rw [Restores, Expr.bare, Expr.bare, has]

/-! ### Chains of accesses and calls -/

/-- A word names a member, also when it is reserved. -/
theorem reads_anyName {name : String} (h : Text.isWord name = true) :
    Reads room anyName (.of name :: gs) gs fun n => n.text = name := by
  refine .get fun c hc => ?_
  rw [Form.of_word h] at hc ⊢
  have hname : c.atName = true := by
    rw [Cursor.atName, hc.kind]
    rcases kindOfWord_cases name with hk | hk
    · exact Bool.or_eq_true_iff.2 (.inl (beq_iff_eq.2 hk))
    · exact Bool.or_eq_true_iff.2 (.inr hk)
  rw [if_pos hname]
  refine .bind reads_take fun t ht => .pure ?_
  exact congrArg Form.value ht

/-- The tokens of an expression that is read as a chain of accesses and calls, to which more of
them may be added. -/
structure ReadsChain (room : Nat) (g : Inner) (fs : List Form) (e : Expr) : Prop where
  starts : headKind fs ∈ primaryKinds
  reads : ∀ gs, headKind gs ≠ .kwFunction → ∀ t : Tape, t.On room (fs ++ gs) →
    ∃ a t' start fuel, leftHandSide g t = extendUpTo (link g start true) fuel a t' ∧
      t'.On room gs ∧ gs.length < fuel ∧ Restores e a

theorem ne_nil_of_mem {kinds : List Kind} (h : headKind fs ∈ kinds) (heof : Kind.eof ∉ kinds) :
    fs ≠ [] := by
  rintro rfl
  exact heof h

/-- Without the word `new` there is a primary expression first and then its chain. -/
theorem leftHandSide_eq {t : Tape} (ht : t.On room fs) (hs : headKind fs ∈ primaryKinds) :
    leftHandSide g t =
      (primary g (leftHandSideUpTo g fs.length true) >>= extend (link g t.current.span true)) t := by
  have hnew : t.cursor.at_ .kwNew = false := ht.cursor.at_ne fun e => absurd (e ▸ hs) (by decide)
  show leftHandSideUpTo g t.cursor.remaining true t = _
  rw [ht.cursor.remaining, leftHandSideUpTo]
  show (ite (t.cursor.at_ .kwNew = true) _ _ : Parser Expr) t = _
  rw [hnew]
  rfl

theorem ReadsPrimary.chain (h : ReadsPrimary room g fs e) : ReadsChain room g fs e where
  starts := h.starts
  reads gs hgs t ht := by
    have hhead := headKind_append (ne_nil_of_mem h.starts (by decide)) gs
    obtain ⟨a, t', hr, ht', ha⟩ := h.reads (leftHandSideUpTo g (fs ++ gs).length true) gs hgs t ht
    have hremaining := ht'.cursor.remaining
    refine ⟨a, t', t.current.span, t'.cursor.remaining, ?_, ht', by omega, ha⟩
    rw [leftHandSide_eq ht (hhead ▸ h.starts), bind_eq_of_ok hr]
    rfl

def ReadsLink (room : Nat) (g : Inner) (a : Expr) (ls : List Form) (e : Expr) : Prop :=
  ∀ start a', Restores a a' → ∀ gs, headKind gs ≠ .kwFunction →
    Reads room (link g start true a') (ls ++ gs) gs fun found => ∃ b, found = some b ∧ Restores e b

theorem ReadsChain.link (h : ReadsChain room g fs a) (hl : ReadsLink room g a ls e) (hne : ls ≠ [])
    (hfun : headKind ls ≠ .kwFunction) : ReadsChain room g (fs ++ ls) e where
  starts := by
    rw [headKind_append (ne_nil_of_mem h.starts (by decide))]
    exact h.starts
  reads gs hgs t ht := by
    rw [List.append_assoc] at ht
    obtain ⟨a', t', start, fuel, hr, ht', hfuel, ha⟩ :=
      h.reads (ls ++ gs) (by rw [headKind_append hne]; exact hfun) t ht
    have hpos : 0 < ls.length := List.length_pos_iff.2 hne
    rw [List.length_append] at hfuel
    cases fuel with
    | zero => exact absurd hfuel (Nat.not_lt_zero _)
    | succ fuel =>
      obtain ⟨found, t'', hstep, ht'', b, rfl, hb⟩ := hl start a' ha gs hgs t' ht'
      refine ⟨b, t'', start, fuel, ?_, ht'', by omega, hb⟩
      rw [hr, extendUpTo, bind_eq_of_ok hstep]

/-- Nothing is added to a chain in front of a token that does not go on with it. -/
theorem reads_link_none {gs : List Form} (h : endsLinks (headKind gs) = true) (start : Span) :
    Reads room (link g start true a) gs gs fun found => found = none := by
  refine .get fun c hc => ?_
  rw [← hc.kind] at h
  split
  all_goals first
    | exact .pure rfl
    | rename_i hk
      rw [hk] at h
      exact absurd h (by decide)

theorem ReadsChain.finish (h : ReadsChain room g fs e) {gs : List Form}
    (hgs : endsLinks (headKind gs) = true) : Reads room (leftHandSide g) (fs ++ gs) gs (Restores e) := by
  intro t ht
  have hfun : headKind gs ≠ .kwFunction := fun e => by
    rw [e] at hgs
    exact absurd hgs (by decide)
  obtain ⟨a, t', start, fuel, hr, ht', hfuel, ha⟩ := h.reads gs hfun t ht
  cases fuel with
  | zero => exact absurd hfuel (Nat.not_lt_zero _)
  | succ fuel =>
    obtain ⟨found, t'', hstep, ht'', rfl⟩ := reads_link_none (g := g) (a := a) hgs start t' ht'
    exact ⟨a, t'', by rw [hr, extendUpTo, bind_eq_of_ok hstep]; rfl, ht'', ha⟩

/-! ### Accesses and calls -/

theorem reads_link_member {name : String} (h : Text.isWord name = true) (start : Span) :
    Reads room (link g start true a) (.of "." :: .of name :: gs) gs fun found =>
      ∃ s n, found = some (.member s a n) ∧ n.text = name := by
  refine .get fun c hc => ?_
  have hk : c.current.kind = .dot := hc.kind.trans (show (Form.of ".").kind = .dot by decide)
  simp only [hk]
  exact .bind reads_skip fun _ _ => .bind (reads_anyName h) fun n hn => .pure ⟨_, n, rfl, hn⟩

theorem readsLink_member {name : Name} {s : Span} (h : Text.isWord name.text = true) :
    ReadsLink room g a [.of ".", .of name.text] (.member s a name) := by
  intro start a' ha gs _
  refine (reads_link_member h start).mono fun found hfound => ?_
  obtain ⟨s', n, rfl, hn⟩ := hfound
  exact ⟨_, rfl, by rw [Restores, Expr.bare, Expr.bare, ha, hn]⟩

/-- An index is read between its brackets. -/
theorem reads_indexed {is : List Form} {Q : Expr → Prop}
    (h : ∀ gs, headKind gs = .rBracket → Reads room (expression g) (is ++ gs) gs Q) :
    Reads room (indexed g) (.of "[" :: (is ++ .of "]" :: gs)) gs Q :=
  .bind (reads_token lBracket_kind) fun _ _ => .bind (.withIn (h _ rBracket_kind)) fun _ hi =>
    .bind (reads_token rBracket_kind) fun _ _ => .pure hi

theorem reads_link_index {is : List Form} {Q : Expr → Prop}
    (h : ∀ gs, headKind gs = .rBracket → Reads room (expression g) (is ++ gs) gs Q) (start : Span) :
    Reads room (link g start true a) (.of "[" :: (is ++ .of "]" :: gs)) gs fun found =>
      ∃ s i, found = some (.index s a i) ∧ Q i := by
  refine .get fun c hc => ?_
  have hk : c.current.kind = .lBracket := hc.kind.trans lBracket_kind
  simp only [hk]
  exact .bind (reads_indexed h) fun i hi => .bind (reads_since _) fun _ _ => .pure ⟨_, i, rfl, hi⟩

theorem readsLink_index {i : Expr} {is : List Form} {s : Span}
    (h : ∀ gs, headKind gs = .rBracket → Reads room (expression g) (is ++ gs) gs (Restores i)) :
    ReadsLink room g a (.of "[" :: (is ++ [.of "]"])) (.index s a i) := by
  intro start a' ha gs _
  rw [List.cons_append, List.append_assoc]
  refine (reads_link_index h start).mono fun found hfound => ?_
  obtain ⟨s', i', rfl, hi⟩ := hfound
  exact ⟨_, rfl, by rw [Restores, Expr.bare, Expr.bare, ha, hi]⟩

theorem readsLink_call {es : List Expr} {s : Span}
    (h : ∀ e ∈ es, ReadsElement room (spreadable g) .rParen (fun e a => a.bare = e.bare) Expr.argForm e) :
    ReadsLink room g a (.of "(" :: (separated (Expr.argForms es) ++ [.of ")"])) (.call s a [] es) := by
  intro start a' ha gs _
  refine .get fun c hc => ?_
  have hk : c.current.kind = .lParen := hc.kind.trans lParen_kind
  simp only [hk]
  rw [List.cons_append, List.append_assoc, if_neg (by decide)]
  refine .bind (reads_arguments h gs) fun as has => .bind (reads_since _) fun _ _ =>
    .pure ⟨_, rfl, ?_⟩
  rw [Restores, Expr.bare, Expr.bare, ha, has]

/-- An optional access, given how what follows its mark is read. -/
theorem readsLink_optional
    (h : ∀ start a', Restores a a' → ∀ gs, Reads room (optionalLink g start a') (ls ++ gs) gs (Restores e)) :
    ReadsLink room g a (.of "?." :: ls) e := by
  intro start a' ha gs _
  refine .get fun c hc => ?_
  have hk : c.current.kind = .questionDot :=
    hc.kind.trans (show (Form.of "?.").kind = .questionDot by decide)
  simp only [hk]
  exact .bind reads_skip fun _ _ => .bind (h start a' ha gs) fun b hb => .pure ⟨b, rfl, hb⟩

theorem reads_optionalMember {name : Name} {s start : Span} {a' : Expr}
    (h : Text.isWord name.text = true) (ha : Restores a a') (gs : List Form) :
    Reads room (optionalLink g start a') (.of name.text :: gs) gs (Restores (.optionalMember s a name)) := by
  refine .get fun c hc => ?_
  have hne {k : Kind} (hi : k ≠ .identifier) (hr : k.isReserved = false) : c.current.kind ≠ k := by
    rw [hc.kind, Form.of_word h]
    rintro rfl
    rcases kindOfWord_cases name.text with hk | hk
    · exact hi hk
    · exact absurd (hk.symm.trans hr) (by decide)
  split
  · exact absurd ‹_› (hne (by decide) (by decide))
  · exact absurd ‹_› (hne (by decide) (by decide))
  · exact absurd ‹_› (hne (by decide) (by decide))
  · refine .bind (reads_anyName h) fun n hn => .bind (reads_since _) fun _ _ => .pure ?_
    rw [Restores, Expr.bare, Expr.bare, ha, hn]

theorem reads_optionalIndex {i : Expr} {is : List Form} {s start : Span} {a' : Expr}
    (h : ∀ gs, headKind gs = .rBracket → Reads room (expression g) (is ++ gs) gs (Restores i))
    (ha : Restores a a') (gs : List Form) :
    Reads room (optionalLink g start a') (.of "[" :: (is ++ .of "]" :: gs)) gs
      (Restores (.optionalIndex s a i)) := by
  refine .get fun c hc => ?_
  have hk : c.current.kind = .lBracket := hc.kind.trans lBracket_kind
  simp only [hk]
  refine .bind (reads_indexed h) fun i' hi => .bind (reads_since _) fun _ _ => .pure ?_
  rw [Restores, Expr.bare, Expr.bare, ha, hi]

theorem reads_optionalCall {es : List Expr} {s start : Span} {a' : Expr}
    (h : ∀ e ∈ es, ReadsElement room (spreadable g) .rParen (fun e a => a.bare = e.bare) Expr.argForm e)
    (ha : Restores a a') (gs : List Form) :
    Reads room (optionalLink g start a')
      (.of "(" :: (separated (Expr.argForms es) ++ .of ")" :: gs)) gs
      (Restores (.optionalCall s a [] es)) := by
  refine .get fun c hc => ?_
  have hk : c.current.kind = .lParen := hc.kind.trans lParen_kind
  simp only [hk]
  refine .bind (reads_arguments h gs) fun as has => .bind (reads_since _) fun _ _ => .pure ?_
  rw [Restores, Expr.bare, Expr.bare, ha, has]

/-! ### Operators on one operand -/

def operandKinds : List Kind :=
  primaryKinds ++ [.bang, .tilde, .minus, .plus, .kwTypeof, .kwVoid, .kwDelete, .plusPlus,
    .minusMinus, .kwAwait]

structure ReadsOperand (room : Nat) (g : Inner) (fs : List Form) (e : Expr) : Prop where
  starts : headKind fs ∈ operandKinds
  reads : ∀ gs, endsOperand (headKind gs) = true → Reads room g.unary (fs ++ gs) gs (Restores e)

theorem endsLinks_of_endsOperand {k : Kind} (h : endsOperand k = true) : endsLinks k = true :=
  (Bool.and_eq_true_iff.1 h).1

/-- What is a place without its parentheses may be assigned to. -/
theorem isTarget_of_isPlace (op : AssignOp) :
    (a : Expr) → a.bare.isPlace = true → isTarget op a = true
  | .ident .., _ | .member .., _ | .index .., _ => rfl
  | .paren _ a, h => isTarget_of_isPlace op a (by rwa [Expr.bare_paren] at h)
  | .literal .., h | .this _, h | .super _, h | .binary .., h | .unary .., h | .assign .., h
  | .call .., h | .optionalCall .., h | .new .., h | .optionalMember .., h | .optionalIndex .., h
  | .array .., h | .object .., h | .arrow .., h | .function .., h | .cls .., h
  | .conditional .., h | .template .., h | .cast .., h | .satisfies .., h | .nonNull .., h
  | .await .., h | .yield .., h | .sequence .., h | .spread .., h | .omitted, h => by
    simp [Expr.bare, Expr.isPlace] at h

theorem isPlace_bare : (a : Expr) → a.isPlace = true → a.bare.isPlace = true
  | .ident .., _ | .member .., _ | .index .., _ => by simp [Expr.bare, Expr.isPlace]

/-- A chain in front of no update operator is an operand. -/
theorem reads_postfixExpr {Q : Expr → Prop} (h : Reads room (leftHandSide g) fs gs Q)
    (hgs : endsOperand (headKind gs) = true) : Reads room (postfixExpr g) fs gs Q := by
  refine h.bind fun a ha => .get fun c hc => ?_
  rw [← hc.kind] at hgs
  dsimp only
  split
  · rename_i hop
    split at hop
    · rename_i hk
      rw [hk] at hgs
      exact absurd hgs (by decide)
    · rename_i hk
      rw [hk] at hgs
      exact absurd hgs (by decide)
    · cases hop
  · exact .pure ha

theorem ReadsChain.reads_postfix (h : ReadsChain room g fs e) {gs : List Form}
    (hgs : endsOperand (headKind gs) = true) : Reads room (postfixExpr g) (fs ++ gs) gs (Restores e) :=
  reads_postfixExpr (h.finish (endsLinks_of_endsOperand hgs)) hgs

/-- A chain that is a place, in front of an update operator. -/
theorem ReadsChain.reads_update (h : ReadsChain room g fs a) (hplace : a.isPlace = true)
    {op : UnaryOp} (hop : op.isPostfix = true) (s : Span) (gs : List Form) :
    Reads room (postfixExpr g) (fs ++ .of op.text :: gs) gs (Restores (.unary s op a)) := by
  have hends : endsLinks (headKind (Form.of op.text :: gs)) = true := by
    show endsLinks (Form.of op.text).kind = true
    revert hop
    cases op <;> decide
  refine .bind (h.finish hends) fun b hb => .get fun c hc => ?_
  have htarget : isTarget .add b = true := isTarget_of_isPlace _ b (hb ▸ isPlace_bare a hplace)
  have hline : c.current.newlineBefore = false := hc.newlineBefore
  have hread : Reads room (do skip; return Expr.unary (← since b.span) op b) (.of op.text :: gs) gs
      (Restores (.unary s op a)) :=
    .bind reads_skip fun _ _ => .bind (reads_since _) fun _ _ =>
      .pure (by rw [Restores, Expr.bare, Expr.bare, hb])
  cases op with
  | postIncrement =>
    have hk : c.current.kind = .plusPlus := hc.kind.trans (show (Form.of "++").kind = _ by decide)
    simp only [hk, hline, htarget]
    exact hread
  | postDecrement =>
    have hk : c.current.kind = .minusMinus := hc.kind.trans (show (Form.of "--").kind = _ by decide)
    simp only [hk, hline, htarget]
    exact hread
  | _ => exact absurd hop (by decide)

theorem prefixOp?_eq_none : ∀ k ∈ primaryKinds, prefixOp? k = none := by decide

/-- An operand without a prefix operator. -/
theorem reads_unaryBody {Q : Expr → Prop} (hs : headKind fs ∈ primaryKinds)
    (h : Reads room (postfixExpr g) fs gs Q) : Reads room (unaryBody g) fs gs Q := by
  have hne {k : Kind} (hk : k ∉ primaryKinds) : headKind fs ≠ k := fun e => hk (e ▸ hs)
  refine .get fun c hc => ?_
  have hop : prefixOp? c.current.kind = none := by
    rw [hc.kind]
    exact prefixOp?_eq_none _ hs
  simp only [hop]
  refine .bind (reads_accept_ne (hne (by decide))) fun found hfound => ?_
  rw [if_neg (by simp [hfound])]
  refine .bind (reads_accept_ne (hne (by decide))) fun found hfound => ?_
  rw [if_neg (by simp [hfound])]
  exact h

/-- An operand without a prefix operator is read one level further in. -/
theorem readsOperand_of_postfix (hs : headKind fs ∈ primaryKinds)
    (h : ∀ gs, endsOperand (headKind gs) = true →
      Reads room (postfixExpr g) (fs ++ gs) gs (Restores e)) : ReadsOperand (room + 1) g.outward fs e where
  starts := List.mem_append_left _ hs
  reads gs hgs := by
    have hhead := headKind_append (ne_nil_of_mem hs (by decide)) gs
    exact .nested (reads_unaryBody (hhead ▸ hs) (h gs hgs))

theorem ReadsChain.operand (h : ReadsChain room g fs e) : ReadsOperand (room + 1) g.outward fs e :=
  readsOperand_of_postfix h.starts fun _ hgs => h.reads_postfix hgs

theorem ReadsChain.update (h : ReadsChain room g fs a) (hplace : a.isPlace = true) {op : UnaryOp}
    (hop : op.isPostfix = true) (s : Span) :
    ReadsOperand (room + 1) g.outward (fs ++ [.of op.text]) (.unary s op a) := by
  have hhead := headKind_append (ne_nil_of_mem h.starts (by decide)) [.of op.text]
  refine readsOperand_of_postfix (hhead ▸ h.starts) fun gs _ => ?_
  rw [List.append_assoc]
  exact h.reads_update hplace hop s gs

/-- A prefix operator with its operand. An update operator needs a place. -/
theorem ReadsOperand.prefixed (h : ReadsOperand room g fs a) {op : UnaryOp} (hop : op.isPostfix = false)
    (hplace : op.isUpdate = true → a.isPlace = true) (s : Span) :
    ReadsOperand (room + 1) g.outward (.of op.text :: fs) (.unary s op a) where
  starts := by
    show (Form.of op.text).kind ∈ operandKinds
    revert hop
    cases op <;> decide
  reads gs hgs := by
    refine .nested (.get fun c hc => ?_)
    have hk : prefixOp? c.current.kind = some op := by
      rw [hc.kind]
      show prefixOp? (Form.of op.text).kind = some op
      revert hop
      cases op <;> decide
    simp only [hk]
    refine .bind reads_skip fun _ _ => .bind (h.reads gs hgs) fun b hb => ?_
    have htarget : ¬(op.isUpdate && !isTarget .add b) = true := by
      cases hu : op.isUpdate with
      | false => simp
      | true => simp [isTarget_of_isPlace .add b (hb ▸ isPlace_bare a (hplace hu))]
    rw [if_neg htarget]
    exact .pure (by rw [Restores, Expr.bare, Expr.bare, hb])

theorem ReadsOperand.await (h : ReadsOperand room g fs a) (s : Span) :
    ReadsOperand (room + 1) g.outward (.of "await" :: fs) (.await s a) where
  starts := by
    show (Form.of "await").kind ∈ operandKinds
    decide
  reads gs hgs := by
    have hword : (Form.of "await").kind = .kwAwait := by decide
    refine .nested (.get fun c hc => ?_)
    have hk : prefixOp? c.current.kind = none := by
      rw [hc.kind]
      show prefixOp? (Form.of "await").kind = none
      decide
    simp only [hk]
    refine .bind (reads_accept hword) fun found hfound => ?_
    rw [if_pos hfound]
    exact .bind (h.reads gs hgs) fun b hb => .pure (by rw [Restores, Expr.bare, Expr.bare, hb])

end TypeStrip.Grammar
