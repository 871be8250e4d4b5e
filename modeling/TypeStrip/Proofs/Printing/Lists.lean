import TypeStrip.Proofs.Printing.Reads
import TypeStrip.Proofs.Printing.Spelling

/-! Lists between brackets, in which commas stand between the elements. -/
namespace TypeStrip
open Token Grammar

theorem separated_cons (fs : List Form) {fss : List (List Form)} (h : fss ≠ []) :
    separated (fs :: fss) = fs ++ .of "," :: separated fss := by
  rw [separated, List.intercalate_cons_of_ne_nil h, List.append_assoc]
  rfl

theorem comma_kind : (Form.of ",").kind = .comma := by decide
theorem lParen_kind : (Form.of "(").kind = .lParen := by decide
theorem rParen_kind : (Form.of ")").kind = .rParen := by decide
theorem lBracket_kind : (Form.of "[").kind = .lBracket := by decide
theorem rBracket_kind : (Form.of "]").kind = .rBracket := by decide

theorem headKind_append {fs : List Form} (h : fs ≠ []) (gs : List Form) :
    headKind (fs ++ gs) = headKind fs := by
  cases fs with
  | nil => exact absurd rfl h
  | cons f fs => rfl

theorem ne_nil_of_headKind {fs : List Form} {k : Kind} (h : headKind fs = k) (hk : k ≠ .eof) :
    fs ≠ [] := by
  rintro rfl
  exact hk h.symm

namespace Grammar

variable {room : Nat} {α β : Type} {p : Parser α} {R : β → α → Prop} {w : β → List Form} {closer : Kind}
  {close : Form}

/-- A parser that reads the tokens of an element in front of a comma or of the closing token. -/
structure ReadsElement (room : Nat) (p : Parser α) (closer : Kind) (R : β → α → Prop) (w : β → List Form)
    (b : β) : Prop where
  starts : headKind (w b) ≠ closer ∧ headKind (w b) ≠ .comma ∧ headKind (w b) ≠ .eof
  reads : ∀ gs, headKind gs = .comma ∨ headKind gs = closer → Reads room p (w b ++ gs) gs (R b)

theorem reads_withComma_last {b : β} (h : ReadsElement room p closer R w b) (hclose : close.kind = closer)
    (rest : List Form) : Reads room (withComma closer p) (w b ++ close :: rest) (close :: rest) (R b) := by
  refine .bind (h.reads _ (.inr hclose)) fun a ha => .get fun c hc => ?_
  rw [if_pos (hc.at_head hclose)]
  exact .pure ha

theorem reads_withComma {b : β} (h : ReadsElement room p closer R w b) (hcloser : closer ≠ .comma)
    (rest : List Form) : Reads room (withComma closer p) (w b ++ .of "," :: rest) rest (R b) := by
  refine .bind (h.reads _ (.inl comma_kind)) fun a ha => .get fun c hc => ?_
  have hne : headKind (Form.of "," :: rest) ≠ closer := fun e => hcloser (e.symm.trans comma_kind)
  rw [if_neg (by rw [hc.at_ne hne]; decide)]
  exact .bind (reads_expect comma_kind).discard fun _ _ => .pure ha

theorem collects_commaSeparated {bs : List β} (hclose : close.kind = closer) (hcloser : closer ≠ .comma)
    (h : ∀ b ∈ bs, ReadsElement room p closer R w b) (rest : List Form) :
    Collects room (untilStep closer (withComma closer p)) R (separated (bs.map w) ++ close :: rest) bs
      (close :: rest) := by
  induction bs with
  | nil => exact .nil (reads_untilStep_none hclose)
  | cons b bs ih =>
    obtain ⟨hb, hbs⟩ := List.forall_mem_cons.1 h
    have hne : w b ≠ [] := ne_nil_of_headKind rfl hb.starts.2.2
    have hpos : 0 < (w b).length := List.length_pos_iff.2 hne
    cases bs with
    | nil =>
      have hw : separated ([b].map w) = w b := by simp [separated]
      rw [hw]
      refine .cons (reads_untilStep ?_ ?_ (reads_withComma_last hb hclose rest)) ?_ (ih hbs)
      · rw [headKind_append hne]
        exact hb.starts.1
      · rw [headKind_append hne]
        exact hb.starts.2.2
      · simp only [List.length_append, List.length_cons]
        omega
    | cons b' bs =>
      rw [List.map_cons, separated_cons _ (by simp), List.append_assoc, List.cons_append]
      refine .cons (reads_untilStep ?_ ?_ (reads_withComma hb hcloser _)) ?_ (ih hbs)
      · rw [headKind_append hne]
        exact hb.starts.1
      · rw [headKind_append hne]
        exact hb.starts.2.2
      · simp only [List.length_append, List.length_cons]
        omega

/-- Elements between commas are read one after the other. -/
theorem reads_commaSeparated {bs : List β} (hclose : close.kind = closer) (hcloser : closer ≠ .comma)
    (h : ∀ b ∈ bs, ReadsElement room p closer R w b) (rest : List Form) :
    Reads room (commaSeparated closer p) (separated (bs.map w) ++ close :: rest) (close :: rest)
      fun as => List.Forall₂ R bs as :=
  reads_collect (collects_commaSeparated hclose hcloser h rest)

/-- Values that are read for given expressions restore them. -/
theorem bareAll_eq {es as : List Expr} (h : List.Forall₂ (fun e a => a.bare = e.bare) es as) :
    Expr.bareAll as = Expr.bareAll es := by
  induction h with
  | nil => rfl
  | cons ha _ ih => rw [Expr.bareAll, Expr.bareAll, ha, ih]

/-! ### Arrays with holes -/

variable {g : Inner}

def ReadsSpreadable (room : Nat) (g : Inner) (e : Expr) : Prop :=
  ReadsElement room (spreadable g) .rBracket (fun e a => a.bare = e.bare) Expr.argForm e

theorem reads_literalElement {e : Expr} {fs gs : List Form} (hstart : headKind fs ≠ .comma)
    (h : Reads room (withComma .rBracket (spreadable g)) fs gs fun a => a.bare = e.bare) :
    Reads room (literalElement g) fs gs fun a => a.bare = e.bare := by
  refine .bind (reads_accept_ne hstart) fun found hfound => ?_
  rw [if_neg (by simp [hfound])]
  exact h

theorem reads_hole (rest : List Form) :
    Reads room (untilStep .rBracket (literalElement g)) (.of "," :: rest) rest
      fun found => ∃ a, found = some a ∧ a.bare = Expr.omitted.bare := by
  refine reads_untilStep (fun e => nomatch comma_kind.symm.trans e)
    (fun e => nomatch comma_kind.symm.trans e) ?_
  refine .bind (reads_accept comma_kind) fun found hfound => ?_
  rw [if_pos hfound]
  exact .pure rfl

/-- The tokens of the elements of an array literal. A hole at the end has a comma of its own. -/
def elementForms (es : List Expr) : List (List Form) :=
  if Code.endsInHole (Expr.codes es) then Expr.argForms es ++ [[]] else Expr.argForms es

theorem elementForms_cons (e : Expr) {es : List Expr} (h : es ≠ []) :
    elementForms (e :: es) = e.argForm :: elementForms es := by
  obtain ⟨e', es, rfl⟩ := List.exists_cons_of_ne_nil h
  have hlast : Code.endsInHole (Expr.codes (e :: e' :: es)) =
      Code.endsInHole (Expr.codes (e' :: es)) := by
    simp [Code.endsInHole, Expr.codes]
  rw [elementForms, elementForms, hlast, Expr.argForms]
  split <;> rfl

theorem elementForms_ne_nil {es : List Expr} (h : es ≠ []) : elementForms es ≠ [] := by
  obtain ⟨e, es, rfl⟩ := List.exists_cons_of_ne_nil h
  rw [elementForms, Expr.argForms]
  split <;> simp

inductive ReadsHoled (room : Nat) (g : Inner) : Expr → Prop where
  | hole : ReadsHoled room g .omitted
  | element {e : Expr} (hcode : Code.endsInHole [e.code] = false) (h : ReadsSpreadable room g e) :
    ReadsHoled room g e

theorem collects_elements {es : List Expr} (h : ∀ e ∈ es, ReadsHoled room g e) (rest : List Form) :
    Collects room (untilStep .rBracket (literalElement g)) (fun e a => a.bare = e.bare)
      (separated (elementForms es) ++ .of "]" :: rest) es (.of "]" :: rest) := by
  have hclose := rBracket_kind
  induction es with
  | nil => exact .nil (reads_untilStep_none hclose)
  | cons e es ih =>
    obtain ⟨he, hes⟩ := List.forall_mem_cons.1 h
    -- Every element is followed by a comma, but the last one only if it is a hole.
    cases es with
    | nil =>
      cases he with
      | hole =>
        have hw : separated (elementForms [.omitted]) = [.of ","] := rfl
        rw [hw]
        exact .cons (reads_hole _) (by simp) (ih hes)
      | element hcode he =>
        have hne : e.argForm ≠ [] := ne_nil_of_headKind rfl he.starts.2.2
        have hpos : 0 < e.argForm.length := List.length_pos_iff.2 hne
        have hw : separated (elementForms [e]) = e.argForm := by
          rw [elementForms, Expr.codes, Expr.codes, hcode]
          exact List.intercalate_singleton
        have hhead := headKind_append hne (Form.of "]" :: rest)
        rw [hw]
        refine .cons (reads_untilStep (hhead ▸ he.starts.1) (hhead ▸ he.starts.2.2)
          (reads_literalElement (hhead ▸ he.starts.2.1) (reads_withComma_last he hclose rest))) ?_ (ih hes)
        simp only [List.length_append, List.length_cons]
        omega
    | cons e' es =>
      rw [elementForms_cons e (by simp), separated_cons _ (elementForms_ne_nil (by simp)),
        List.append_assoc, List.cons_append]
      cases he with
      | hole => exact .cons (reads_hole _) (by simp [show Expr.omitted.argForm = [] from rfl]) (ih hes)
      | element hcode he =>
        have hne : e.argForm ≠ [] := ne_nil_of_headKind rfl he.starts.2.2
        have hhead := headKind_append hne
          (Form.of "," :: (separated (elementForms (e' :: es)) ++ .of "]" :: rest))
        refine .cons (reads_untilStep (hhead ▸ he.starts.1) (hhead ▸ he.starts.2.2)
          (reads_literalElement (hhead ▸ he.starts.2.1) (reads_withComma he (by decide) _))) ?_ (ih hes)
        simp only [List.length_append, List.length_cons]
        omega

/-- The elements of an array literal are read between its brackets. -/
theorem reads_arrayLiteral {es : List Expr} (h : ∀ e ∈ es, ReadsHoled room g e) (rest : List Form) :
    Reads room (arrayLiteral g) (.of "[" :: (separated (elementForms es) ++ .of "]" :: rest)) rest
      fun as => Expr.bareAll as = Expr.bareAll es :=
  .bind (reads_token lBracket_kind) fun _ _ =>
    .bind (.withIn (reads_collect (collects_elements h rest))) fun _ has =>
      .bind (reads_token rBracket_kind) fun _ _ => .pure (bareAll_eq has)

/-- Arguments are read between their parentheses. -/
theorem reads_arguments {es : List Expr}
    (h : ∀ e ∈ es, ReadsElement room (spreadable g) .rParen (fun e a => a.bare = e.bare) Expr.argForm e)
    (rest : List Form) :
    Reads room (arguments g) (.of "(" :: (separated (Expr.argForms es) ++ .of ")" :: rest)) rest
      fun as => Expr.bareAll as = Expr.bareAll es := by
  rw [Expr.argForms_eq_map]
  exact .bind (reads_token lParen_kind) fun _ _ =>
    .bind (.withIn (reads_commaSeparated rParen_kind (by decide) h rest)) fun _ has =>
      .bind (reads_token rParen_kind) fun _ _ => .pure (bareAll_eq has)

end Grammar

end TypeStrip
