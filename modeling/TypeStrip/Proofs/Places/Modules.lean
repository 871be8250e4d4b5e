import TypeStrip.Proofs.Grammar.Rewinding
import TypeStrip.Proofs.Places.Levels

/-! Modules that are read: no malformed token is passed over, and spans are where they should be. -/
namespace TypeStrip.Grammar
open Outlined

inductive ReadsItems (g : Inner) : Tape → List Item → Tape → Prop where
  | nil (t : Tape) : ReadsItems g t [] t
  | cons {t u t' : Tape} {i : Item} {is : List Item} (hi : item g t = .ok i u)
    (h : ReadsItems g u is t') : ReadsItems g t (i :: is) t'

instance : Placed Item := ⟨Item.span, fun _ i _ => by cases i <;> exact ⟨_, rfl, rfl⟩⟩

section
variable {S : Source} {stop : Nat} {g : Inner} {t t' u : Tape} {is : List Item}

/-! ### Progress -/

theorem Tape.Reaches.following_le (h : t.Reaches t') :
    t'.following.length ≤ t.following.length := by
  induction h with
  | refl => exact Nat.le_refl _
  | @advance t' _ ih =>
    unfold Tape.advance
    split
    · rename_i next rest _ hf
      rw [hf, List.length_cons] at ih
      exact Nat.le_of_succ_le ih
    · exact ih
  | splitAngle _ _ ih => exact ih

/-- A move leaves what is passed as it is, or fewer tokens are left after it. -/
theorem Tape.Reaches.passed_or_lt (h : t.Reaches t') :
    t'.passed = t.passed ∨ t'.following.length < t.following.length := by
  induction h with
  | refl => exact .inl rfl
  | @advance t' h ih =>
    unfold Tape.advance
    split
    · rename_i next rest _ hf
      have hle := h.following_le
      rw [hf, List.length_cons] at hle
      exact .inr hle
    · exact ih
  | splitAngle _ _ ih => exact ih

/-- Reading an item moves on. -/
theorem lt_of_item (hg : LocatesInner S stop g) (ht : t.Lies S stop) {i : Item}
    (h : item g t = .ok i t') : t'.following.length < t.following.length := by
  refine (Parser.reaches_of_ok h).passed_or_lt.resolve_left fun hpassed => ?_
  obtain ⟨-, hparts, -⟩ := (locates_item hg).of_ok ht h
  obtain ⟨-, -, p, hp, hstart, -⟩ := hparts (.leaf t.current.span) List.mem_cons_self
  rw [hpassed] at hp
  obtain ⟨-, hwide, hstop⟩ := ht.behind p hp
  exact Nat.not_lt_of_le hstart (Nat.lt_of_lt_of_le hwide hstop)

theorem item_of_itemStep {i : Item} (h : itemStep g t = (.ok i, t')) : item g t = .ok i t' := by
  unfold itemStep at h
  split at h
  · cases h
  · split at h
    · cases h
      assumption
    · cases h

/-- The steps through a module without a complaint read its items, up to the end. -/
theorem readsItems_itemStepsUpTo (hg : LocatesInner S stop g) {fuel : Nat} (ht : t.Lies S stop)
    (hfuel : t.following.length < fuel) (hc : complaints (itemStepsUpTo g fuel t) = []) :
    ∃ t' : Tape, ReadsItems g t (itemsOf (itemStepsUpTo g fuel t)) t' ∧ t'.current.kind = .eof := by
  induction fuel generalizing t with
  | zero => exact absurd hfuel (Nat.not_lt_zero _)
  | succ fuel ih =>
    unfold itemStepsUpTo at hc ⊢
    split
    · exact ⟨t, .nil t, beq_iff_eq.1 (by assumption)⟩
    · rename_i hend
      rw [if_neg hend] at hc
      generalize hstep : itemStep g t = step at hc ⊢
      obtain ⟨r, u⟩ := step
      cases r with
      | error e => cases hc
      | ok i =>
        have hitem := item_of_itemStep hstep
        have hlt := lt_of_item hg ht hitem
        obtain ⟨t', hreads, heof⟩ := ih (ht.reaches (Parser.reaches_of_ok hitem)) (by omega) hc
        exact ⟨t', .cons hitem hreads, heof⟩

/-! ### Items one after the other -/

theorem exists_outline_of_mem {i : Item} (h : i ∈ is) : ∃ o ∈ outlineItems is, o.span = i.span := by
  obtain ⟨o, ho, hspan⟩ := Placed.parts_eq ⟨[], 0⟩ i trivial
  rw [← parts_items]
  exact ⟨o, List.mem_flatMap.2 ⟨i, h, ho ▸ List.mem_cons_self⟩, hspan⟩

theorem ReadsItems.reaches (h : ReadsItems g t is t') : t.Reaches t' := by
  induction h with
  | nil => exact .refl
  | cons hi _ ih => exact (Parser.reaches_of_ok hi).trans ih

/-- Items that are read lie one after the other in what is read; no malformed token is passed. -/
theorem ReadsItems.located (hg : LocatesInner S stop g) (h : ReadsItems g t is t')
    (ht : t.Lies S stop) :
    (∀ o ∈ outlineItems is, o.Faithful S ∧ t'.HasRead t.current.span.start o.span) ∧
      t.PassesSound t' ∧
      ∀ last ∈ is.getLast?, ∀ o ∈ outlineItems is, o.span.stop ≤ last.span.stop := by
  induction h with
  | nil => simp [outlineItems, Tape.PassesSound.refl]
  | @cons t u t' i is hi h ih =>
    obtain ⟨-, hparts, hsound⟩ := (locates_item hg).of_ok ht hi
    have hreaches := Parser.reaches_of_ok hi
    have hu := ht.reaches hreaches
    obtain ⟨hrest, hsound', hlast⟩ := ih hu
    have hitem : Since S stop t.current.span (gains t.current.span i ++ []) u :=
      ((Since.here ht).reaches hreaches).append hparts
    have hstarts := hitem.starts
    have hread := hitem.reaches h.reaches
    refine ⟨fun o ho => ?_, hsound.trans hsound', fun last hmem o ho => ?_⟩
    · rcases List.mem_append.1 ho with ho | ho
      · exact hread.parts o (List.mem_append_left _ (mem_gains ho _))
      · exact ⟨(hrest o ho).1, Nat.le_trans hstarts (hrest o ho).2.1, (hrest o ho).2.2⟩
    · cases is with
      | nil =>
        obtain rfl : i = last := by simpa using hmem
        obtain ⟨node, hnode, hspan⟩ := Placed.parts_eq S i trivial
        have ho : o ∈ parts i := by simpa [outlineItems] using ho
        rw [hnode] at ho
        rw [List.mem_singleton.1 ho, hspan]
        exact Nat.le_refl _
      | cons j is =>
        rw [List.getLast?_cons_cons] at hmem
        rcases List.mem_append.1 ho with ho | ho
        · obtain ⟨node, hnode, hspan⟩ := exists_outline_of_mem (List.mem_of_getLast? hmem)
          obtain ⟨hfaithful, hstart, -⟩ := hrest node hnode
          have hstop := (hparts o (mem_gains ho _)).2.stop_le hu
          have hle := hfaithful.holds.le
          rw [hspan] at hle hstart
          exact Nat.le_trans hstop (Nat.le_trans hstart hle)
        · exact hlast last hmem o ho

/-! ### Complaints -/

theorem holds_of_itemStep (hg : LocatesInner S stop g) (ht : t.Lies S stop) {e : ParseError}
    (h : (itemStep g t).1 = .error e) : S.Holds e.span := by
  unfold itemStep at h
  split at h
  · cases h
    exact ht.current.holds
  · split at h
    · cases h
    · rename_i hr
      cases h
      exact (locates_item hg).of_error ht hr

/-- Every complaint is about a stretch of the source, by induction on the steps. -/
theorem holds_of_complaint (hg : LocatesInner S stop g) (fuel : Nat) (ht : t.Lies S stop) :
    ∀ e ∈ complaints (itemStepsUpTo g fuel t), S.Holds e.span := by
  induction fuel generalizing t with
  | zero => simp [itemStepsUpTo, complaints]
  | succ fuel ih =>
    unfold itemStepsUpTo
    split
    · simp [complaints]
    · have hstep := reaches_itemStep g t
      have hcomplaint : ∀ e, (itemStep g t).1 = .error e → S.Holds e.span :=
        fun _ h => holds_of_itemStep hg ht h
      generalize itemStep g t = step at hstep hcomplaint ⊢
      obtain ⟨r, u⟩ := step
      have hrest := ih (ht.reaches hstep)
      cases r with
      | ok i => exact hrest
      | error e => exact List.forall_mem_cons.2 ⟨hcomplaint e rfl, hrest⟩

end

/-! ### Modules -/

def sourceOf (source : String) (file : Nat) : Source := ⟨source.toList, file⟩

section
variable {source : String} {file : Nat}

theorem follow_tokenize (source : String) (file : Nat) :
    Token.Follow (sourceOf source file) (Text.byteCount source.toList) 0
      (Token.tokenize source file 0) := by
  have hfollow := Token.follow_tokensFrom (sourceOf source file).hasAt_text
  rwa [Nat.zero_add] at hfollow

theorem readsItems_of_parseModule {p : Program} (h : parseModule source file = .ok p) :
    let tokens := Token.tokenize source file 0
    (∃ t : Tape, ReadsItems (grammar tokens) (Tape.ofTokens tokens) p.items t ∧
      t.current.kind = .eof) ∧
      p.span = (Tape.ofTokens tokens).current.span.merge
        ((p.items.getLast?.map Item.span).getD (Tape.ofTokens tokens).current.span) := by
  intro tokens
  have hlies := (Tape.lies_ofTokens (follow_tokenize source file)).1
  unfold parseModule parseProgram at h
  dsimp only at h
  split at h
  · rename_i hc
    cases h
    exact ⟨readsItems_itemStepsUpTo (locatesInner_grammar _ _ _) hlies (Nat.lt_succ_self _) hc, rfl⟩
  · cases h

theorem holds_of_parseModule_error {errors : List ParseError}
    (h : parseModule source file = .error errors) :
    errors ≠ [] ∧ ∀ e ∈ errors, (sourceOf source file).Holds e.span := by
  have hlies := (Tape.lies_ofTokens (follow_tokenize source file)).1
  unfold parseModule parseProgram at h
  dsimp only at h
  split at h
  · cases h
  · rename_i hc
    cases h
    exact ⟨hc, holds_of_complaint (locatesInner_grammar _ _ _) _ hlies⟩

/-- The outline of a module that is read is right. -/
theorem faithful_of_parseModule {p : Program} (h : parseModule source file = .ok p) :
    p.outline.Faithful (sourceOf source file) := by
  obtain ⟨⟨t, hreads, -⟩, hspan⟩ := readsItems_of_parseModule h
  have hlies := (Tape.lies_ofTokens (follow_tokenize source file)).1
  obtain ⟨hparts, -, hlast⟩ := hreads.located (locatesInner_grammar _ _ _) hlies
  have hfirst := hlies.current.holds
  cases hl : p.items.getLast? with
  | none =>
    rw [hl] at hspan
    have hitems : outlineItems p.items = [] := by rw [List.getLast?_eq_none_iff.1 hl, outlineItems]
    refine .node (hspan ▸ hfirst.merge hfirst) trivial ?_ ?_
    · simp [hitems]
    · simp [hitems]
  | some last =>
    rw [hl] at hspan
    obtain ⟨node, hnode, hnodeSpan⟩ := exists_outline_of_mem (List.mem_of_getLast? hl)
    obtain ⟨hfaithful, hstart, -⟩ := hparts node hnode
    have hholds : (sourceOf source file).Holds last.span := hnodeSpan ▸ hfaithful.holds
    refine .node (hspan ▸ hfirst.merge hholds) trivial (fun o ho => ?_) fun o ho => (hparts o ho).1
    rw [hspan]
    exact ⟨Nat.le_trans (Nat.min_le_left ..) (hparts o ho).2.1,
      Nat.le_trans (hlast last hl o ho) (Nat.le_max_right ..)⟩

/-- No malformed token is passed over. If a module is read, none of its tokens is malformed and all
of them are read, up to the one that marks the end; the same holds for the tokens of each
substitution in a template of the module, and of each template that is read at all. -/
theorem no_malformed_token_of_parseModule {p : Program} (h : parseModule source file = .ok p) :
    let tokens := Token.tokenize source file 0
    (∀ t ∈ tokens, t.kind ≠ .error) ∧
      (∃ t : Tape, ReadsItems (grammar tokens) (Tape.ofTokens tokens) p.items t ∧
        t.current.kind = .eof ∧ t.position + 1 = tokens.length) ∧
      (∀ o : Outline, o.Inside p.outline → ∀ texts exprs, o.label = .template texts exprs →
        ∃ raw parts, (sourceOf source file).Spells o.span ("`" ++ raw ++ "`") ∧
          Template.split raw = .ok parts ∧ parts.texts = texts ∧
          List.Forall₂ (fun sub e => ReadsToEnd (substitutionTokens file (o.span.start + 1) sub) e)
            parts.substitutions exprs) ∧
      ∀ fuel n t e t', templateLiteral (levels (substitutionUpTo fuel) n) t = .ok e t' →
        ∃ token parts exprs, take t = .ok token t' ∧ Template.split token.value = .ok parts ∧
          e = .template token.span parts.texts exprs ∧
          List.Forall₂ (fun sub e =>
            ReadsToEnd (substitutionTokens token.span.file (token.span.start + 1) sub) e)
            parts.substitutions exprs := by
  intro tokens
  obtain ⟨hlies, hpassed, htokens, -⟩ := Tape.lies_ofTokens (follow_tokenize source file)
  obtain ⟨⟨t, hreads, heof⟩, -⟩ := readsItems_of_parseModule h
  have hsound := (hreads.located (locatesInner_grammar _ _ _) hlies).2.1
  obtain ⟨herror, hposition⟩ := Tape.sound_of_eof hlies hpassed hreads.reaches hsound heof
  rw [htokens] at herror hposition
  refine ⟨herror, ⟨t, hreads, heof, hposition⟩, fun o ho texts exprs hlabel => ?_, ?_⟩
  · cases (faithful_of_parseModule h).inside ho with
    | node _ hl _ _ =>
      cases hlabel
      exact hl
  · exact fun fuel n t e t' h => readsToEnd_of_templateLiteral h

private def isTemplateOfName : Except (List ParseError) Program → Bool
  | .ok ⟨[.stmt _ (.expr _ (.template _ _ [.ident _ "b"]))], _⟩ => true
  | _ => false

/-- The template is in the module, and the name is in the template. -/
private theorem inside_template (itemSpan stmtSpan span nameSpan programSpan : Span)
    (texts : List String)
    (name : String) :
    let template := Outline.node span (.template texts [.ident nameSpan name])
      [.node nameSpan (.name name) []]
    let outline := Program.outline
      ⟨[.stmt itemSpan (.expr stmtSpan (.template span texts [.ident nameSpan name]))], programSpan⟩
    template.Inside outline ∧ (Outline.node nameSpan (.name name) []).Inside outline := by
  intro template outline
  have htemplate : template.Inside outline :=
    .part List.mem_cons_self (.part List.mem_cons_self (.part List.mem_cons_self .refl))
  exact ⟨htemplate, .part List.mem_cons_self (.part List.mem_cons_self (.part List.mem_cons_self
    (.part List.mem_cons_self .refl)))⟩

theorem no_malformed_token_of_template :
    ∃ p, parseModule "`é$\x7bb\x7d`;" 0 = .ok p ∧
      (∀ t ∈ Token.tokenize "`é$\x7bb\x7d`;" 0 0, t.kind ≠ .error) ∧
      ∃ (o : Outline) (texts : List String) (s : Span) (sub : Template.Substitution),
        o.Inside p.outline ∧ o.label = .template texts [.ident s "b"] ∧
          ReadsToEnd (substitutionTokens 0 (o.span.start + 1) sub) (.ident s "b") := by
  have h : isTemplateOfName (parseModule "`é$\x7bb\x7d`;" 0) = true := by decide +kernel
  unfold isTemplateOfName at h
  split at h
  · rename_i itemSpan stmtSpan span texts nameSpan programSpan hp
    obtain ⟨herror, -, htemplates, -⟩ := no_malformed_token_of_parseModule hp
    have hinside := (inside_template itemSpan stmtSpan span nameSpan programSpan texts "b").1
    obtain ⟨raw, parts, -, -, -, hreads⟩ := htemplates _ hinside _ _ rfl
    generalize parts.substitutions = subs at hreads
    cases hreads with
    | cons hread _ => exact ⟨_, hp, herror, _, texts, nameSpan, _, hinside, rfl, hread⟩
  · cases h

/-- Spans are faithful. In a module that is read every node is a stretch of the source that lies in
that of the node around it, and every name is written where it stands; and if a module is not read
there are complaints, each about a stretch of the source. -/
theorem faithful_spans_of_parseModule (source : String) (file : Nat) :
    (∀ p, parseModule source file = .ok p → ∀ o : Outline, o.Inside p.outline →
      (sourceOf source file).Holds o.span ∧ (∀ q ∈ o.parts, q.span.Within o.span) ∧
        ∀ name, o.label = .name name → (sourceOf source file).Spells o.span name) ∧
      ∀ errors, parseModule source file = .error errors →
        errors ≠ [] ∧ ∀ e ∈ errors, (sourceOf source file).Holds e.span := by
  refine ⟨fun p h o ho => ?_, fun errors h => holds_of_parseModule_error h⟩
  cases (faithful_of_parseModule h).inside ho with
  | node hs hl hw _ => exact ⟨hs, hw, fun name hname => by cases hname; exact hl⟩

theorem faithful_spans_of_template :
    (∃ p s, parseModule "`é$\x7bb\x7d`;" 0 = .ok p ∧
      (Outline.node s (.name "b") []).Inside p.outline ∧
        (sourceOf "`é$\x7bb\x7d`;" 0).Spells s "b") ∧
      ∃ e errors, parseModule "`$\x7b(\x7d`;" 0 = .error (e :: errors) ∧
        (sourceOf "`$\x7b(\x7d`;" 0).Holds e.span := by
  constructor
  · have h : isTemplateOfName (parseModule "`é$\x7bb\x7d`;" 0) = true := by decide +kernel
    unfold isTemplateOfName at h
    split at h
    · rename_i itemSpan stmtSpan span texts nameSpan programSpan hp
      have hinside := (inside_template itemSpan stmtSpan span nameSpan programSpan texts "b").2
      have hfaithful := (faithful_spans_of_parseModule "`é$\x7bb\x7d`;" 0).1 _ hp _ hinside
      exact ⟨_, nameSpan, hp, hinside, hfaithful.2.2 "b" rfl⟩
    · cases h
  · have h : (parseModule "`$\x7b(\x7d`;" 0).isOk = false := by decide +kernel
    cases hp : parseModule "`$\x7b(\x7d`;" 0 with
    | ok p =>
      rw [hp] at h
      cases h
    | error errors =>
      obtain ⟨hne, hholds⟩ := (faithful_spans_of_parseModule "`$\x7b(\x7d`;" 0).2 errors hp
      obtain ⟨e, es, rfl⟩ := List.exists_cons_of_ne_nil hne
      exact ⟨e, es, rfl, hholds e List.mem_cons_self⟩

end

end TypeStrip.Grammar
