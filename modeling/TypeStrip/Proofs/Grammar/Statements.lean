import TypeStrip.Grammar.Statement
import TypeStrip.Proofs.Grammar.Declarations

/-! Statements are read soundly. -/
namespace TypeStrip.Grammar
open TypeStrip.Token (Kind)
open Site

variable {I : Cursor → Prop} [Kept I] {g : Inner}

/-- A statement with one expression and one statement in it is sound if both are. -/
private theorem sound_guarded {t body : Stmt} {e : Expr}
    (hp : ofStmtParts t = ofExprs [e] ++ [.stmt body]) (he : Sound e) (hb : Sound body) :
    Sound t :=
  Stmt.sound (hp ▸ allDeep_append.2 ⟨he, allDeep_cons.2 ⟨hb, allDeep_nil⟩⟩)

/-- A statement without parts is sound. -/
private theorem sound_simple {t : Stmt} (hp : ofStmtParts t = []) : Sound t :=
  Stmt.sound (hp ▸ allDeep_nil)

theorem keeps_ifStatement (hg : KeepsInner I g) (start : Span) : Keeps I (ifStatement g start) := by
  refine .bind (.discard (keeps_expect _)) fun _ _ => .bind (keeps_parenthesized hg) fun e he => ?_
  refine .bind hg.stmt fun yes hy => .bind (keeps_accept _) fun _ _ => .ite ?_ ?_
  · refine .bind hg.stmt fun no hn => .bind (keeps_since _) fun _ _ => .pure (Stmt.sound ?_)
    exact allDeep_append.2 ⟨he, allDeep_cons.2 ⟨hy, allDeep_cons.2 ⟨hn, allDeep_nil⟩⟩⟩
  · exact .bind (keeps_since _) fun _ _ => .pure (sound_guarded rfl he hy)

/-! ### Loops -/

theorem keeps_forHead (hg : KeepsInner I g) : Keeps I (forHead g) := by
  have none : Sound ForHead.none := allDeep_nil
  refine .get fun c => .ite (.pure ⟨none, trivial⟩) (.ite ?_ ?_)
  · exact .bind (keeps_declarators hg) fun ds h => .pure ⟨allDeep_ofDeclarators.2 h.2, trivial⟩
  · exact .bind (keeps_expression hg) fun e he => .pure ⟨he, trivial⟩

/-- The parts of a loop over an object are its head, the object and the body. -/
private theorem sound_forEach {t body : Stmt} {head : ForHead} {e : Expr}
    (hp : ofStmtParts t = ofForHead head ++ ofExprs [e] ++ [.stmt body]) (hh : Sound head)
    (he : Sound e) (hb : Sound body) : Sound t := by
  refine Stmt.sound (hp ▸ allDeep_append.2 ⟨allDeep_append.2 ⟨hh, he⟩, ?_⟩)
  exact allDeep_cons.2 ⟨hb, allDeep_nil⟩

theorem keeps_forEach (hg : KeepsInner I g) (start : Span) {object : Parser Expr}
    (ho : Keeps I object) {make : Span → Expr → Stmt → Stmt}
    (hm : ∀ s e t, Sound e → Sound t → Sound (make s e t)) :
    Keeps I (forEach g start object make) := by
  refine .bind keeps_skip fun _ _ => .bind ho fun e he => .bind (.discard (keeps_expect _)) ?_
  refine fun _ _ => .bind hg.stmt fun t ht => .bind (keeps_since _) fun _ _ => ?_
  exact .pure (hm _ e t he ht)

theorem keeps_forSteps (hg : KeepsInner I g) (start : Span) {head : ForHead} (hh : Sound head) :
    Keeps I (forSteps g start head) := by
  have optional : Keeps I (some <$> withIn true (expression g)) :=
    .map (.withIn (keeps_expression hg)) fun _ he => sound_some.2 he
  refine .bind (.discard (keeps_expect _)) fun _ _ => .get fun c => ?_
  refine .either (.pure sound_none) optional fun test ht => ?_
  refine .bind (.discard (keeps_expect _)) fun _ _ => .get fun c => ?_
  refine .either (.pure sound_none) optional fun update hu => ?_
  refine .bind (.discard (keeps_expect _)) fun _ _ => .bind hg.stmt fun t hb => ?_
  refine .bind (keeps_since _) fun _ _ => .pure (Stmt.sound ?_)
  simp only [ofStmtParts, allDeep_append, allDeep_ofExpr?]
  exact ⟨⟨⟨hh, ht⟩, hu⟩, allDeep_cons.2 ⟨hb, allDeep_nil⟩⟩

theorem keeps_forStatement (hg : KeepsInner I g) (start : Span) :
    Keeps I (forStatement g start) := by
  refine .bind (.discard (keeps_expect _)) fun _ _ => .bind (keeps_accept _) fun _ _ => ?_
  refine .bind (.discard (keeps_expect _)) fun _ _ => .bind (.withIn (keeps_forHead hg)) fun head hh => ?_
  refine .get fun c => .ite ?_ (.ite ?_ (.ite (keeps_complain _) (keeps_forSteps hg _ hh.1)))
  · exact keeps_forEach hg _ (.withIn (keeps_expression hg)) fun s e t => sound_forEach rfl hh.1
  · exact keeps_forEach hg _ (.withIn hg.assign) fun s e t => sound_forEach rfl hh.1

theorem keeps_whileStatement (hg : KeepsInner I g) (start : Span) :
    Keeps I (whileStatement g start) := by
  refine .bind (.discard (keeps_expect _)) fun _ _ => .bind (keeps_parenthesized hg) fun e he => ?_
  refine .bind hg.stmt fun t ht => .bind (keeps_since _) fun _ _ => ?_
  exact .pure (sound_guarded rfl he ht)

theorem keeps_doStatement (hg : KeepsInner I g) (start : Span) : Keeps I (doStatement g start) := by
  refine .bind (.discard (keeps_expect _)) fun _ _ => .bind hg.stmt fun t ht => ?_
  refine .bind (.discard (keeps_expect _)) fun _ _ => .bind (keeps_parenthesized hg) fun e he => ?_
  refine .bind (.discard (keeps_accept _)) fun _ _ => .bind (keeps_since _) fun _ _ => ?_
  exact .pure (sound_guarded rfl he ht)

/-! ### Jumps -/

theorem keeps_returnStatement (hg : KeepsInner I g) (start : Span) :
    Keeps I (returnStatement g start) := by
  refine .bind (.discard (keeps_expect _)) fun _ _ => .get fun c => ?_
  refine .either (.pure sound_none) (.map (keeps_expression hg) fun _ he => sound_some.2 he)
    fun e he => ?_
  refine .bind keeps_endStatement fun _ _ => .bind (keeps_since _) fun _ _ => ?_
  exact .pure (Stmt.sound (allDeep_ofExpr?.2 he))

theorem keeps_jumpLabel : Keeps I jumpLabel := by
  refine .get fun c => .either (.map keeps_identifier fun _ _ => sound_some.2 trivial)
    (.pure sound_none) fun label h => ?_
  exact .bind keeps_endStatement fun _ _ => .pure h

theorem keeps_throwStatement (hg : KeepsInner I g) (start : Span) :
    Keeps I (throwStatement g start) := by
  refine .bind (.discard (keeps_expect _)) fun _ _ => .get fun c => .when (keeps_complain _) ?_
  refine .bind (keeps_expression hg) fun e he => .bind keeps_endStatement fun _ _ => ?_
  exact .bind (keeps_since _) fun _ _ => .pure (Stmt.sound he)

/-! ### Blocks with clauses -/

theorem keeps_catchParam (hg : KeepsInner I g) : Keeps I (catchParam g) :=
  keeps_after _ <| .bind (keeps_pattern hg) fun _ hp =>
    .bind (.discard (keeps_after _ hg.type)) fun _ _ =>
      .bind (.discard (keeps_expect _)) fun _ _ => .pure hp

theorem keeps_tryStatement (hg : KeepsInner I g) (start : Span) :
    Keeps I (tryStatement g start) := by
  refine .bind (.discard (keeps_expect _)) fun _ _ => .bind (keeps_block hg) fun block hs => ?_
  refine .bind (keeps_after _ ?_) fun caught hc => ?_
  · refine .bind (keeps_catchParam hg) fun p hp => .bind (keeps_blockBody hg) fun b hb => ?_
    exact .pure ⟨hp, hb⟩
  · refine .bind (keeps_after _ (keeps_blockBody hg)) fun final hf => .when (keeps_complain _) ?_
    refine .bind (keeps_since _) fun _ _ => .pure (Stmt.sound ?_)
    have hcaught : Sound (caught.getD (none, .absent)) := by
      cases caught with
      | none => exact ⟨sound_none, sound_absent⟩
      | some c => exact sound_some.1 hc
    have hfinal : Sound (final.getD .absent) := by
      cases final with
      | none => exact sound_absent
      | some f => exact sound_some.1 hf
    simp only [ofStmtParts, allDeep_append]
    refine ⟨⟨⟨allDeep_map.2 hs.2, ?_⟩, hcaught.2⟩, hfinal⟩
    exact allDeep_ofPatterns.2 fun p hp => hcaught.1 p (Option.mem_toList.1 hp)

omit [Kept I] in
theorem keeps_caseBody (hg : KeepsInner I g) : Keeps I (caseBody g) :=
  keeps_collect <| .get fun _ => .ite (.pure sound_none)
    (.bind hg.stmt fun _ ht => .pure (sound_some.2 ht))

theorem keeps_switchCase (hg : KeepsInner I g) (hasDefault : Bool) :
    Keeps I (switchCase g hasDefault) := by
  have rest (test : Option Expr) (ht : Sound test) : Keeps I (do
      discard <| expect .colon
      return Case.mk test (← caseBody g)) :=
    .bind (.discard (keeps_expect _)) fun _ _ => .bind (keeps_caseBody hg) fun body hb =>
      .pure ⟨ht, hb⟩
  refine .get fun c => .ite (.bind keeps_skip fun _ _ => ?_) (.ite (.when (keeps_complain _) ?_) ?_)
  · exact .bind (.map (.withIn (keeps_expression hg)) fun _ he => sound_some.2 he) rest
  · exact .bind keeps_skip fun _ _ => .bind (.pure sound_none) rest
  · exact .bind (keeps_complain _) rest

theorem keeps_switchCases (hg : KeepsInner I g) : Keeps I (switchCases g) := by
  refine keeps_extend (fun found hf => .get fun c => .ite (.pure sound_none) ?_) _ sound_nil
  refine .bind (keeps_switchCase hg _) fun c hc => .pure (sound_some.2 fun d hd => ?_)
  rcases List.mem_append.1 hd with hd | hd
  · exact hf d hd
  · exact List.mem_singleton.1 hd ▸ hc

theorem keeps_switchStatement (hg : KeepsInner I g) (start : Span) :
    Keeps I (switchStatement g start) := by
  refine .bind (.discard (keeps_expect _)) fun _ _ => .bind (keeps_parenthesized hg) fun e he => ?_
  refine .bind (.discard (keeps_expect _)) fun _ _ => .bind (keeps_switchCases hg) fun cs hcs => ?_
  refine .bind (.discard (keeps_expect _)) fun _ _ => .bind (keeps_since _) fun _ _ => .pure ?_
  refine Stmt.sound (allDeep_append.2 ⟨he, allDeep_flatMap.2 fun c hc => ?_⟩)
  obtain ⟨test, body⟩ := c
  exact allDeep_append.2 ⟨allDeep_ofExpr?.2 (hcs _ hc).1, allDeep_map.2 (hcs _ hc).2⟩

/-! ### All statements -/

theorem keeps_otherStatement (hg : KeepsInner I g) (start : Span) :
    Keeps I (otherStatement g start) := by
  refine .get fun c => .ite ?_ (.ite ?_ ?_)
  · refine .bind (keeps_declaration hg (keeps_item hg)) fun d hd => .bind (keeps_since _) fun _ _ => ?_
    exact .pure (Stmt.sound (allDeep_cons.2 ⟨hd, allDeep_nil⟩))
  · refine .bind keeps_identifier fun _ _ => .bind (.discard (keeps_expect _)) fun _ _ => ?_
    refine .bind hg.stmt fun t ht => .bind (keeps_since _) fun _ _ => ?_
    exact .pure (Stmt.sound (allDeep_cons.2 ⟨ht, allDeep_nil⟩))
  · refine .bind (keeps_expression hg) fun e he => .bind keeps_endStatement fun _ _ => ?_
    exact .bind (keeps_since _) fun _ _ => .pure (Stmt.sound he)

theorem keeps_stmtBody (hg : KeepsInner I g) : Keeps I (stmtBody g) := by
  have declared (start : Span) : Keeps I (do
      let d ← varDeclaration g false
      return Stmt.decl (← since start) d) :=
    .bind (keeps_varDeclaration hg _) fun d hd => .bind (keeps_since _) fun _ _ =>
      .pure (Stmt.sound (allDeep_cons.2 ⟨hd, allDeep_nil⟩))
  refine .get fun c => ?_
  dsimp only
  split
  · refine .bind (keeps_block hg) fun block h => .bind (keeps_since _) fun _ _ => ?_
    exact .pure (Stmt.sound (allDeep_map.2 h.2))
  · exact .bind keeps_skip fun _ _ => .bind (keeps_since _) fun _ _ => .pure (sound_simple rfl)
  · exact declared _
  · exact declared _
  · exact .ite (keeps_otherStatement hg _) (declared _)
  · exact keeps_ifStatement hg _
  · exact keeps_forStatement hg _
  · exact keeps_whileStatement hg _
  · exact keeps_doStatement hg _
  · exact keeps_returnStatement hg _
  · refine .bind keeps_skip fun _ _ => .bind keeps_jumpLabel fun _ _ => ?_
    exact .bind (keeps_since _) fun _ _ => .pure (sound_simple rfl)
  · refine .bind keeps_skip fun _ _ => .bind keeps_jumpLabel fun _ _ => ?_
    exact .bind (keeps_since _) fun _ _ => .pure (sound_simple rfl)
  · exact keeps_throwStatement hg _
  · exact keeps_tryStatement hg _
  · exact keeps_switchStatement hg _
  · refine .bind keeps_skip fun _ _ => .bind keeps_endStatement fun _ _ => ?_
    exact .bind (keeps_since _) fun _ _ => .pure (sound_simple rfl)
  · exact keeps_complain _
  · refine .ite (.bind (keeps_importDecl hg) fun d _ => ?_) (keeps_otherStatement hg _)
    refine .bind (keeps_since _) fun _ _ => .pure (Stmt.sound ?_)
    exact allDeep_cons.2 ⟨deep_import, allDeep_nil⟩
  · exact keeps_complain _
  · exact keeps_otherStatement hg _

end TypeStrip.Grammar
