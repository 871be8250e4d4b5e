import TypeStrip.Grammar.Program
import TypeStrip.Proofs.Grammar.Rewinding
import TypeStrip.Proofs.Strings.Declarations

/-!
Statements and whole modules are read alike however strings are worded, through all levels of
nesting and past complaints.
-/
namespace TypeStrip.Grammar
open TypeStrip.Token (Kind)
open Reworded

variable {σ : String → String} {t : Tape} {g : Inner}

/-! ### Statements -/

section
variable (hg : CarriesInner σ g)
include hg

theorem carries_ifStatement (start : Span) :
    Carries σ (ifStatement g start) (ifStatement g start) := by
  refine .bind (.discard (carries_expect _)) fun _ => .bind (carries_parenthesized hg) fun e => ?_
  refine .bind hg.stmt fun yes => .bind (carries_accept _) fun _ => .ite ?_ ?_
  · exact .bind hg.stmt fun no => .bind (carries_since _) fun _ => .pure rfl
  · exact .bind (carries_since _) fun _ => .pure rfl

theorem carries_forHead : Carries σ (forHead g) (forHead g) := by
  refine .get fun c => ?_
  simp only [Cursor.at_reword, Cursor.current_reword, Token.kind_reword]
  refine .ite (.pure rfl) (.ite ?_ (.bind (carries_expression hg) fun e => .pure rfl))
  refine .bind (carries_declarators hg) fun ds => .pure ?_
  simp [reword]

theorem carries_forEach (start : Span) {object : Parser Expr} (ho : Carries σ object object)
    {make make' : Span → Expr → Stmt → Stmt}
    (hm : ∀ s e b, make' s (reword σ e) (reword σ b) = reword σ (make s e b)) :
    Carries σ (forEach g start object make) (forEach g start object make') := by
  refine .bind carries_skip fun _ => .bind ho fun e => ?_
  refine .bind (.discard (carries_expect _)) fun _ => ?_
  exact .bind hg.stmt fun body => .bind (carries_since _) fun _ => .pure (hm _ e body)

theorem carries_forSteps (start : Span) (head : ForHead) :
    Carries σ (forSteps g start head) (forSteps g start (reword σ head)) := by
  have optional : Carries σ (some <$> withIn true (expression g))
      (some <$> withIn true (expression g)) :=
    .map (.withIn _ (carries_expression hg)) fun _ => rfl
  refine .bind (.discard (carries_expect _)) fun _ => .get fun c => ?_
  refine .either (.pure rfl) optional fun test => ?_
  refine .bind (.discard (carries_expect _)) fun _ => .get fun c => ?_
  refine .either (.pure rfl) optional fun update => ?_
  refine .bind (.discard (carries_expect _)) fun _ => .bind hg.stmt fun body => ?_
  exact .bind (carries_since _) fun _ => .pure (by simp [reword])

theorem carries_forStatement (start : Span) :
    Carries σ (forStatement g start) (forStatement g start) := by
  refine .bind (.discard (carries_expect _)) fun _ => .bind (carries_accept _) fun isAwait => ?_
  refine .bind (.discard (carries_expect _)) fun _ => ?_
  refine .bind (.withIn _ (carries_forHead hg)) fun head => ?_
  refine .get fun c => ?_
  simp only [Cursor.at_reword, Cursor.atWord_reword]
  refine .ite ?_ (.ite ?_ (.ite (carries_complain _) (carries_forSteps hg _ _)))
  · exact carries_forEach hg _ (.withIn _ (carries_expression hg)) fun _ _ _ => rfl
  · exact carries_forEach hg _ (.withIn _ hg.assign) fun _ _ _ => rfl

theorem carries_whileStatement (start : Span) :
    Carries σ (whileStatement g start) (whileStatement g start) := by
  refine .bind (.discard (carries_expect _)) fun _ => .bind (carries_parenthesized hg) fun e => ?_
  exact .bind hg.stmt fun body => .bind (carries_since _) fun _ => .pure rfl

theorem carries_doStatement (start : Span) :
    Carries σ (doStatement g start) (doStatement g start) := by
  refine .bind (.discard (carries_expect _)) fun _ => .bind hg.stmt fun body => ?_
  refine .bind (.discard (carries_expect _)) fun _ => .bind (carries_parenthesized hg) fun e => ?_
  exact .bind (.discard (carries_accept _)) fun _ => .bind (carries_since _) fun _ => .pure rfl

theorem carries_returnStatement (start : Span) :
    Carries σ (returnStatement g start) (returnStatement g start) := by
  refine .bind (.discard (carries_expect _)) fun _ => .get fun c => ?_
  refine .either (.pure rfl) (.map (carries_expression hg) fun _ => rfl) fun e => ?_
  refine .bind carries_endStatement fun _ => .bind (carries_since _) fun _ => .pure ?_
  simp [reword]

omit hg in
theorem carries_jumpLabel : Carries σ jumpLabel jumpLabel :=
  .get fun _ => .either (.map carries_identifier fun _ => rfl) (.pure rfl) fun _ =>
    .bind carries_endStatement fun _ => .pure rfl

theorem carries_throwStatement (start : Span) :
    Carries σ (throwStatement g start) (throwStatement g start) := by
  refine .bind (.discard (carries_expect _)) fun _ => .get fun c => .when (carries_complain _) ?_
  refine .bind (carries_expression hg) fun e => .bind carries_endStatement fun _ => ?_
  exact .bind (carries_since _) fun _ => .pure rfl

theorem carries_catchParam : Carries σ (catchParam g) (catchParam g) :=
  .after _ <| .bind (carries_pattern hg) fun _ => .bind (.discard (.after _ hg.type)) fun _ =>
    .bind (.discard (carries_expect _)) fun _ => .pure rfl

theorem carries_tryStatement (start : Span) :
    Carries σ (tryStatement g start) (tryStatement g start) := by
  refine .bind (.discard (carries_expect _)) fun _ => .bind (carries_block hg) fun block => ?_
  refine .bind (.after _ ?_) fun caught => ?_
  · exact .bind (carries_catchParam hg) fun p => .bind (carries_blockBody hg) fun b => .pure rfl
  · refine .bind (.after _ (carries_blockBody hg)) fun final => ?_
    rcases caught with _ | ⟨p, handler⟩ <;> cases final <;>
      refine .when (carries_complain _) (.bind (carries_since _) fun _ => .pure ?_) <;>
      simp [reword]

theorem carries_caseBody : Carries σ (caseBody g) (caseBody g) := by
  refine .collect <| .get fun c => ?_
  rw [Cursor.seesAny_reword]
  exact .ite (.pure rfl) (.bind hg.stmt fun _ => .pure rfl)

theorem carries_switchCase (hasDefault : Bool) :
    Carries σ (switchCase g hasDefault) (switchCase g hasDefault) := by
  have rest (test : Option Expr) : Carries σ
      (do discard <| expect .colon; return Case.mk test (← caseBody g))
      (do discard <| expect .colon; return Case.mk (reword σ test) (← caseBody g)) := by
    refine .bind (.discard (carries_expect _)) fun _ => ?_
    refine .bind (carries_caseBody hg) fun body => .pure ?_
    simp [reword]
  refine .get fun c => .ite ?_ (.ite (.when (carries_complain _) ?_) ?_)
  · refine .bind carries_skip fun _ => ?_
    exact .bind (.map (f := some) (.withIn _ (carries_expression hg)) fun _ => rfl) rest
  · exact .bind carries_skip fun _ => .bind (.pure rfl) rest
  · exact .bind (carries_complain _) rest

theorem carries_withCase (found : List Case) :
    Carries σ (withCase g found) (withCase g (reword σ found)) := by
  have hany : (reword σ found).any isDefault = found.any isDefault := by
    refine List.any_map.trans (congrArg found.any (funext fun c => ?_))
    obtain ⟨test, body⟩ := c
    cases test <;> rfl
  refine .get fun c => .ite (.pure rfl) ?_
  rw [hany]
  refine .bind (carries_switchCase hg _) fun c => .pure ?_
  simp [reword]

theorem carries_switchCases : Carries σ (switchCases g) (switchCases g) :=
  .extend (carries_withCase hg) []

theorem carries_switchStatement (start : Span) :
    Carries σ (switchStatement g start) (switchStatement g start) := by
  refine .bind (.discard (carries_expect _)) fun _ => .bind (carries_parenthesized hg) fun e => ?_
  refine .bind (.discard (carries_expect _)) fun _ => .bind (carries_switchCases hg) fun cases => ?_
  refine .bind (.discard (carries_expect _)) fun _ => .bind (carries_since _) fun _ => .pure ?_
  simp [reword]

theorem carries_otherStatement (start : Span) :
    Carries σ (otherStatement g start) (otherStatement g start) := by
  refine .get fun c => ?_
  simp only [Cursor.atDeclaration_reword, Cursor.at_reword, Cursor.sees_reword]
  refine .ite ?_ (.ite ?_ ?_)
  · refine .bind (carries_declaration (carries_item hg) hg) fun d => ?_
    exact .bind (carries_since _) fun _ => .pure rfl
  · refine .bind carries_identifier fun _ => .bind (.discard (carries_expect _)) fun _ => ?_
    exact .bind hg.stmt fun body => .bind (carries_since _) fun _ => .pure rfl
  · refine .bind (carries_expression hg) fun e => .bind carries_endStatement fun _ => ?_
    exact .bind (carries_since _) fun _ => .pure rfl

theorem carries_stmtBody : Carries σ (stmtBody g) (stmtBody g) := by
  have declared (start : Span) : Carries σ
      (do let d ← varDeclaration g false; return Stmt.decl (← since start) d)
      (do let d ← varDeclaration g false; return Stmt.decl (← since start) d) :=
    .bind (carries_varDeclaration hg _) fun d => .bind (carries_since _) fun _ => .pure rfl
  refine .get fun c => ?_
  simp only [Cursor.current_reword, Token.kind_reword, Token.span_reword, Cursor.sees_reword,
    Cursor.atImport, Cursor.at_reword, Cursor.seesAny_reword]
  split
  · refine .bind (carries_block hg) fun block => .bind (carries_since _) fun _ => .pure ?_
    simp [reword]
  · exact .bind carries_skip fun _ => .bind (carries_since _) fun _ => .pure rfl
  · exact declared _
  · exact declared _
  · exact .ite (carries_otherStatement hg _) (declared _)
  · exact carries_ifStatement hg _
  · exact carries_forStatement hg _
  · exact carries_whileStatement hg _
  · exact carries_doStatement hg _
  · exact carries_returnStatement hg _
  · refine .bind carries_skip fun _ => .bind carries_jumpLabel fun _ => ?_
    exact .bind (carries_since _) fun _ => .pure rfl
  · refine .bind carries_skip fun _ => .bind carries_jumpLabel fun _ => ?_
    exact .bind (carries_since _) fun _ => .pure rfl
  · exact carries_throwStatement hg _
  · exact carries_tryStatement hg _
  · exact carries_switchStatement hg _
  · refine .bind carries_skip fun _ => .bind carries_endStatement fun _ => ?_
    exact .bind (carries_since _) fun _ => .pure rfl
  · exact carries_complain _
  · refine .ite (.bind (carries_importDecl hg) fun d => ?_) (carries_otherStatement hg _)
    exact .bind (carries_since _) fun _ => .pure rfl
  · exact carries_complain _
  · exact carries_otherStatement hg _

/-! ### Levels -/

theorem carriesInner_outward : CarriesInner σ g.outward where
  assign := .nested (carries_assignBody hg)
  unary := .nested (carries_unaryBody hg)
  stmt := .nested (carries_stmtBody hg)
  type := .nested (carries_typeBody hg)

end

/-- Every level reads alike however strings are worded, by induction on the number of levels. -/
theorem carriesInner_levels (substitution : List Token → Except ParseError Expr) (n : Nat) :
    CarriesInner σ (levels substitution n) := by
  induction n with
  | zero => exact ⟨carries_complain _, carries_complain _, carries_complain _, carries_complain _⟩
  | succ n ih => exact carriesInner_outward ih

theorem carriesInner_grammar (tokens : List Token) : CarriesInner σ (grammar tokens) :=
  carriesInner_levels _ _

/-- Templates stay as they are. -/
theorem grammar_reword (tokens : List Token) :
    grammar (tokens.map (Token.reword σ)) = grammar tokens := by
  have hdepth : templateDepth (tokens.map (Token.reword σ)) = templateDepth tokens := by
    rw [templateDepth, List.map_map, templateDepth]
    congr 1
    refine List.map_congr_left fun t _ => ?_
    by_cases h : t.kind = .string
    · simp [h]
    · rw [Function.comp, Token.reword_of_ne_string h]
  rw [grammar, hdepth, grammar]

/-! ### Modules -/

theorem resumes_reword (c : Cursor) : (c.reword σ).resumes = c.resumes := rfl

theorem seekUpTo_reword (fuel : Nat) (t : Tape) :
    seekUpTo fuel (t.reword σ) = (seekUpTo fuel t).reword σ := by
  induction fuel generalizing t with
  | zero => rfl
  | succ fuel ih =>
    rw [seekUpTo, seekUpTo, Tape.cursor_reword, resumes_reword, Tape.advance_reword, ih]
    split <;> rfl

theorem synchronize_reword (t : Tape) : synchronize (t.reword σ) = (synchronize t).reword σ := by
  rw [synchronize, Tape.cursor_reword, Cursor.remaining_reword, Tape.advance_reword,
    seekUpTo_reword, synchronize]

/-- One step through a module with reworded strings. -/
theorem itemStep_reword (hg : CarriesInner σ g) (ht : t.Fits σ) :
    itemStep g (t.reword σ) =
      ((itemStep g t).1.map (Item.reword σ), (itemStep g t).2.reword σ) := by
  unfold itemStep
  rw [Tape.kind_reword, Tape.advance_reword, carries_item hg t ht]
  by_cases hk : t.current.kind = .error
  · have hcurrent : (t.reword σ).current = t.current :=
      Token.reword_of_ne_string (by rw [hk]; decide)
    rw [if_pos hk, if_pos hk, hcurrent]
    rfl
  · rw [if_neg hk, if_neg hk]
    cases item g t with
    | ok i t' => rfl
    | error e t' => exact congrArg _ (synchronize_reword t')

/-- All steps, by induction on how many there may be. -/
theorem itemStepsUpTo_reword (hg : CarriesInner σ g) (fuel : Nat) (ht : t.Fits σ) :
    itemStepsUpTo g fuel (t.reword σ) =
      (itemStepsUpTo g fuel t).map (Except.map (Item.reword σ)) := by
  induction fuel generalizing t with
  | zero => rfl
  | succ fuel ih =>
    rw [itemStepsUpTo, itemStepsUpTo, Tape.cursor_reword, Cursor.atEnd_reword,
      itemStep_reword hg ht]
    split
    · rfl
    · exact congrArg _ (ih (ht.reaches (reaches_itemStep g t)))

theorem complaints_reword (steps : List (Except ParseError Item)) :
    complaints (steps.map (Except.map (Item.reword σ))) = complaints steps := by
  rw [complaints, List.filterMap_map]
  refine congrArg (List.filterMap · steps) (funext fun step => ?_)
  cases step <;> rfl

theorem itemsOf_reword (steps : List (Except ParseError Item)) :
    itemsOf (steps.map (Except.map (Item.reword σ))) = (itemsOf steps).map (Item.reword σ) := by
  rw [itemsOf, List.filterMap_map, itemsOf, List.map_filterMap]
  refine congrArg (List.filterMap · steps) (funext fun step => ?_)
  cases step <;> rfl

theorem ofTokens_reword (tokens : List Token) :
    Tape.ofTokens (tokens.map (Token.reword σ)) = (Tape.ofTokens tokens).reword σ := by
  have hlast : (tokens.map (Token.reword σ)).getLast?.map (·.span) =
      tokens.getLast?.map (·.span) := by
    rw [List.getLast?_map, Option.map_map]
    rfl
  have heof : (tokens.map (Token.reword σ)).getLast?.any (·.kind == .eof) =
      tokens.getLast?.any (·.kind == .eof) := by
    rw [List.getLast?_map]
    exact Token.any_reword (fun _ => rfl) _
  unfold Tape.ofTokens
  rw [hlast, heof]
  by_cases h : tokens.getLast?.any (·.kind == .eof) = true
  · simp only [h, if_true]
    cases tokens <;> rfl
  · simp only [h]
    cases tokens with
    | nil => rfl
    | cons first rest => simp [Tape.reword, Token.reword_of_ne_string, Token.endOfText]

/-- The tokens of a text are ahead of its first place, up to a mark of the end. -/
theorem ahead_ofTokens (tokens : List Token) :
    (Tape.ofTokens tokens).current :: (Tape.ofTokens tokens).following = tokens ∨
      ∃ s, (Tape.ofTokens tokens).current :: (Tape.ofTokens tokens).following =
        tokens ++ [Token.endOfText s] := by
  unfold Tape.ofTokens
  dsimp only
  by_cases h : tokens.getLast?.any (·.kind == .eof) = true
  · rw [if_pos h]
    cases tokens with
    | nil => cases h
    | cons first rest => exact .inl rfl
  · rw [if_neg h]
    cases tokens with
    | nil => exact .inr ⟨_, rfl⟩
    | cons first rest => exact .inr ⟨_, rfl⟩

theorem Unnoticed.concat {tokens : List Token} (h : Unnoticed σ tokens) (s : Span) :
    Unnoticed σ (tokens ++ [Token.endOfText s]) where
  this := h.this
  words t ht hg := by
    rcases List.mem_append.1 ht with ht | ht
    · exact h.words t ht hg
    · rw [List.mem_singleton.1 ht] at hg
      cases hg
  imports a b c rest hs ha hva hb hvb hc := by
    rcases List.suffix_concat_iff.1 hs with hs | ⟨before, hs, hsuffix⟩
    · cases hs
    · rcases List.eq_nil_or_concat rest with rfl | ⟨rest, last, rfl⟩
      · cases List.append_inj_left' (show [a, b] ++ [c] = _ ++ [_] from hs) rfl
        cases List.append_inj_right' (show [a, b] ++ [c] = _ ++ [_] from hs) rfl
        cases hc
      · rw [List.concat_eq_append] at hs
        cases List.append_inj_left' (show (a :: b :: c :: rest) ++ [last] = _ ++ [_] from hs) rfl
        exact h.imports a b c rest hsuffix ha hva hb hvb hc

theorem fits_ofTokens {tokens : List Token} (h : Unnoticed σ tokens) :
    (Tape.ofTokens tokens).Fits σ := by
  refine ⟨ended_ofTokens tokens, ?_⟩
  rcases ahead_ofTokens tokens with he | ⟨s, he⟩
  · exact he.symm ▸ h
  · exact he.symm ▸ h.concat s

/-- The parser commutes with other texts for strings, as long as they are not noticed: there are the
same complaints about both lists of tokens, or the one module is the other reworded. -/
theorem parseProgram_reword {tokens : List Token} (h : Unnoticed σ tokens) :
    parseProgram (tokens.map (Token.reword σ)) =
      (parseProgram tokens).map (Program.reword σ) := by
  have hsteps : itemStepsUpTo (grammar tokens) (Tape.ofTokens tokens).cursor.remaining
      ((Tape.ofTokens tokens).reword σ) = _ :=
    itemStepsUpTo_reword (carriesInner_grammar tokens) _ (fits_ofTokens h)
  have hlast (items : List Item) : (items.map (Item.reword σ)).getLast?.map Item.span =
      items.getLast?.map Item.span := by
    rw [List.getLast?_map, Option.map_map]
    exact congrArg (items.getLast?.map ·) (funext Item.span_reword)
  rw [parseProgram, grammar_reword, ofTokens_reword, Tape.cursor_reword, Cursor.remaining_reword,
    hsteps, parseProgram]
  dsimp only
  rw [complaints_reword, itemsOf_reword, hlast]
  split
  · simp [Except.map, Program.reword, reword]
  · rfl

/-! ### Two lists of tokens -/

def placeholder (n : Nat) : String := String.ofList (List.replicate n 'x')

@[simp] theorem length_placeholder (n : Nat) : (placeholder n).length = n := by
  simp [placeholder]

/-- Puts texts in place of the placeholders that are at least so long, one for each length. -/
def fillIn (first : Nat) (texts : List String) (text : String) : String :=
  if first ≤ text.length then (texts[text.length - first]?).getD text else text

theorem fillIn_of_lt {first : Nat} {texts : List String} {text : String}
    (h : text.length < first) : fillIn first texts text = text :=
  if_neg (Nat.not_le_of_lt h)

/-- Two tokens that differ at most in the text of a string. -/
structure Alike (a b : Token) : Prop where
  kind : a.kind = b.kind
  span : a.span = b.span
  newlineBefore : a.newlineBefore = b.newlineBefore
  value : a.kind ≠ .string → a.value = b.value

/-- What two tokens have in common, with a placeholder for two strings unless both are `from`. -/
def common (p : Token × Token) (n : Nat) : Token :=
  if p.1.kind = .string ∧ ¬(p.1.value = "from" ∧ p.2.value = "from") then
    { p.1 with value := placeholder n }
  else p.1

def commons (first : Nat) (ps : List (Token × Token)) : List Token :=
  (ps.zipIdx first).map fun q => common q.1 q.2

@[simp] theorem kind_common (p : Token × Token) (n : Nat) : (common p n).kind = p.1.kind := by
  unfold common
  split <;> rfl

theorem common_of_ne_string {p : Token × Token} {n : Nat} (h : p.1.kind ≠ .string) :
    common p n = p.1 :=
  if_neg fun hk => h hk.1

theorem fillIn_placeholder {first i : Nat} {texts : List String} {text : String}
    (h : texts[i]? = some text) : fillIn first texts (placeholder (first + i)) = text := by
  rw [fillIn, length_placeholder, if_pos (Nat.le_add_right ..), Nat.add_sub_cancel_left, h]
  rfl

theorem reword_common {first i : Nat} {texts : List String} {p : Token × Token} {t : Token}
    (hfirst : 4 < first) (ht : Alike p.1 t) (htext : texts[i]? = some t.value)
    (hfrom : p.1.value = "from" → p.2.value = "from" → t.value = "from") :
    (common p (first + i)).reword (fillIn first texts) = t := by
  obtain ⟨a, b⟩ := p
  obtain ⟨kind, value, span, newlineBefore⟩ := t
  obtain ⟨hkind, hspan, hnewline, hvalue⟩ := ht
  dsimp only at hkind hspan hnewline hvalue htext hfrom
  subst hkind hspan hnewline
  by_cases hs : a.kind = .string
  · by_cases hboth : a.value = "from" ∧ b.value = "from"
    · rw [common, if_neg fun h => h.2 hboth, Token.reword, if_pos hs, hboth.1,
        fillIn_of_lt hfirst, hfrom hboth.1 hboth.2]
    · rw [common, if_pos ⟨hs, hboth⟩, Token.reword, if_pos hs, fillIn_placeholder htext]
  · rw [common_of_ne_string hs, Token.reword_of_ne_string hs, ← hvalue hs]

theorem suffix_commons {first : Nat} {ps : List (Token × Token)} {tokens : List Token}
    (h : tokens <:+ commons first ps) :
    ∃ before after, ps = before ++ after ∧ tokens = commons (first + before.length) after := by
  obtain ⟨_, h⟩ := h
  obtain ⟨_, _, hzip, -, rfl⟩ := List.map_eq_append_iff.1 h.symm
  obtain ⟨before, after, rfl, rfl, rfl⟩ := List.zipIdx_eq_append_iff.1 hzip
  exact ⟨before, after, rfl, rfl⟩

section Sides
variable {first : Nat} {ps : List (Token × Token)} (side : Token × Token → Token)

theorem map_reword_commons (h : ∀ p ∈ ps, Alike p.1 p.2) (hfirst : 4 < first)
    (hside : ∀ p, side p = p.1 ∨ side p = p.2) :
    (commons first ps).map (Token.reword (fillIn first (ps.map fun p => (side p).value))) =
      ps.map side := by
  have hpairs : ps.map side = (ps.zipIdx first).map fun q => side q.1 := by
    exact (congrArg (List.map side) (List.zipIdx_map_fst first ps)).symm.trans List.map_map
  rw [hpairs, commons, List.map_map]
  refine List.map_congr_left fun q hq => ?_
  obtain ⟨hn, hp⟩ := List.mem_zipIdx_iff_le_and_getElem?_sub.1 hq
  obtain ⟨i, hi⟩ := Nat.exists_eq_add_of_le hn
  rw [hi, Nat.add_sub_cancel_left] at hp
  have halike := h q.1 (List.mem_of_getElem? hp)
  rw [Function.comp_apply, hi]
  refine reword_common hfirst ?_ (by rw [List.getElem?_map, hp]; rfl) ?_
  · rcases hside q.1 with hs | hs <;> rw [hs]
    · exact ⟨rfl, rfl, rfl, fun _ => rfl⟩
    · exact halike
  · intro hleft hright
    rcases hside q.1 with hs | hs <;> rw [hs] <;> assumption

theorem unnoticed_commons (hfirst : 4 < first) (hlt : ∀ p ∈ ps, p.1.value.length < first)
    (hside : ∀ p, side p = p.1 ∨ side p = p.2)
    (himports : ∀ a b c rest, a :: b :: c :: rest <:+ ps → a.1.kind = .identifier →
      a.1.value = "type" → b.1.kind = .identifier → b.1.value = "from" → c.1.kind = .string →
      (c.1.value = "from" ↔ c.2.value = "from")) :
    Unnoticed (fillIn first (ps.map fun p => (side p).value)) (commons first ps) where
  this := fillIn_of_lt hfirst
  words t ht hg := by
    obtain ⟨⟨p, n⟩, hp, rfl⟩ := List.mem_map.1 ht
    have hk : p.1.kind ≠ .string := by
      simpa using Token.ne_string_of_givesText hg
    rw [common_of_ne_string hk]
    exact fillIn_of_lt (hlt p (List.fst_mem_of_mem_zipIdx hp))
  imports a b c rest hs ha hva hb hvb hc := by
    obtain ⟨before, after, rfl, hafter⟩ := suffix_commons hs
    rcases after with _ | ⟨p, _ | ⟨q, _ | ⟨r, after⟩⟩⟩ <;> cases hafter
    dsimp only at ha hva hb hvb hc ⊢
    rw [kind_common] at ha hb hc
    rw [common_of_ne_string (by rw [ha]; decide)] at hva
    rw [common_of_ne_string (by rw [hb]; decide)] at hvb
    have heq := himports p q r after (List.suffix_append ..) ha hva hb hvb hc
    by_cases hboth : r.1.value = "from" ∧ r.2.value = "from"
    · rw [common, if_neg fun h => h.2 hboth, hboth.1, fillIn_of_lt hfirst]
    · have htext : ((before ++ p :: q :: r :: after).map fun p => (side p).value)[
          before.length + 2]? = some (side r).value := by
        simp
      have hplaceholder : (common r (first + before.length + 1 + 1)).value =
          placeholder (first + (before.length + 2)) := by
        rw [common, if_pos ⟨hc, hboth⟩]
        rfl
      rw [hplaceholder, fillIn_placeholder htext]
      refine iff_of_false (fun hfrom => hboth ?_) fun hfrom => ?_
      · rcases hside r with hs | hs <;> rw [hs] at hfrom
        · exact ⟨hfrom, heq.1 hfrom⟩
        · exact ⟨heq.2 hfrom, hfrom⟩
      · have hlength := congrArg String.length hfrom
        rw [length_placeholder, show "from".length = 4 from rfl] at hlength
        omega

end Sides

/-- There are placeholders that are longer than any text. -/
theorem exists_first (ps : List (Token × Token)) :
    ∃ first, 4 < first ∧ ∀ p ∈ ps, p.1.value.length < first := by
  induction ps with
  | nil => exact ⟨5, by decide, fun _ h => nomatch h⟩
  | cons p ps ih =>
    obtain ⟨first, hfirst, hlt⟩ := ih
    refine ⟨first + p.1.value.length + 1, by omega, fun q hq => ?_⟩
    rcases List.mem_cons.1 hq with rfl | hq
    · omega
    · have := hlt q hq
      omega

/-- Pairs of tokens that are alike are read alike: there are the same complaints about the tokens
of either side, or they stand for one module in which only texts are different. That holds unless,
after the words `type from`, there is the string `from` on one side and another on the other. -/
theorem parseProgram_of_alike (ps : List (Token × Token)) (h : ∀ p ∈ ps, Alike p.1 p.2)
    (himports : ∀ a b c rest, a :: b :: c :: rest <:+ ps → a.1.kind = .identifier →
      a.1.value = "type" → b.1.kind = .identifier → b.1.value = "from" → c.1.kind = .string →
      (c.1.value = "from" ↔ c.2.value = "from")) :
    ∃ tokens σ τ, Unnoticed σ tokens ∧ Unnoticed τ tokens ∧
      tokens.map (Token.reword σ) = ps.map Prod.fst ∧
      tokens.map (Token.reword τ) = ps.map Prod.snd ∧
      parseProgram (ps.map Prod.fst) = (parseProgram tokens).map (Program.reword σ) ∧
      parseProgram (ps.map Prod.snd) = (parseProgram tokens).map (Program.reword τ) := by
  obtain ⟨first, hfirst, hlt⟩ := exists_first ps
  have hleft := unnoticed_commons Prod.fst hfirst hlt (fun p => .inl rfl) himports
  have hright := unnoticed_commons Prod.snd hfirst hlt (fun p => .inr rfl) himports
  have heqleft := map_reword_commons Prod.fst h hfirst (fun p => .inl rfl)
  have heqright := map_reword_commons Prod.snd h hfirst (fun p => .inr rfl)
  exact ⟨commons first ps, _, _, hleft, hright, heqleft, heqright,
    heqleft ▸ parseProgram_reword hleft, heqright ▸ parseProgram_reword hright⟩

end TypeStrip.Grammar
