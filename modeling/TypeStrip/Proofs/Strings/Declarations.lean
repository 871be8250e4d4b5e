import TypeStrip.Grammar.Item
import TypeStrip.Proofs.Strings.Expressions

/-!
Declarations, imports and exports are read alike however strings are worded. Only where an import
may be one of types is the text of a string looked at.
-/
namespace TypeStrip.Grammar
open TypeStrip.Token (Kind)
open Reworded

variable {σ : String → String} {t : Tape} {g : Inner}

/-! ### Declarations -/

section
variable (hg : CarriesInner σ g)
include hg

theorem carries_declarator : Carries σ (declarator g) (declarator g) := by
  refine .bind (carries_pattern hg) fun p => .bind (.discard (carries_accept _)) fun _ => ?_
  refine .bind (.after _ hg.type) fun type => .bind (.after _ hg.assign) fun init => .pure ?_
  simp [reword]

theorem carries_declarators : Carries σ (declarators g) (declarators g) := by
  refine .get fun c => ?_
  simp only [Cursor.current_reword, Token.kind_reword]
  split
  · exact .bind carries_skip fun _ => .bind (.sepBy1 _ (carries_declarator hg)) fun ds => .pure rfl
  · exact carries_complain _

theorem carries_varDeclaration (isDeclare : Bool) :
    Carries σ (varDeclaration g isDeclare) (varDeclaration g isDeclare) := by
  refine .bind (carries_declarators hg) fun ds => .bind carries_endStatement fun _ => .pure ?_
  simp [reword]

omit hg in
@[simp] theorem Cursor.atDeclaration_reword (c : Cursor) :
    (c.reword σ).atDeclaration = c.atDeclaration := by
  by_cases h : c.current.kind = .string
  · simp [atDeclaration, h]
  · rw [atDeclaration, current_reword_of_ne_string σ c h, sees_reword, sees_reword, sees_reword,
      seesAny_reword, seesAny_reword, sameLine_reword, peek?_reword, Token.any_reword fun _ => rfl,
      sees_reword, sees_reword, atDeclaration]

theorem carries_interfaceRest : Carries σ (interfaceRest g) (interfaceRest g) := by
  refine .bind (carries_expectWord _) fun _ => .bind carries_identifier fun name => ?_
  refine .bind (carries_optionalTypeParams hg) fun ps => .bind (carries_accept _) fun _ => ?_
  refine .either (carries_typeList hg) (.pure rfl) fun bases => ?_
  exact .bind (carries_typeMembers hg) fun ms => .pure (by simp [reword])

theorem carries_aliasRest : Carries σ (aliasRest g) (aliasRest g) := by
  refine .bind (carries_expectWord _) fun _ => .bind carries_identifier fun name => ?_
  refine .bind (carries_optionalTypeParams hg) fun ps => ?_
  refine .bind (.discard (carries_expect _)) fun _ => ?_
  refine .bind hg.type fun type => .bind carries_endStatement fun _ => .pure ?_
  simp [reword]

theorem carries_enumMember : Carries σ (enumMember g) (enumMember g) := by
  have rest (start : Span) (k : Key) : Carries σ
      (do
        let init ← after .eq (withIn true g.assign)
        return Member.field (← since start) k none init {})
      (do
        let init ← after .eq (withIn true g.assign)
        return Member.field (← since start) (reword σ k) none init {}) := by
    refine .bind (.after _ (hg.assign.withIn _)) fun init => ?_
    refine .bind (carries_since _) fun _ => .pure ?_
    simp [reword]
  refine .bind carries_here fun start t => .fits fun ht => .get (.ite (fun h => ?_) fun _ => ?_)
  · have hk : t.current.kind = .string := kind_of_at_ h
    refine .take (by rw [hk]; decide) (.bind (.pure ?_) (rest start))
    exact congrArg Key.string (ht.value_reword (.inr hk))
  · refine Carries.ite (.bind ?_ (rest start)) ?_ t
    · exact .map (f := Key.ident) carries_anyName fun _ => rfl
    · exact .bind (carries_complain _) (rest start)

theorem carries_enumRest (isConst isDeclare : Bool) :
    Carries σ (enumRest g isConst isDeclare) (enumRest g isConst isDeclare) := by
  refine .bind (.discard (carries_expect _)) fun _ => .bind carries_identifier fun name => ?_
  refine .bind (.discard (carries_expect _)) fun _ => ?_
  refine .bind (.commaSeparated _ (carries_enumMember hg)) fun ms => ?_
  refine .bind (.discard (carries_expect _)) fun _ => .pure ?_
  simp [reword]

end

section
variable {item : Parser Item} (hi : Carries σ item item)
include hi

theorem carries_namespaceItems : Carries σ (namespaceItems item) (namespaceItems item) :=
  .bind (.discard (carries_expect _)) fun _ => .bind (.collectUntil _ hi) fun _ =>
    .bind (.discard (carries_expect _)) fun _ => .pure rfl

theorem carries_namespaceUpTo (isDeclare : Bool) (fuel : Nat) :
    Carries σ (namespaceUpTo item isDeclare fuel) (namespaceUpTo item isDeclare fuel) := by
  have block {name name' : ModuleName} (h : name' = name.reword σ) : Carries σ
      (do return Namespace.block name (← namespaceItems item) isDeclare)
      (do return Namespace.block name' (← namespaceItems item) isDeclare) := by
    refine .bind (carries_namespaceItems hi) fun items => .pure ?_
    simp [reword, h]
  induction fuel with
  | zero => exact carries_complain _
  | succ fuel ih =>
    refine fun t => .fits fun ht => .get (.ite (fun h => ?_) fun _ => ?_)
    · have hk : t.current.kind = .string := kind_of_at_ h
      have hname : ModuleName.string (t.current.reword σ).value =
          (ModuleName.string t.current.value).reword σ :=
        congrArg ModuleName.string (ht.value_reword (.inr hk))
      refine .take (by rw [hk]; decide) (Carries.get (fun c => .ite (block hname) ?_) _)
      refine .bind carries_endStatement fun _ => .pure ?_
      exact congrArg (Namespace.ambient · isDeclare) hname
    · refine .bind (carries_identifier t) fun name => .bind (carries_accept _) fun _ => ?_
      refine .ite (.bind carries_here fun start => .bind ih fun inner => ?_) (block rfl)
      exact .bind (carries_since _) fun _ => .pure rfl

theorem carries_namespaceRest (isDeclare : Bool) :
    Carries σ (namespaceRest item isDeclare) (namespaceRest item isDeclare) := by
  refine .get fun c => ?_
  rw [Cursor.remaining_reword]
  exact .bind (carries_namespaceUpTo hi _ _) fun _ => .pure rfl

theorem carries_globalRest : Carries σ (globalRest item) (globalRest item) := by
  refine .bind carries_identifier fun name => ?_
  refine .bind (carries_namespaceItems hi) fun items => .pure ?_
  simp [reword, ModuleName.reword]

variable (hg : CarriesInner σ g)
include hg

theorem carries_wordDeclaration (isDeclare : Bool) (word : String) :
    Carries σ (wordDeclaration g item isDeclare word) (wordDeclaration g item isDeclare word) := by
  unfold wordDeclaration
  split
  · exact .bind carries_skip fun _ => .bind (carries_function hg _ _ _) fun _ => .pure rfl
  · refine .bind carries_skip fun _ => ?_
    exact .bind (carries_classRest hg (carries_leftHandSide hg) _ _) fun _ => .pure rfl
  · exact carries_interfaceRest hg
  · exact carries_aliasRest hg
  · exact .bind carries_skip fun _ => carries_namespaceRest hi _
  · exact .bind carries_skip fun _ => carries_namespaceRest hi _
  · exact carries_globalRest hi
  · exact carries_complain _

theorem carries_declarationBody (isDeclare : Bool) :
    Carries σ (declarationBody g item isDeclare) (declarationBody g item isDeclare) := by
  refine .get fun c => ?_
  by_cases hs : c.current.kind = .string
  · simp only [Cursor.current_reword, Token.kind_reword, hs]
    exact carries_complainFound _
  rw [Cursor.current_reword_of_ne_string σ c hs, Cursor.sees_reword]
  split
  · exact .bind (carries_function hg _ _ _) fun _ => .pure rfl
  · exact .bind (carries_classRest hg (carries_leftHandSide hg) _ _) fun _ => .pure rfl
  · exact carries_enumRest hg _ _
  · exact .ite (.bind carries_skip fun _ => carries_enumRest hg _ _) (carries_complainFound _)
  · exact carries_wordDeclaration hi hg _ _
  · exact carries_complainFound _

theorem carries_ambientDeclaration :
    Carries σ (ambientDeclaration g item) (ambientDeclaration g item) := by
  refine .get fun c => ?_
  rw [Cursor.sees_reword]
  exact .ite (carries_varDeclaration hg _) (carries_declarationBody hi hg _)

theorem carries_declaration : Carries σ (declaration g item) (declaration g item) :=
  .bind (carries_acceptWord _) fun _ =>
    .ite (carries_ambientDeclaration hi hg) (carries_declarationBody hi hg _)

end

/-! ### Imports -/

theorem carries_exportName : Carries σ exportName exportName := fun t =>
  .fits fun ht => .get (.ite
    (fun h => .take (Cursor.kind_of_at_ h) (.pure (ht.name_reword (.inr (kind_of_at_ h)))))
    fun _ => carries_anyName t)

theorem carries_specifierType : Carries σ specifierType specifierType := by
  refine .get fun c => ?_
  rw [Cursor.atWord_reword, Cursor.peek?_reword, Token.any_reword]
  · exact .when carries_skip (.pure rfl)
  · exact Cursor.word_reword σ (fun k => k == .identifier || k.isReserved) (by decide)
      (· != "as")

theorem carries_renamed {name : Parser Name} (hn : Carries σ name name) :
    Carries σ (renamed name) (renamed name) :=
  .bind (carries_acceptWord _) fun _ => .ite (.bind hn fun _ => .pure rfl) (.pure rfl)

/-- After `import`, a string is looked at only behind the words `type from`. -/
theorem importsTypes_reword (ht : t.Fits σ) :
    importsTypes (t.cursor.reword σ) = importsTypes t.cursor := by
  simp only [importsTypes, Cursor.atWord_reword, Cursor.seesAny_reword, Cursor.sees_reword,
    Cursor.peek?_reword]
  by_cases htype : t.cursor.atWord "type" = true
  case neg => simp [htype]
  have hword := Bool.and_eq_true_iff.1 htype
  simp only [Cursor.sees, Cursor.peek?, show t.cursor.following = t.following from rfl]
  rcases hf : t.following with _ | ⟨b, rest⟩
  · rfl
  simp only [List.getElem?_cons_zero, List.getElem?_cons_succ, Option.map_some, Option.any_some]
  by_cases hb : b.kind = .identifier
  case neg => simp only [beq_eq_false_iff_ne.2 hb, Bool.false_and]
  have hreword : b.reword σ = b := Token.reword_of_ne_string (by rw [hb]; decide)
  by_cases hfrom : b.value = "from"
  case neg => simp only [hreword, bne_iff_ne.2 hfrom, Bool.true_or]
  rcases rest with _ | ⟨c, rest⟩
  · simp [hreword]
  by_cases hc : c.kind = .string
  · have himports := ht.unnoticed.imports t.current b c rest (hf ▸ List.suffix_rfl)
      (kind_of_at_ hword.1) (beq_iff_eq.1 hword.2) hb hfrom hc
    have hvalue : (c.reword σ).value = σ c.value := if_pos hc
    have hbeq : (σ c.value == "from") = (c.value == "from") :=
      Bool.eq_iff_iff.2 (by simpa using himports)
    simp only [hreword, List.getElem?_cons_zero, Option.map_some, Option.any_some, hvalue, hbeq]
  · simp [hreword, Token.reword_of_ne_string hc]

-- `import type from 'from'` is an import of types, with another string it is not.
example : ["from", "m"].map (fun text => importsTypes
    ⟨default, ⟨.identifier, default, "type", false⟩,
      [⟨.identifier, default, "from", false⟩, ⟨.string, default, text, false⟩]⟩) = [true, false] := by
  decide

theorem carries_namedImport : Carries σ namedImport namedImport :=
  .bind carries_specifierType fun _ => .bind carries_exportName fun _ =>
    .bind (carries_renamed carries_identifier) fun _ => .pure rfl

theorem carries_importClause : Carries σ importClause importClause := by
  refine .bind (carries_accept _) fun _ => .ite ?_ (.bind (carries_accept _) fun _ => .ite ?_ ?_)
  · exact .bind (carries_expectWord _) fun _ => .bind carries_identifier fun _ => .pure rfl
  · refine .bind (.commaSeparated _ carries_namedImport) fun _ => ?_
    exact .bind (.discard (carries_expect _)) fun _ => .pure rfl
  · exact .pure rfl

theorem carries_defaultImport : Carries σ defaultImport defaultImport := by
  refine .get fun c => ?_
  simp only [Cursor.at_reword, Cursor.sees_reword]
  refine .ite (.pure rfl) (.when (carries_complain _) (.bind carries_identifier fun _ => ?_))
  exact .bind (.discard (carries_accept _)) fun _ => .pure rfl

section
variable (hg : CarriesInner σ g)
include hg

theorem carries_skipAttributes : Carries σ (skipAttributes g) (skipAttributes g) := by
  refine .get fun c => ?_
  simp only [Cursor.at_reword, Cursor.atWord_reword, Cursor.sees_reword, Cursor.current_reword,
    Token.newlineBefore_reword]
  refine .ite (.bind carries_skip fun _ => ?_) (.pure rfl)
  exact .discard (carries_primary hg (carries_leftHandSide hg))

theorem carries_fromClause : Carries σ (fromClause g) (fromClause g) := by
  refine .bind (carries_expectWord _) fun _ t => .fits fun ht => .expect fun hk => ?_
  exact .bind (carries_skipAttributes hg _) fun _ => .pure (ht.value_reword (.inr hk))

theorem carries_importDecl : Carries σ (importDecl g) (importDecl g) := by
  refine .bind (.discard (carries_expect _)) fun _ t => .fits fun ht => .get ?_
  rw [importsTypes_reword ht]
  refine Carries.when carries_skip (fun t => .fits fun ht => .get ?_) t
  refine .ite (fun h => ?_) fun _ => ?_
  · refine .take (Cursor.kind_of_at_ h) (.bind (carries_skipAttributes hg _) fun _ => ?_)
    refine .bind carries_endStatement fun _ => .pure ?_
    rw [ht.value_reword (.inr (kind_of_at_ h))]
    rfl
  · refine .bind (carries_defaultImport t) fun first => .bind carries_importClause fun rest => ?_
    have happend : reword σ first ++ reword σ rest = reword σ (first ++ rest) :=
      List.map_append.symm
    simp only [happend, show (reword σ (first ++ rest)).isEmpty = (first ++ rest).isEmpty from
      List.isEmpty_map]
    refine .when (carries_complain _) (.bind (carries_fromClause hg) fun _ => ?_)
    exact .bind carries_endStatement fun _ => .pure rfl

/-! ### Exports -/

omit hg in
@[simp] theorem Cursor.atDefaultDeclaration_reword (c : Cursor) :
    (c.reword σ).atDefaultDeclaration = c.atDefaultDeclaration := by
  simp [atDefaultDeclaration]

omit hg in
theorem carries_exportSpecifier : Carries σ exportSpecifier exportSpecifier :=
  .bind carries_specifierType fun _ => .bind carries_exportName fun _ =>
    .bind (carries_renamed carries_exportName) fun _ => .pure rfl

theorem carries_exportAll (start : Span) (typeOnly : Bool) :
    Carries σ (exportAll g start typeOnly) (exportAll g start typeOnly) := by
  refine .bind (carries_renamed carries_anyName) fun _ => .bind (carries_fromClause hg) fun _ => ?_
  exact .bind carries_endStatement fun _ => .bind (carries_since _) fun _ => .pure rfl

theorem carries_exportList (start : Span) (typeOnly : Bool) :
    Carries σ (exportList g start typeOnly) (exportList g start typeOnly) := by
  refine .bind (.commaSeparated _ carries_exportSpecifier) fun _ => ?_
  refine .bind (.discard (carries_expect _)) fun _ => .get fun c => ?_
  rw [Cursor.atWord_reword]
  refine .either (.map (carries_fromClause hg) fun _ => rfl) (.pure rfl) fun source => ?_
  exact .bind carries_endStatement fun _ => .bind (carries_since _) fun _ => .pure rfl

variable {item : Parser Item} (hi : Carries σ item item)
include hi

theorem carries_exportDefault (start : Span) :
    Carries σ (exportDefault g item start) (exportDefault g item start) := by
  refine .get fun c => ?_
  simp only [Cursor.atDefaultDeclaration_reword, Cursor.current_reword, Token.span_reword]
  refine .ite ?_ ?_
  · refine .bind (carries_declaration hi hg) fun d => .bind (carries_since _) fun _ => ?_
    exact .bind (carries_since _) fun _ => .pure rfl
  · refine .bind hg.assign fun e => .bind carries_endStatement fun _ => ?_
    exact .bind (carries_since _) fun _ => .pure rfl

theorem carries_exportDeclaration (start : Span) :
    Carries σ (exportDeclaration g item start) (exportDeclaration g item start) := by
  have rest (d : Decl) (s : Span) : Carries σ
      (do return Item.exportDecl (← since start) (← since s) d)
      (do return Item.exportDecl (← since start) (← since s) (reword σ d)) :=
    .bind (carries_since _) fun _ => .bind (carries_since _) fun _ => .pure rfl
  refine .get fun c => ?_
  simp only [Cursor.atDeclaration_reword, Cursor.current_reword, Token.span_reword,
    Token.kind_reword]
  refine .ite ?_ (.ite ?_ (carries_complainFound _))
  · exact .bind (carries_declaration hi hg) fun d => rest d _
  · exact .bind (carries_varDeclaration hg _) fun d => rest d _

theorem carries_exportItem : Carries σ (exportItem g item) (exportItem g item) := by
  refine .bind carries_here fun start => .bind (.discard (carries_expect _)) fun _ => ?_
  refine .bind (carries_accept _) fun _ => .ite (carries_exportDefault hg hi _) ?_
  refine .get fun c => .when (carries_complain _) (.bind (carries_acceptWord _) fun _ => .ite ?_ ?_)
  · refine .bind (carries_expectWord _) fun _ => .bind (.discard carries_identifier) fun _ => ?_
    exact .bind carries_endStatement fun _ => .bind (carries_since _) fun _ => .pure rfl
  · refine .get fun c => ?_
    simp only [Cursor.atWord_reword, Cursor.seesAny_reword]
    refine .when carries_skip (.bind (carries_accept _) fun _ => ?_)
    refine .ite (carries_exportAll hg _ _) (.bind (carries_accept _) fun _ => ?_)
    exact .ite (carries_exportList hg _ _) (carries_exportDeclaration hg hi _)

omit hi in
theorem carries_itemUpTo (fuel : Nat) : Carries σ (itemUpTo g fuel) (itemUpTo g fuel) := by
  induction fuel with
  | zero => exact carries_complain _
  | succ fuel ih =>
    refine .get fun c => ?_
    simp only [Cursor.atImport, Cursor.at_reword, Cursor.seesAny_reword, Cursor.current_reword,
      Token.span_reword]
    refine .ite ?_ (.ite (carries_exportItem hg ih) ?_)
    · exact .bind (carries_importDecl hg) fun d => .bind (carries_since _) fun _ => .pure rfl
    · exact .bind hg.stmt fun s => .bind (carries_since _) fun _ => .pure rfl

omit hi in
theorem carries_item : Carries σ (Grammar.item g) (Grammar.item g) := by
  refine .get fun c => ?_
  rw [Cursor.remaining_reword]
  exact carries_itemUpTo hg _

end

end TypeStrip.Grammar
