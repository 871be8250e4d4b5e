import TypeStrip.Grammar.Item
import TypeStrip.Proofs.Grammar.Expressions

/-! Declarations, and the items of modules and namespaces, are read soundly. -/
namespace TypeStrip.Grammar
open TypeStrip.Token (Kind)
open Site

variable {I : Cursor → Prop} [Kept I] {g : Inner}

/-! ### Declarations -/

theorem keeps_declarator (hg : KeepsInner I g) : Keeps I (declarator g) := by
  refine .bind (keeps_pattern hg) fun p hp => .bind (.discard (keeps_accept _)) fun _ _ => ?_
  refine .bind (keeps_after _ hg.type) fun _ _ => ?_
  exact .bind (keeps_after _ hg.assign) fun init hi => .pure (sound_declarator.2 ⟨hp, hi⟩)

theorem keeps_declarators (hg : KeepsInner I g) : Keeps I (declarators g) := by
  refine .get fun c => ?_
  split
  · refine .bind keeps_skip fun _ _ => .bind (keeps_sepBy1 _ (keeps_declarator hg)) fun ds h => ?_
    exact .pure ⟨trivial, h⟩
  · exact keeps_complain _

theorem keeps_varDeclaration (hg : KeepsInner I g) (isDeclare : Bool) :
    Keeps I (varDeclaration g isDeclare) := by
  refine .bind (keeps_declarators hg) fun ds h => .bind keeps_endStatement fun _ _ => .pure ?_
  exact Decl.sound trivial (allDeep_ofDeclarators.2 h.2)

theorem keeps_interfaceRest (hg : KeepsInner I g) : Keeps I (interfaceRest g) := by
  refine .bind (keeps_expectWord _) fun _ _ => .bind keeps_identifier fun _ _ => ?_
  refine .bind (keeps_optionalTypeParams hg) fun _ _ => .bind (keeps_accept _) fun _ _ => ?_
  refine .either (keeps_typeList hg) (.pure sound_nil) fun _ _ => ?_
  exact .bind (keeps_typeMembers hg) fun _ _ => .pure (Decl.sound trivial allDeep_nil)

theorem keeps_aliasRest (hg : KeepsInner I g) : Keeps I (aliasRest g) := by
  refine .bind (keeps_expectWord _) fun _ _ => .bind keeps_identifier fun _ _ => ?_
  refine .bind (keeps_optionalTypeParams hg) fun _ _ => .bind (.discard (keeps_expect _)) fun _ _ => ?_
  refine .bind hg.type fun _ _ => .bind keeps_endStatement fun _ _ => ?_
  exact .pure (Decl.sound trivial allDeep_nil)

@[reducible] def readEnumKey : Read Key := ⟨fun k => k.staticName?.isSome = true ∧ (Site.key k).children = []⟩

@[reducible] def readEnumMember : Read Member := ⟨fun m => m.isNamed = true ∧ AllDeep (ofMember m)⟩

theorem keeps_enumMember (hg : KeepsInner I g) :
    letI := readEnumMember
    Keeps I (enumMember g) := by
  let := readEnumKey
  let := readEnumMember
  have plain {k : Key} (hn : k.staticName?.isSome = true) (hk : (Site.key k).children = []) :
      Sound k :=
    ⟨hn, hk⟩
  refine .bind keeps_here fun start _ => .get fun c => ?_
  have rest (k : Key) (hk : Sound k) : Keeps I (do
      let init ← after .eq (withIn true g.assign)
      return Member.field (← since start) k none init {}) := by
    refine .bind (keeps_after _ (.withIn hg.assign)) fun init hi => .bind (keeps_since _) fun _ _ => ?_
    exact .pure ⟨hk.1, allDeep_cons.2 ⟨Key.sound (hk.2 ▸ allDeep_nil), allDeep_ofExpr?.2 hi⟩⟩
  refine .ite (.bind keeps_take fun t _ => .bind (.pure (plain rfl rfl)) rest) (.ite ?_ ?_)
  · exact .bind (.map keeps_anyName fun _ _ => plain rfl rfl) rest
  · exact .bind (keeps_complain _) rest

theorem keeps_enumRest (hg : KeepsInner I g) (isConst isDeclare : Bool) :
    Keeps I (enumRest g isConst isDeclare) := by
  refine .bind (.discard (keeps_expect _)) fun _ _ => .bind keeps_identifier fun _ _ => ?_
  refine .bind (.discard (keeps_expect _)) fun _ _ => ?_
  let := readEnumMember
  refine .bind (keeps_commaSeparated _ (keeps_enumMember hg)) fun ms hms => ?_
  refine .bind (.discard (keeps_expect _)) fun _ _ => .pure (Decl.sound ?_ ?_)
  · exact fun m hm => (hms m hm).1
  · refine allDeep_flatMap.2 fun m hm => ?_
    have h : AllDeep (ofMember m) := (hms m hm).2
    cases m with
    | field s k type init mods => exact (allDeep_cons.1 h).2
    | _ => exact allDeep_nil

section
variable {item : Parser Item}

theorem keeps_namespaceItems (hi : Keeps I item) : Keeps I (namespaceItems item) :=
  .bind (.discard (keeps_expect _)) fun _ _ => .bind (keeps_collectUntil _ hi) fun _ h =>
    .bind (.discard (keeps_expect _)) fun _ _ => .pure h

theorem keeps_namespaceUpTo (hi : Keeps I item) (isDeclare : Bool) (fuel : Nat) :
    Keeps I (namespaceUpTo item isDeclare fuel) := by
  have block (name : ModuleName) : Keeps I (do
      return Namespace.block name (← namespaceItems item) isDeclare) :=
    .bind (keeps_namespaceItems hi) fun items h => .pure (allDeep_map.2 h)
  induction fuel with
  | zero => exact keeps_complain _
  | succ fuel ih =>
    refine .get fun c => .ite (.bind keeps_take fun t _ => .get fun c => ?_) ?_
    · exact .ite (block _) (.bind keeps_endStatement fun _ _ => .pure allDeep_nil)
    · refine .bind keeps_identifier fun name _ => .bind (keeps_accept _) fun _ _ => ?_
      refine .ite (.bind keeps_here fun start _ => .bind ih fun n hn => ?_) (block _)
      exact .bind (keeps_since _) fun _ _ => .pure hn

theorem keeps_namespaceRest (hi : Keeps I item) (isDeclare : Bool) :
    Keeps I (namespaceRest item isDeclare) :=
  .get fun _ => .bind (keeps_namespaceUpTo hi _ _) fun _ hn => .pure (Decl.sound trivial hn)

theorem keeps_globalRest (hi : Keeps I item) : Keeps I (globalRest item) :=
  .bind keeps_identifier fun _ _ => .bind (keeps_namespaceItems hi) fun _ h =>
    .pure (Decl.sound trivial (allDeep_map.2 h))

private theorem keeps_functionDecl (hg : KeepsInner I g) (isAsync isDeclare mayLackBody : Bool) :
    Keeps I (do return Decl.function (← function g isAsync isDeclare mayLackBody)) :=
  .bind (keeps_function hg _ _ _) fun _ hf =>
    .pure (Decl.sound trivial (allDeep_cons.2 ⟨deep_function.2 hf, allDeep_nil⟩))

private theorem keeps_classDecl (hg : KeepsInner I g) (isAbstract isDeclare : Bool) :
    Keeps I (do return Decl.cls (← classRest g (leftHandSide g) isAbstract isDeclare)) :=
  .bind (keeps_classRest hg (keeps_leftHandSide hg) _ _) fun _ hc =>
    .pure (Decl.sound trivial (allDeep_cons.2 ⟨hc, allDeep_nil⟩))

theorem keeps_wordDeclaration (hg : KeepsInner I g) (hi : Keeps I item) (isDeclare : Bool)
    (word : String) : Keeps I (wordDeclaration g item isDeclare word) := by
  unfold wordDeclaration
  split
  · exact .bind keeps_skip fun _ _ => keeps_functionDecl hg _ _ _
  · exact .bind keeps_skip fun _ _ => keeps_classDecl hg _ _
  · exact keeps_interfaceRest hg
  · exact keeps_aliasRest hg
  · exact .bind keeps_skip fun _ _ => keeps_namespaceRest hi _
  · exact .bind keeps_skip fun _ _ => keeps_namespaceRest hi _
  · exact keeps_globalRest hi
  · exact keeps_complain _

theorem keeps_declarationBody (hg : KeepsInner I g) (hi : Keeps I item) (isDeclare : Bool) :
    Keeps I (declarationBody g item isDeclare) := by
  refine .get fun c => ?_
  split
  · exact keeps_functionDecl hg _ _ _
  · exact keeps_classDecl hg _ _
  · exact keeps_enumRest hg _ _
  · exact .ite (.bind keeps_skip fun _ _ => keeps_enumRest hg _ _) (keeps_complainFound _)
  · exact keeps_wordDeclaration hg hi _ _
  · exact keeps_complainFound _

theorem keeps_ambientDeclaration (hg : KeepsInner I g) (hi : Keeps I item) :
    Keeps I (ambientDeclaration g item) :=
  .get fun _ => .ite (keeps_varDeclaration hg _) (keeps_declarationBody hg hi _)

theorem keeps_declaration (hg : KeepsInner I g) (hi : Keeps I item) :
    Keeps I (declaration g item) :=
  .bind (keeps_acceptWord _) fun _ _ =>
    .ite (keeps_ambientDeclaration hg hi) (keeps_declarationBody hg hi _)

end

/-! ### Imports -/

theorem keeps_exportName : Keeps I exportName :=
  .get fun _ => .ite (.bind keeps_take fun _ _ => .pure trivial) keeps_anyName

theorem keeps_specifierType : Keeps I specifierType := .get fun _ => .when keeps_skip (.pure trivial)

theorem keeps_renamed {name : Parser Name} (hn : Keeps I name) : Keeps I (renamed name) :=
  .bind (keeps_acceptWord _) fun _ _ =>
    .ite (.bind hn fun _ _ => .pure (sound_some.2 trivial)) (.pure sound_none)

theorem keeps_skipAttributes (hg : KeepsInner I g) : Keeps I (skipAttributes g) :=
  .get fun _ => .ite
    (.bind keeps_skip fun _ _ => .discard (keeps_primary hg (keeps_leftHandSide hg)))
    (.pure trivial)

theorem keeps_fromClause (hg : KeepsInner I g) : Keeps I (fromClause g) :=
  .bind (keeps_expectWord _) fun _ _ => .bind (keeps_expect _) fun _ _ =>
    .bind (keeps_skipAttributes hg) fun _ _ => .pure trivial

theorem keeps_namedImport : Keeps I namedImport :=
  .bind keeps_specifierType fun _ _ => .bind keeps_exportName fun _ _ =>
    .bind (keeps_renamed keeps_identifier) fun _ _ => .pure trivial

theorem keeps_importClause : Keeps I importClause := by
  refine .bind (keeps_accept _) fun _ _ => .ite ?_ (.bind (keeps_accept _) fun _ _ => .ite ?_ ?_)
  · refine .bind (keeps_expectWord _) fun _ _ => .bind keeps_identifier fun _ _ => ?_
    exact .pure (sound_cons.2 ⟨trivial, sound_nil⟩)
  · refine .bind (keeps_commaSeparated _ keeps_namedImport) fun _ h => ?_
    exact .bind (.discard (keeps_expect _)) fun _ _ => .pure h
  · exact .pure sound_nil

theorem keeps_defaultImport : Keeps I defaultImport := by
  refine .get fun c => .ite (.pure sound_nil) (.when (keeps_complain _) ?_)
  refine .bind keeps_identifier fun _ _ => .bind (.discard (keeps_accept _)) fun _ _ => ?_
  exact .pure (sound_cons.2 ⟨trivial, sound_nil⟩)

theorem keeps_importDecl (hg : KeepsInner I g) : Keeps I (importDecl g) := by
  refine .bind (.discard (keeps_expect _)) fun _ _ => .get fun c => .when keeps_skip ?_
  refine .get fun c => .ite (.bind keeps_take fun _ _ => ?_) ?_
  · refine .bind (keeps_skipAttributes hg) fun _ _ => .bind keeps_endStatement fun _ _ => ?_
    exact .pure trivial
  · refine .bind keeps_defaultImport fun _ _ => .bind keeps_importClause fun _ _ => ?_
    refine .when (keeps_complain _) (.bind (keeps_fromClause hg) fun _ _ => ?_)
    exact .bind keeps_endStatement fun _ _ => .pure trivial

/-! ### Exports -/

private theorem sound_exported {i : Item} {d : Decl} (hi : (Site.item i).children = [.export_ i])
    (he : ofExport i = [.decl d]) (hd : Sound d) : Sound i :=
  Item.sound (hi ▸ allDeep_cons.2
    ⟨Item.sound_export (he ▸ allDeep_cons.2 ⟨hd, allDeep_nil⟩), allDeep_nil⟩)

private theorem sound_nameless {i : Item} (hi : (Site.item i).children = [.export_ i])
    (he : ofExport i = []) : Sound i :=
  Item.sound (hi ▸ allDeep_cons.2 ⟨Item.sound_export (he ▸ allDeep_nil), allDeep_nil⟩)

section
variable {item : Parser Item}

theorem keeps_exportDefault (hg : KeepsInner I g) (hi : Keeps I item) (start : Span) :
    Keeps I (exportDefault g item start) := by
  refine .get fun c => .ite ?_ ?_
  · refine .bind (keeps_declaration hg hi) fun d hd => .bind (keeps_since _) fun _ _ => ?_
    exact .bind (keeps_since _) fun _ _ => .pure (sound_exported rfl rfl hd)
  · refine .bind hg.assign fun e he => .bind keeps_endStatement fun _ _ => ?_
    refine .bind (keeps_since _) fun _ _ => .pure (Item.sound ?_)
    exact allDeep_cons.2 ⟨Item.sound_export he, allDeep_nil⟩

theorem keeps_exportAll (hg : KeepsInner I g) (start : Span) (typeOnly : Bool) :
    Keeps I (exportAll g start typeOnly) := by
  refine .bind (keeps_renamed keeps_anyName) fun _ _ => .bind (keeps_fromClause hg) fun _ _ => ?_
  refine .bind keeps_endStatement fun _ _ => .bind (keeps_since _) fun _ _ => ?_
  exact .pure (sound_nameless rfl rfl)

theorem keeps_exportSpecifier : Keeps I exportSpecifier :=
  .bind keeps_specifierType fun _ _ => .bind keeps_exportName fun _ _ =>
    .bind (keeps_renamed keeps_exportName) fun _ _ => .pure trivial

theorem keeps_exportList (hg : KeepsInner I g) (start : Span) (typeOnly : Bool) :
    Keeps I (exportList g start typeOnly) := by
  refine .bind (keeps_commaSeparated _ keeps_exportSpecifier) fun _ _ => ?_
  refine .bind (.discard (keeps_expect _)) fun _ _ => .get fun c => ?_
  refine .either (.map (keeps_fromClause hg) fun _ _ => sound_some.2 trivial) (.pure sound_none)
    fun _ _ => ?_
  refine .bind keeps_endStatement fun _ _ => .bind (keeps_since _) fun _ _ => ?_
  exact .pure (sound_nameless rfl rfl)

theorem keeps_exportDeclaration (hg : KeepsInner I g) (hi : Keeps I item) (start : Span) :
    Keeps I (exportDeclaration g item start) := by
  have rest {d : Decl} (hd : Sound d) (s : Span) : Keeps I (do
      return Item.exportDecl (← since start) (← since s) d) :=
    .bind (keeps_since _) fun _ _ => .bind (keeps_since _) fun _ _ =>
      .pure (sound_exported rfl rfl hd)
  refine .get fun c => .ite ?_ (.ite ?_ (keeps_complainFound _))
  · exact .bind (keeps_declaration hg hi) fun d hd => rest hd _
  · exact .bind (keeps_varDeclaration hg _) fun d hd => rest hd _

theorem keeps_exportItem (hg : KeepsInner I g) (hi : Keeps I item) :
    Keeps I (exportItem g item) := by
  refine .bind keeps_here fun start _ => .bind (.discard (keeps_expect _)) fun _ _ => ?_
  refine .bind (keeps_accept _) fun _ _ => .ite (keeps_exportDefault hg hi _) ?_
  refine .get fun c => .when (keeps_complain _) (.bind (keeps_acceptWord _) fun _ _ => .ite ?_ ?_)
  · refine .bind (keeps_expectWord _) fun _ _ => .bind (.discard keeps_identifier) fun _ _ => ?_
    refine .bind keeps_endStatement fun _ _ => .bind (keeps_since _) fun _ _ => ?_
    exact .pure (sound_nameless rfl rfl)
  · refine .get fun c => .when keeps_skip (.bind (keeps_accept _) fun _ _ => ?_)
    refine .ite (keeps_exportAll hg _ _) (.bind (keeps_accept _) fun _ _ => ?_)
    exact .ite (keeps_exportList hg _ _) (keeps_exportDeclaration hg hi _)

end

/-! ### Items -/

theorem keeps_itemUpTo (hg : KeepsInner I g) (fuel : Nat) : Keeps I (itemUpTo g fuel) := by
  induction fuel with
  | zero => exact keeps_complain _
  | succ fuel ih =>
    refine .get fun c => .ite ?_ (.ite (keeps_exportItem hg ih) ?_)
    · refine .bind (keeps_importDecl hg) fun d _ => .bind (keeps_since _) fun _ _ => .pure ?_
      exact Item.sound (allDeep_cons.2 ⟨deep_import, allDeep_nil⟩)
    · refine .bind hg.stmt fun t ht => .bind (keeps_since _) fun _ _ => .pure ?_
      exact Item.sound (allDeep_cons.2 ⟨ht, allDeep_nil⟩)

theorem keeps_item (hg : KeepsInner I g) : Keeps I (item g) := .get fun _ => keeps_itemUpTo hg _

end TypeStrip.Grammar
