import TypeStrip.Grammar.Item
import TypeStrip.Proofs.Places.Expressions

/-! Declarations, and the items of modules and namespaces, are located. -/
namespace TypeStrip.Grammar
open Outlined
open TypeStrip.Token (Kind)

variable {S : Source} {stop : Nat} {g : Inner}

/-! ### Declarations -/

theorem locates_declarator (hg : LocatesInner S stop g) :
    LocatesTo S stop (fun _ => True) (declarator g) := by
  refine fun t => .bind (locates_pattern hg t) fun p t _ =>
    .bindDiscard (locates_accept (by decide) t) fun _ t => ?_
  refine .bind (locates_after (by decide) hg.type t) fun ty t _ => ?_
  refine .bind (locates_after (by decide) hg.assign t) fun e t _ => .ofParts trivial nofun ?_
  rw [parts_declarator, Declarator.outline]
  grind

theorem locates_declarators (hg : LocatesInner S stop g) : Locates S stop (declarators g) := by
  refine fun t => .get ?_
  split
  · rename_i kind hkind
    refine .skip (passable_of_some (by decide) hkind) ?_
    refine .bind (locates_sepBy1 (by decide) (locates_declarator hg) _) fun ds t _ => ?_
    exact .ofParts trivial (by simp) (by grind)
  · exact .complain _

theorem locates_varDeclaration (hg : LocatesInner S stop g) (isDeclare : Bool) :
    Locates S stop (varDeclaration g isDeclare) := by
  refine fun t => .bind (locates_declarators hg t) fun ds t _ =>
    .bind (locates_endStatement t) fun _ t _ => ?_
  exact .ofParts trivial (by simp) (by rw [parts_decl, Decl.outline_vars]; grind)

theorem locates_interfaceRest (hg : LocatesInner S stop g) : Locates S stop (interfaceRest g) := by
  refine fun t => .expectWord fun s t => .bind (locates_identifier t) fun n t _ => ?_
  refine .bind (locates_optionalTypeParams hg t) fun tps t _ =>
    .bind (locates_accept (by decide) t) fun _ t _ => ?_
  refine .either (fun _ => locates_typeList hg t) (fun _ => .nothing trivial rfl) fun ts t _ => ?_
  refine .between (by decide) (by decide) (locates_typeMembersOpen hg) fun ms s t _ => ?_
  refine .ofParts trivial (by simp) ?_
  intro o ho
  simp only [parts_decl, Decl.outline_interface, List.mem_append, List.mem_cons] at ho
  rcases ho with ((rfl | ho) | ho) | ho <;> simp [*]

theorem locates_aliasRest (hg : LocatesInner S stop g) : Locates S stop (aliasRest g) := by
  refine fun t => .expectWord fun s t => .bind (locates_identifier t) fun n t _ => ?_
  refine .bind (locates_optionalTypeParams hg t) fun tps t _ => .expect' (by decide) fun s t => ?_
  refine .bind (hg.type t) fun ty t _ => .bind (locates_endStatement t) fun _ t _ => ?_
  exact .ofParts trivial (by simp) (by rw [parts_decl, Decl.outline_alias]; grind)

theorem locates_enumMember (hg : LocatesInner S stop g) : Locates S stop (enumMember g) := by
  intro t₀
  have rest (k : Key) {t : Tape} {os : List Outline} (hk : k.outline ⊆ os) (hos : os ≠ []) :
      LocatesAt S stop t t₀.current.span os (Whole S) (do
        let init ← after .eq (withIn true g.assign)
        return Member.field (← since t₀.current.span) k none init {}) := by
    refine .bind (locates_after (by decide) (hg.assign.withIn true) t) fun e t _ => .since ?_
    exact .node trivial rfl (by simp [hos]) (by grind [outlineType?])
  refine .here <| .get <| .ite (fun h => ?_) fun _ => .ite (fun _ => ?_) fun _ => ?_
  · exact .take (passable_of_at_ h (by decide)) fun _ => rest _ (List.nil_subset _) (by simp)
  · rw [map_eq_pure_bind]
    exact .bind (locates_nameKey t₀) fun k t _ => rest k (by grind) (by simp)
  · exact .bindSame (.complain _) fun _ _ => False.elim

theorem locates_enumRest (hg : LocatesInner S stop g) (isConst isDeclare : Bool) :
    Locates S stop (enumRest g isConst isDeclare) := by
  refine fun t => .expect' (by decide) fun s t => .bind (locates_identifier t) fun n t _ => ?_
  refine .expect' (by decide) fun s t =>
    .bind (locates_commaSeparated _ (locates_enumMember hg) t) fun ms t _ => ?_
  refine .expect' (by decide) fun s t => .ofParts trivial (by simp) ?_
  rw [parts_decl, Decl.outline_enumeration]
  grind

section
variable {item : Parser Item}

theorem locates_namespaceUpTo (hi : Locates S stop item) (isDeclare : Bool) (fuel : Nat) :
    Locates S stop (namespaceUpTo item isDeclare fuel) := by
  have block (name : ModuleName) {t : Tape} {start : Span} {os : List Outline}
      (hn : name.outline ⊆ os) :
      LocatesAt S stop t start os (Whole S) (do
        return Namespace.block name (← namespaceItems item) isDeclare) := by
    refine .between (by decide) (by decide) (locates_collectUntil _ hi) fun is s t _ => ?_
    exact .ofParts trivial (by simp) (by rw [parts_namespace, Namespace.outline]; grind)
  induction fuel with
  | zero => exact fun _ => .complain _
  | succ fuel ih =>
    refine fun t => .get <| .ite (fun h => .take (passable_of_at_ h (by decide)) fun _ =>
      .get ?_) fun _ => ?_
    · refine .ite (fun _ => block _ (List.nil_subset _)) fun _ =>
        .bind (locates_endStatement _) fun _ t _ => ?_
      exact .ofParts trivial (by simp) (List.nil_subset _)
    · refine .bind (locates_identifier t) fun n t _ =>
        .bind (locates_accept (by decide) t) fun _ t _ => ?_
      refine .ite (fun _ => .here ?_) fun _ => block _ (by grind [ModuleName.outline])
      refine .bindNode rfl ih fun inner t _ => .since <| .ofParts trivial (by simp) ?_
      rw [parts_namespace, Namespace.outline, ModuleName.outline]
      grind

theorem locates_namespaceRest (hi : Locates S stop item) (isDeclare : Bool) :
    Locates S stop (namespaceRest item isDeclare) := fun t =>
  .get <| .bind (locates_namespaceUpTo hi _ _ t) fun _ _ _ => .ofParts trivial (by simp)
    (by rw [parts_decl, Decl.outline_namespace]; grind)

theorem locates_globalRest (hi : Locates S stop item) : Locates S stop (globalRest item) := by
  refine fun t => .bind (locates_identifier t) fun n t _ => ?_
  refine .between (by decide) (by decide) (locates_collectUntil _ hi) fun is s t _ => ?_
  exact .ofParts trivial (by simp) (by rw [parts_decl, Decl.outline_namespace, Namespace.outline]; grind
    [ModuleName.outline])

private theorem locatesAt_functionDecl (hg : LocatesInner S stop g)
    (isAsync isDeclare mayLackBody : Bool)
    {t : Tape} {start : Span} {os : List Outline} : LocatesAt S stop t start os (Whole S)
      (do return Decl.function (← function g isAsync isDeclare mayLackBody)) :=
  .bind (locates_function hg _ _ _ t) fun _ _ _ => .ofParts trivial (by simp)
    (by rw [parts_decl, Decl.outline_function]; grind)

private theorem locatesAt_classDecl (hg : LocatesInner S stop g) (isAbstract isDeclare : Bool)
    {t : Tape} {start : Span} {os : List Outline} : LocatesAt S stop t start os (Whole S)
      (do return Decl.cls (← classRest g (leftHandSide g) isAbstract isDeclare)) :=
  .bind (locates_classRest hg (locates_leftHandSide hg) _ _ t) fun _ _ _ =>
    .ofParts trivial (by simp)
    (by rw [parts_decl, Decl.outline_cls]; grind)

theorem locatesAt_wordDeclaration (hg : LocatesInner S stop g) (hi : Locates S stop item)
    (isDeclare : Bool)
    (word : String) {t : Tape} (h : t.Passable) :
    LocatesAt S stop t t.current.span [] (Whole S) (wordDeclaration g item isDeclare word) := by
  unfold wordDeclaration
  split
  · exact .skip h (locatesAt_functionDecl hg _ _ _)
  · exact .skip h (locatesAt_classDecl hg _ _)
  · exact locates_interfaceRest hg t
  · exact locates_aliasRest hg t
  · exact .skip h (.last (locates_namespaceRest hi _ _))
  · exact .skip h (.last (locates_namespaceRest hi _ _))
  · exact locates_globalRest hi t
  · exact .complain _

theorem locates_declarationBody (hg : LocatesInner S stop g) (hi : Locates S stop item)
    (isDeclare : Bool) :
    Locates S stop (declarationBody g item isDeclare) := by
  refine fun t => .get ?_
  split
  · exact locatesAt_functionDecl hg _ _ _
  · exact locatesAt_classDecl hg _ _
  · exact locates_enumRest hg _ _ t
  · rename_i h
    exact .ite (fun _ => .skip (passable_of_kind h (by decide))
      (.last (locates_enumRest hg _ _ _))) fun _ =>
      .complainFound _
  · rename_i h
    exact locatesAt_wordDeclaration hg hi _ _ (passable_of_kind h (by decide))
  · exact .complainFound _

theorem locates_ambientDeclaration (hg : LocatesInner S stop g) (hi : Locates S stop item) :
    Locates S stop (ambientDeclaration g item) := fun t =>
  .get <| .ite (fun _ => locates_varDeclaration hg _ t) fun _ => locates_declarationBody hg hi _ t

theorem locates_declaration (hg : LocatesInner S stop g) (hi : Locates S stop item) :
    Locates S stop (declaration g item) := fun t =>
  .bind (locates_acceptWord _ t) fun _ t _ =>
    .ite (fun _ => .last (locates_ambientDeclaration hg hi t))
    fun _ => .last (locates_declarationBody hg hi _ t)

end

/-! ### Imports -/

/-- The name of an export need not be written as it says. -/
theorem locates_exportName : LocatesTo S stop (fun _ => True) exportName := fun t =>
  .get <| .ite
    (fun h => .take (passable_of_at_ h (by decide)) fun _ =>
      .ofParts trivial (by simp) (List.Subset.refl _))
    fun _ => (locates_anyName t).weaken fun _ _ => trivial

theorem locates_specifierType : Locates S stop specifierType := fun _ =>
  .get <| .when (fun h => locatesAt_skip (passable_of_atWord (Bool.and_eq_true_iff.1 h).1)) fun _ =>
    .nothing trivial rfl

theorem locates_renamed {name : Parser Name} {P : Name → Prop} (hn : LocatesTo S stop P name) :
    LocatesTo S stop (fun _ => True) (renamed name) := fun t =>
  .bind (locates_acceptWord _ t) fun _ t _ => .ite
    (fun _ => .bind (hn t) fun _ _ _ => .ofParts trivial nofun (by rw [parts_some]; grind))
    fun _ => .nothing trivial rfl

theorem locates_skipAttributes (hg : LocatesInner S stop g) : Locates S stop
    (skipAttributes g) := by
  refine fun t => .get <| .ite (fun h => ?_) fun _ => .nothing trivial rfl
  have hp : t.Passable := by
    rcases Bool.or_eq_true_iff.1 (Bool.and_eq_true_iff.1 (Bool.and_eq_true_iff.1 h).1).1 with h | h
    · exact passable_of_at_ h (by decide)
    · exact passable_of_atWord h
  exact .skip hp <| .last <| (locates_primary hg (locates_leftHandSide hg) _).discard

theorem locates_fromClause (hg : LocatesInner S stop g) : Locates S stop (fromClause g) := by
  refine fun t => .expectWord fun s t => .expect (by decide) fun _ _ => ?_
  exact .bind (locates_skipAttributes hg _) fun _ _ _ => .nothing trivial rfl

theorem locates_namedImport : LocatesTo S stop (fun _ => True) namedImport := by
  refine fun t => .bind (locates_specifierType t) fun _ t _ =>
    .bind (locates_exportName t) fun n t _ => ?_
  refine .bind (locates_renamed locates_identifier t) fun r t _ => .ofParts trivial nofun ?_
  rw [parts_importSpecifier, ImportSpecifier.outline]
  grind

theorem locates_importClause : LocatesTo S stop (fun _ => True) importClause := by
  refine fun t => .bind (locates_accept (by decide) t) fun _ t _ => .ite (fun _ => ?_) fun _ => ?_
  · refine .expectWord fun s t => .bind (locates_identifier t) fun n t _ =>
      .ofParts trivial nofun ?_
    grind [ImportSpecifier.outline]
  · refine .bind (locates_accept (by decide) t) fun _ t _ => .ite (fun _ => ?_) fun _ =>
      .nothing trivial rfl
    refine .bind (locates_commaSeparated _ locates_namedImport t) fun ns t _ =>
      .expect' (by decide) fun s t => ?_
    exact .ofParts trivial nofun (by grind)

theorem locates_defaultImport : LocatesTo S stop (fun _ => True) defaultImport := by
  refine fun t => .get <| .ite (fun _ => .nothing trivial rfl) fun _ =>
    .check (fun _ => .complain _) fun _ => ?_
  refine .bind (locates_identifier t) fun n t _ =>
    .bindDiscard (locates_accept (by decide) t) fun _ t => ?_
  exact .ofParts trivial nofun (by grind [ImportSpecifier.outline])

theorem locates_importDecl (hg : LocatesInner S stop g) : Locates S stop (importDecl g) := by
  refine fun t => .expect' (by decide) fun s t => .get <|
    .when (fun h => locatesAt_skip ?_) fun t => .get ?_
  · exact passable_of_atWord (Bool.and_eq_true_iff.1 h).1
  refine .ite (fun h => .take (passable_of_at_ h (by decide)) fun _ => ?_) fun _ => ?_
  · refine .bind (locates_skipAttributes hg _) fun _ t _ =>
      .bind (locates_endStatement t) fun _ t _ => ?_
    exact .ofParts trivial (by simp) (List.nil_subset _)
  · refine .bind (locates_defaultImport t) fun first t _ =>
      .bind (locates_importClause t) fun others t _ => ?_
    refine .check (fun _ => .complain _) fun _ => .bind (locates_fromClause hg t) fun _ t _ => ?_
    refine .bind (locates_endStatement t) fun _ t _ => .ofParts trivial (by simp) ?_
    rw [parts_import, Import.outline]
    grind

/-! ### Exports -/

section
variable {item : Parser Item}

theorem locatesAt_exportDefault (hg : LocatesInner S stop g) (hi : Locates S stop item) {t : Tape}
    {start : Span} {os : List Outline} :
    LocatesAt S stop t start os (Whole S) (exportDefault g item start) := by
  refine .get <| .ite (fun _ => ?_) fun _ => ?_
  · refine .bindNode rfl (locates_declaration hg hi) fun d t _ => ?_
    exact .since <| .since <| .node trivial rfl (by simp)
      (List.cons_subset_cons _ (List.nil_subset _))
  · refine .bind (hg.assign t) fun e t _ => .bind (locates_endStatement t) fun _ t _ => .since ?_
    exact .node trivial rfl (by simp) (by grind)

theorem locatesAt_exportAll (hg : LocatesInner S stop g) (typeOnly : Bool) {t : Tape}
    {start : Span} {os : List Outline} (hos : os ≠ []) :
    LocatesAt S stop t start os (Whole S) (exportAll g start typeOnly) := by
  refine .bind (locates_renamed locates_anyName t) fun n t _ =>
    .bind (locates_fromClause hg t) fun _ t _ => ?_
  refine .bind (locates_endStatement t) fun _ t _ => .since ?_
  exact .node trivial rfl (by simp [hos]) (by grind)

theorem locates_exportSpecifier : LocatesTo S stop (fun _ => True) exportSpecifier := by
  refine fun t => .bind (locates_specifierType t) fun _ t _ =>
    .bind (locates_exportName t) fun n t _ => ?_
  refine .bind (locates_renamed locates_exportName t) fun r t _ => .ofParts trivial nofun ?_
  rw [parts_exportSpecifier, ExportSpecifier.outline]
  grind

theorem locatesAt_exportList (hg : LocatesInner S stop g) (typeOnly : Bool) {t : Tape}
    {start : Span} {os : List Outline} :
    LocatesAt S stop t start os (Whole S) (exportList g start typeOnly) := by
  refine .bind (locates_commaSeparated _ locates_exportSpecifier t) fun ss t _ =>
    .expect' (by decide) fun s t => .get ?_
  refine .either (fun _ => (locates_fromClause hg).some t)
    (fun _ => .nothing nofun rfl) fun _ t _ => ?_
  refine .bind (locates_endStatement t) fun _ t _ => .since ?_
  exact .node trivial rfl (by simp) (by grind)

theorem locatesAt_exportDeclaration (hg : LocatesInner S stop g) (hi : Locates S stop item)
    {t : Tape}
    {start : Span} {os : List Outline} :
    LocatesAt S stop t start os (Whole S) (exportDeclaration g item start) := by
  refine .get <| .ite (fun _ => ?_) fun _ => .ite (fun _ => ?_) fun _ => .complainFound _
  · refine .bindNode rfl (locates_declaration hg hi) fun d t _ => .since <| .since ?_
    exact .node trivial rfl (by simp) (List.cons_subset_cons _ (List.nil_subset _))
  · refine .bindNode rfl (locates_varDeclaration hg _) fun d t _ => .since <| .since ?_
    exact .node trivial rfl (by simp) (List.cons_subset_cons _ (List.nil_subset _))

theorem locates_exportItem (hg : LocatesInner S stop g) (hi : Locates S stop item) :
    Locates S stop (exportItem g item) := by
  refine fun t => .here <| .expect' (by decide) fun s t =>
    .bind (locates_accept (by decide) t) fun _ t _ => ?_
  refine .ite (fun _ => locatesAt_exportDefault hg hi) fun _ => .get <|
    .check (fun _ => .complain _) fun _ => ?_
  refine .bind (locates_acceptWord _ t) fun _ t _ => .ite (fun _ => ?_) fun _ => .get ?_
  · refine .expectWord fun s t => .bindDiscard (locates_identifier t) fun _ t => ?_
    refine .bind (locates_endStatement t) fun _ t _ => .since <|
      .node trivial rfl (by simp) (List.nil_subset _)
  · refine .when (fun h => locatesAt_skip
      (passable_of_atWord (Bool.and_eq_true_iff.1 h).1)) fun t => ?_
    refine .bind (locates_accept (by decide) t) fun _ t _ => .ite (fun _ => ?_) fun _ => ?_
    · exact locatesAt_exportAll hg _ (by simp)
    · exact .bind (locates_accept (by decide) t) fun _ t _ =>
        .ite (fun _ => locatesAt_exportList hg _) fun _ =>
        locatesAt_exportDeclaration hg hi

end

/-! ### Items -/

theorem locates_itemUpTo (hg : LocatesInner S stop g) (fuel : Nat) : Locates S stop
    (itemUpTo g fuel) := by
  induction fuel with
  | zero => exact fun _ => .complain _
  | succ fuel ih =>
    refine fun t => .get <| .ite (fun _ => ?_) fun _ =>
      .ite (fun _ => locates_exportItem hg ih t) fun _ => ?_
    · refine .bind (locates_importDecl hg t) fun d t _ => .since ?_
      exact .node trivial rfl (by simp) (by grind)
    · refine .bind (hg.stmt t) fun a t _ => .since ?_
      exact .node trivial rfl (by simp) (by grind)

theorem locates_item (hg : LocatesInner S stop g) : Locates S stop (item g) := fun t =>
  .get <| locates_itemUpTo hg _ t

end TypeStrip.Grammar
