import Mathlib.Data.List.Basic
import TypeStrip.Lowering.Shape
import TypeStrip.Proofs.Mentions.Code

/-!
What the code of single constructs mentions: what its parts mention, the module that an import or an
export names, and names that the lowering makes up or takes from declarations.
-/
namespace TypeStrip.Lowering
open TypeStrip.Code

variable {S : Mention → Prop}

/-! ### Results of lowerings -/

section
variable {α β : Type} {P : β → Prop} {Q : α → Prop} {x : Lower α}

/-- Whatever temporaries were made before, the result of a lowering has a property. -/
def Lower.Yields (x : Lower α) (P : α → Prop) : Prop := ∀ used, P (x.run used).1

theorem Lower.Yields.pure {b : β} (h : P b) : Lower.Yields (pure b) P := fun _ => h

theorem Lower.Yields.bind {f : α → Lower β} (hx : x.Yields Q) (hf : ∀ a, Q a → (f a).Yields P) :
    Lower.Yields (x >>= f) P :=
  fun used => hf _ (hx used) _

theorem Lower.Yields.map {f : α → β} (hx : x.Yields Q) (hf : ∀ a, Q a → P (f a)) :
    Lower.Yields (x >>= fun a => Pure.pure (f a)) P :=
  hx.bind fun a ha => .pure (hf a ha)

theorem Lower.Yields.trivial (x : Lower α) : x.Yields fun _ => True := fun _ => True.intro

theorem Lower.Yields.imp {P' : α → Prop} (hx : x.Yields Q) (h : ∀ a, Q a → P' a) : x.Yields P' :=
  fun used => h _ (hx used)

theorem Lower.Yields.and {P' : α → Prop} (hx : x.Yields Q) (hx' : x.Yields P') :
    x.Yields fun a => Q a ∧ P' a :=
  fun used => ⟨hx used, hx' used⟩

end

/-- A temporary is its base with a number. -/
theorem yields_fresh (base : String) :
    (fresh base).Yields fun name => ∃ number : Nat, name = base ++ "_" ++ toString number :=
  fun _ => ⟨_, rfl⟩

/-- What may be mentioned because of the context: the names that the lowering makes up, and those
that are used as values. -/
structure Admits (S : Mention → Prop) (ctx : Context) : Prop where
  exports : S (.name "exports")
  object : S (.name "Object")
  default : S (.name defaultName)
  temporary : ∀ source (number : Nat), S (.module source) →
    S (.name (temporaryBase source ++ "_" ++ toString number))
  values : ∀ name ∈ ctx.valueNames, S (.name name)

def Destination.IsAllowed (S : Mention → Prop) (dest : Destination) : Prop :=
  ∀ object, dest.object? = some object → S (.name object)

theorem Admits.destination {ctx : Context} (h : Admits S ctx) : ctx.destination.IsAllowed S := by
  unfold Context.destination
  split
  · intro object ho
    cases ho
    exact h.exports
  · intro object ho
    cases ho

theorem isAllowed_namespace {name : String} (h : S (.name name)) :
    (Destination.namespace_ name).IsAllowed S := by
  intro object ho
  cases ho
  exact h

/-! ### Expressions -/

theorem allowed_ident {name : String} (h : S (.name name)) :
    Allowed S (Code.Expr.ident name).mentions :=
  allowed_singleton.2 h

theorem allowed_concatenation {acc : Code.Expr} {texts : List String} {values : List Code.Expr}
    (hacc : Allowed S acc.mentions) (hvalues : Allowed S (mentionsOfExprs values)) :
    Allowed S (concatenation acc texts values).mentions := by
  fun_induction concatenation acc texts values with
  | case1 acc texts => exact hacc
  | case2 acc v vs ih =>
    rw [mentionsOfExprs, allowed_append] at hvalues
    exact ih (allowed_append.2 ⟨hacc, hvalues.1⟩) hvalues.2
  | case3 acc t ts v vs joined ih =>
    rw [mentionsOfExprs, allowed_append] at hvalues
    have hjoined : Allowed S joined.mentions := allowed_append.2 ⟨hacc, hvalues.1⟩
    refine ih ?_ hvalues.2
    split
    · exact hjoined
    · exact allowed_append.2 ⟨hjoined, allowed_nil⟩

theorem allowed_lowerTemplate (ctx : Context) (texts : List String) {values : List Code.Expr}
    (h : Allowed S (mentionsOfExprs values)) :
    Allowed S (lowerTemplate ctx texts values).mentions := by
  rw [lowerTemplate]
  split
  · exact allowed_concatenation allowed_nil h
  · exact h

theorem mentions_lowerArrow (ctx : Context) (usesThis : Bool) (f : Code.Func) :
    (lowerArrow ctx usesThis f).mentions = f.mentions := by
  rw [lowerArrow]
  split
  · split
    · simp only [Expr.mentions, mentionsOfExprs, List.append_nil]
    · rfl
  · rfl

theorem mentions_accessed (source : Expr) (e : Code.Expr) :
    (accessed source e).mentions = e.mentions := by
  rw [accessed]
  split <;> rfl

theorem mentions_instantiated (source : Expr) (e : Code.Expr) :
    (instantiated source e).mentions = e.mentions := by
  unfold instantiated
  split <;> rfl

/-! ### Statements -/

theorem mentionsOfStmts_branch (stmts : List Code.Stmt) :
    mentionsOfStmts (branch stmts) = mentionsOfStmts stmts := by
  unfold branch
  split
  · rw [mentionsOfStmts_singleton]
    rfl
  · rfl

theorem mentions_alternative (test : Code.Expr) (yes no : List Code.Stmt) :
    (alternative test yes no).mentions =
      test.mentions ++ mentionsOfStmts yes ++ mentionsOfStmts no := by
  unfold alternative
  split
  · rw [mentionsOfStmts_singleton]
    rfl
  · rw [mentionsOfStmts_singleton]
    rfl
  · rw [mentionsOfStmts_singleton]
    rfl
  · rw [Stmt.mentions, mentionsOfStmts_branch]

theorem mentions_property (object name : String) :
    (property object name).mentions = [.name object] := by
  rw [property]
  split <;> rfl

theorem mentions_assignment (target value : Code.Expr) :
    (assignment target value).mentions = target.mentions ++ value.mentions := rfl

theorem allowed_exported {object : String} (name : String) {value : Code.Expr}
    (ho : S (.name object)) (hv : Allowed S value.mentions) :
    Allowed S (exported object name value).mentions := by
  rw [exported, mentions_assignment, mentions_property]
  exact allowed_append.2 ⟨allowed_singleton.2 ho, hv⟩

theorem mentions_variable (name : String) (value : Code.Expr) :
    (variable_ name value).mentions = value.mentions :=
  List.append_nil _

theorem allowed_orEmptyObject {target : Code.Expr} (h : Allowed S target.mentions) :
    Allowed S (orEmptyObject target).mentions :=
  allowed_append.2 ⟨h, allowed_append.2 ⟨h, allowed_nil⟩⟩

/-! ### Constructors, enums and namespaces -/

def propertyNames (params : List Param) : List String :=
  (params.filter Param.isProperty).flatMap fun p => p.pattern.boundNames

theorem allowed_propertyAssignments {params : List Param}
    (h : ∀ name ∈ propertyNames params, S (.name name)) :
    Allowed S (mentionsOfStmts (propertyAssignments params)) := by
  refine allowed_mentionsOfStmts.2 fun s hs => ?_
  obtain ⟨p, hp, hs⟩ := List.mem_flatMap.1 hs
  obtain ⟨name, hname, rfl⟩ := List.mem_map.1 hs
  exact allowed_ident (h name (List.mem_flatMap.2 ⟨p, hp, hname⟩))

theorem allowed_constructorBody (derived : Bool) {params : List Param} (stmts : List Stmt)
    {lowered : List (List Code.Stmt)} (hp : ∀ name ∈ propertyNames params, S (.name name))
    (h : Allowed S (mentionsOfStmts lowered.flatten)) :
    Allowed S (mentionsOfStmts (constructorBody derived params stmts lowered)) := by
  have hsplit := List.take_append_drop (statementsBefore derived stmts) lowered
  rw [← hsplit, List.flatten_append, mentionsOfStmts_append, allowed_append] at h
  rw [constructorBody, mentionsOfStmts_append, mentionsOfStmts_append, allowed_append,
    allowed_append]
  exact ⟨⟨h.1, allowed_propertyAssignments hp⟩, h.2⟩

def MemberValue.mentions : MemberValue → List Mention
  | .known _ => []
  | .computed value => value.mentions

theorem allowed_bothWays {enum : String} (key : String) {value : Code.Expr} (he : S (.name enum))
    (hv : Allowed S value.mentions) : Allowed S (bothWays enum key value).mentions := by
  have hslot : Allowed S (memberSlot enum key).mentions :=
    allowed_append.2 ⟨allowed_ident he, allowed_nil⟩
  rw [bothWays, mentions_assignment]
  refine allowed_append.2 ⟨allowed_append.2 ⟨allowed_ident he, ?_⟩, allowed_nil⟩
  exact allowed_append.2 ⟨hslot, hv⟩

theorem allowed_memberStatement {enum : String} (he : S (.name enum)) {m : String × MemberValue}
    (hm : Allowed S m.2.mentions) : Allowed S (memberStatement enum m).mentions := by
  obtain ⟨key, value⟩ := m
  cases value with
  | known value =>
    cases value with
    | number x => exact allowed_bothWays key he allowed_nil
    | string s =>
      exact allowed_append.2 ⟨allowed_append.2 ⟨allowed_ident he, allowed_nil⟩, allowed_nil⟩
  | computed value => exact allowed_bothWays key he hm

theorem allowed_successor {enum : String} (he : S (.name enum)) (previous : Option String) :
    Allowed S (successor enum previous).mentions := by
  cases previous with
  | none => exact allowed_nil
  | some previous =>
    exact allowed_append.2 ⟨allowed_append.2 ⟨allowed_ident he, allowed_nil⟩, allowed_nil⟩

theorem allowed_lowerEnum {name : String} (hname : S (.name name))
    {members : List (String × MemberValue)} (h : ∀ m ∈ members, Allowed S m.2.mentions) :
    Allowed S (mentionsOfStmts (lowerEnum name members)) := by
  have hmembers : Allowed S (mentionsOfStmts (members.map (memberStatement name))) := by
    refine allowed_mentionsOfStmts.2 fun s hs => ?_
    obtain ⟨m, hm, rfl⟩ := List.mem_map.1 hs
    exact allowed_memberStatement hname (h m hm)
  rw [lowerEnum, mentionsOfStmts, mentionsOfStmts_singleton]
  exact allowed_append.2
    ⟨allowed_nil, allowed_append.2 ⟨hmembers, allowed_orEmptyObject (allowed_ident hname)⟩⟩

theorem allowed_lowerNamespaceBody {parent : Option String} {name : String}
    {body : List Code.Stmt} (hp : ∀ object, parent = some object → S (.name object))
    (hname : S (.name name)) (h : Allowed S (mentionsOfStmts body)) :
    Allowed S (mentionsOfStmts (lowerNamespaceBody parent name body)) := by
  unfold lowerNamespaceBody
  rw [mentionsOfStmts, mentionsOfStmts_singleton]
  refine allowed_append.2 ⟨allowed_nil, allowed_append.2 ⟨h, ?_⟩⟩
  cases parent with
  | none => exact allowed_orEmptyObject (allowed_ident hname)
  | some parent =>
    exact allowed_append.2
      ⟨allowed_ident hname, allowed_orEmptyObject (allowed_ident (hp parent rfl))⟩

/-! ### Imports -/

theorem allowed_bindFrom {holder : String} (h : S (.name holder)) (bindings : List Binding) :
    Allowed S (mentionsOfStmts (bindings.flatMap (bindFrom holder))) := by
  refine allowed_mentionsOfStmts.2 fun s hs => ?_
  obtain ⟨b, -, hs⟩ := List.mem_flatMap.1 hs
  cases b with
  | default name =>
    rw [List.mem_singleton.1 hs, mentions_variable]
    exact allowed_ident h
  | named imported name =>
    rw [List.mem_singleton.1 hs, mentions_variable, mentions_property]
    exact allowed_singleton.2 h
  | whole name => cases hs

theorem mem_of_wholeName? {bindings : List Binding} {name : String}
    (h : wholeName? bindings = some name) : .whole name ∈ bindings := by
  obtain ⟨b, hb, hname⟩ := List.exists_of_findSome?_eq_some h
  cases b with
  | whole name' => exact Option.some.inj hname ▸ hb
  | default | named => cases hname

theorem allowed_requiredBindings {ctx : Context} (hS : Admits S ctx) {source : String}
    {bindings : List Binding} (hsource : S (.module source))
    (hwhole : ∀ name, .whole name ∈ bindings → S (.name name)) :
    (requiredBindings source bindings).Yields fun stmts => Allowed S (mentionsOfStmts stmts) := by
  have hrequire : Allowed S (Code.Expr.require source).mentions := allowed_singleton.2 hsource
  unfold requiredBindings
  split
  · refine .pure ?_
    rw [mentionsOfStmts_singleton]
    exact hrequire
  · refine .pure ?_
    rw [mentionsOfStmts_singleton, mentions_variable]
    exact hrequire
  · refine .pure ?_
    rw [mentionsOfStmts_singleton, mentions_variable]
    exact hrequire
  · have hholder (holder : String) (h : S (.name holder)) : Allowed S (mentionsOfStmts
        (variable_ holder (.require source) :: bindings.flatMap (bindFrom holder))) := by
      rw [mentionsOfStmts, mentions_variable]
      exact allowed_append.2 ⟨hrequire, allowed_bindFrom h _⟩
    dsimp only
    cases hw : wholeName? bindings with
    | some name => exact .pure (hholder name (hwhole name (mem_of_wholeName? hw)))
    | none =>
      refine (yields_fresh (temporaryBase source)).map fun holder h => ?_
      obtain ⟨number, rfl⟩ := h
      exact hholder _ (hS.temporary source number hsource)

/-- A module that an import binds as a whole has a name that is used as a value. -/
theorem mem_valueNames_of_whole {ctx : Context} {d : Import} {name : String}
    (h : .whole name ∈ keptBindings ctx d) : name ∈ ctx.valueNames := by
  obtain ⟨s, hs, hb⟩ := List.mem_map.1 h
  have hkept := (Bool.and_eq_true_iff.1 (List.mem_filter.1 hs).2).2
  cases s with
  | whole n =>
    cases hb
    exact List.contains_iff_mem.1 hkept
  | default | named => cases hb

theorem allowed_lowerImport {ctx : Context} (hS : Admits S ctx) (dest : Destination) {d : Import}
    (h : S (.module d.source)) :
    (lowerImport ctx dest d).Yields fun stmts => Allowed S (mentionsOfStmts stmts) := by
  unfold lowerImport
  dsimp only
  split
  · exact .pure allowed_nil
  · split
    · exact .pure allowed_nil
    · exact allowed_requiredBindings hS h fun name hname =>
        hS.values name (mem_valueNames_of_whole hname)

/-! ### Exports -/

theorem allowed_defaultValue {dest : Destination} (hd : dest.IsAllowed S) {value : Code.Expr}
    (h : Allowed S value.mentions) : Allowed S (defaultValue dest value).mentions := by
  unfold defaultValue
  split
  · next ho => exact allowed_exported _ (hd _ ho) h
  · exact h

theorem mentions_namedFunction (f : Code.Func) : (namedFunction f).mentions = f.mentions := by
  cases f
  rfl

theorem mentions_namedClass (c : Code.Class) : (namedClass c).mentions = c.mentions := by
  cases c
  rfl

theorem allowed_defaultDeclaration {dest : Destination} (hd : dest.IsAllowed S)
    {stmts : List Code.Stmt} (hc : ∀ c, stmts = [.cls c] → S (.name (className c)))
    (h : Allowed S (mentionsOfStmts stmts)) :
    Allowed S (mentionsOfStmts (defaultDeclaration dest stmts)) := by
  unfold defaultDeclaration
  split
  · rw [mentionsOfStmts_singleton] at h
    split
    · rw [mentionsOfStmts_singleton, Stmt.mentions, mentions_namedFunction]
      exact h
    · rw [mentionsOfStmts_singleton]
      exact h
  · rw [mentionsOfStmts_singleton] at h
    split
    · next c _ object ho =>
      rw [mentionsOfStmts, mentionsOfStmts_singleton, Stmt.mentions, mentions_namedClass]
      exact allowed_append.2 ⟨h, allowed_exported _ (hd object ho) (allowed_ident (hc c rfl))⟩
    · rw [mentionsOfStmts_singleton]
      exact h
  · exact h

/-- Exports of values that are allowed. -/
theorem allowed_exports {α : Type} {object : String} (ho : S (.name object)) (name : α → String)
    {value : α → Code.Expr} {as : List α} (h : ∀ a ∈ as, Allowed S (value a).mentions) :
    Allowed S (mentionsOfStmts (as.map fun a => exported object (name a) (value a))) := by
  refine allowed_mentionsOfStmts.2 fun s hs => ?_
  obtain ⟨a, ha, rfl⟩ := List.mem_map.1 hs
  exact allowed_exported _ ho (h a ha)

theorem allowed_exportedDeclaration {dest : Destination} (hdest : dest.IsAllowed S) {d : Decl}
    {stmts : List Code.Stmt} (hnames : ∀ name ∈ d.boundNames, S (.name name))
    (h : Allowed S (mentionsOfStmts stmts)) :
    Allowed S (mentionsOfStmts (exportedDeclaration dest d stmts)) := by
  unfold exportedDeclaration
  split
  · exact allowed_nil
  · split
    · rw [mentionsOfStmts_singleton]
      exact h
    · next object ho =>
      split
      · exact h
      · rw [mentionsOfStmts_append, allowed_append]
        exact ⟨h, allowed_exports (hdest object ho) _ fun name hname =>
          allowed_ident (hnames name hname)⟩

theorem any_of_keptExports {ctx : Context} {specifiers : List ExportSpecifier}
    {source : Option String} (h : ¬(keptExports ctx specifiers source).isEmpty = true) :
    (specifiers.any fun s => !s.typeOnly) = true := by
  rw [List.isEmpty_iff, keptExports, List.map_eq_nil_iff] at h
  obtain ⟨s, hs⟩ := List.exists_mem_of_ne_nil _ h
  obtain ⟨hs, hkept⟩ := List.mem_filter.1 hs
  exact List.any_eq_true.2 ⟨s, hs, (Bool.and_eq_true_iff.1 hkept).1⟩

/-- A name that is exported is one of those that are no types. -/
theorem mem_of_keptExports {ctx : Context} {specifiers : List ExportSpecifier}
    {source : Option String} {n : String × String} (h : n ∈ keptExports ctx specifiers source) :
    n.1 ∈ (specifiers.filter fun s => !s.typeOnly).map fun s => s.inner.text := by
  obtain ⟨s, hs, rfl⟩ := List.mem_map.1 h
  obtain ⟨hs, hkept⟩ := List.mem_filter.1 hs
  exact List.mem_map.2 ⟨s, List.mem_filter.2 ⟨hs, (Bool.and_eq_true_iff.1 hkept).1⟩, rfl⟩

/-- Another module is required for the export of names if there is any name to export. -/
theorem allowed_lowerExportNames {ctx : Context} (hS : Admits S ctx) {dest : Destination}
    (hdest : dest.IsAllowed S) (specifiers : List ExportSpecifier) (source : Option String)
    (hmodule : ∀ s, source = some s → (specifiers.any fun s => !s.typeOnly) = true →
      S (.module s))
    (hnames : source = none → ∀ name ∈ (specifiers.filter fun s => !s.typeOnly).map
      (fun s => s.inner.text), S (.name name)) :
    (lowerExportNames ctx dest specifiers source).Yields fun stmts =>
      Allowed S (mentionsOfStmts stmts) := by
  unfold lowerExportNames
  dsimp only
  split
  · exact .pure allowed_nil
  · cases ho : dest.object? with
    | none =>
      refine .pure ?_
      rw [mentionsOfStmts_singleton]
      cases source with
      | some source => exact allowed_nil
      | none => exact List.forall_mem_map.2 fun n hn => hnames rfl n.1 (mem_of_keptExports hn)
    | some object =>
      cases source with
      | none =>
        exact .pure <| allowed_exports (hdest object ho) _ fun n hn =>
          allowed_ident (hnames rfl n.1 (mem_of_keptExports hn))
      | some source =>
        dsimp only
        split
        · exact .pure allowed_nil
        · next hne =>
          have hsource : S (.module source) := hmodule source rfl (any_of_keptExports hne)
          refine (yields_fresh (temporaryBase source)).map fun holder h => ?_
          obtain ⟨number, rfl⟩ := h
          rw [mentionsOfStmts, mentions_variable, allowed_append]
          refine ⟨allowed_singleton.2 hsource, allowed_exports (hdest object ho) _ fun n _ => ?_⟩
          rw [mentions_property]
          exact allowed_singleton.2 (hS.temporary source number hsource)

theorem allowed_lowerExportAll {ctx : Context} (hS : Admits S ctx) {dest : Destination}
    (hdest : dest.IsAllowed S) {source : String} (name : Option String)
    (h : S (.module source)) :
    (lowerExportAll dest source name).Yields fun stmts => Allowed S (mentionsOfStmts stmts) := by
  unfold lowerExportAll
  split
  · exact .pure allowed_nil
  · next object name ho =>
    refine .pure ?_
    rw [mentionsOfStmts_singleton]
    exact allowed_exported _ (hdest object ho) (allowed_singleton.2 h)
  · next object ho =>
    refine (yields_fresh (temporaryBase source)).map fun holder hholder => ?_
    obtain ⟨number, rfl⟩ := hholder
    have hcopy : Allowed S (Code.Stmt.copyExports (temporaryBase source ++ "_" ++ toString number)
        object).mentions :=
      allowed_cons.2 ⟨hS.temporary source number h,
        allowed_cons.2 ⟨hdest object ho, allowed_singleton.2 hS.object⟩⟩
    rw [mentionsOfStmts, mentionsOfStmts_singleton, mentions_variable]
    exact allowed_append.2 ⟨allowed_singleton.2 h, hcopy⟩

end TypeStrip.Lowering
