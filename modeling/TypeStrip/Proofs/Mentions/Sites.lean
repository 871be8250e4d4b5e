import TypeStrip.Project.Import
import TypeStrip.Proofs.Erasure.Lowering
import TypeStrip.Proofs.Mentions.Shapes

/-! What the parts of a module allow the code for them to mention. -/
namespace TypeStrip
open Lowering Code

/-! ### Names that are mentioned without being used -/

def Namespace.names : Namespace → List String
  | .block (.ident n) _ _ => [n.text]
  | .dotted (.ident n) _ inner _ => n.text :: inner.names
  | _ => []

def Property.assignedName? : Property → Option String
  | .pair (.ident k) (.assign ..) true => some k.text
  | _ => none

namespace Site

/-- The names of declarations that the code for a site mentions: those of enums and namespaces,
whose objects are filled, those that are exported, and those of parameters that are also
properties. -/
def declaredNames : Site → List String
  | .decl (.enumeration name _ _ _) => [name.text]
  | .decl (.namespace_ n) => n.names
  | .export_ (.exportDecl _ _ d) | .export_ (.exportDefaultDecl _ _ d) => d.boundNames
  | .function f => propertyNames f.params
  | _ => []

def assignedNames : Site → List String
  | .expr (.object _ ps) => ps.filterMap Property.assignedName?
  | _ => []

def reexported? : Site → Option String
  | .export_ (.exportAll _ source _ false) => some source
  | .export_ (.exportNamed _ names (some source) false) =>
    if names.any fun s => !s.typeOnly then some source else none
  | _ => none

def specifiers : Site → List String
  | .import_ d => [d.source]
  | s => s.reexported?.toList

/-- What the code for a site may mention because of the site itself. -/
def mentions (s : Site) : List Mention :=
  s.specifiers.map .module ++ (s.valueNames ++ s.declaredNames ++ s.assignedNames).map .name

/-- What the code for sites may mention because of them and everything inside them. -/
def mentionsIn (ss : List Site) : List Mention := ss.flatMap fun s => s.walk.flatMap mentions

/-- Sites because of which only what is allowed may be mentioned. -/
def Within (S : Mention → Prop) (ss : List Site) : Prop := Allowed S (mentionsIn ss)

variable {S : Mention → Prop}

theorem within_append {ss ts : List Site} :
    Within S (ss ++ ts) ↔ Within S ss ∧ Within S ts := by
  rw [Within, mentionsIn, List.flatMap_append, allowed_append]
  rfl

theorem within_cons {s : Site} {ss : List Site} :
    Within S (s :: ss) ↔ Within S [s] ∧ Within S ss := by
  rw [← within_append, List.singleton_append]

theorem within_flatMap_cons {α : Type} {f : α → List Site} {a : α} {as : List α} :
    Within S ((a :: as).flatMap f) ↔ Within S (f a) ∧ Within S (as.flatMap f) := by
  rw [List.flatMap_cons, within_append]

theorem within_map_cons {α : Type} {f : α → Site} {a : α} {as : List α} :
    Within S ((a :: as).map f) ↔ Within S [f a] ∧ Within S (as.map f) := by
  rw [List.map_cons, within_cons]

theorem within_singleton {s : Site} :
    Within S [s] ↔ Allowed S s.mentions ∧ Within S s.children := by
  rw [Within, mentionsIn, List.flatMap_cons, List.flatMap_nil, List.append_nil, walk_eq,
    List.flatMap_cons, List.flatMap_assoc, allowed_append]
  rfl

theorem Within.inside {s : Site} (h : Within S [s]) : Within S s.children :=
  (within_singleton.1 h).2

theorem Within.module {s : Site} (h : Within S [s]) {source : String} (hs : source ∈ s.specifiers) :
    S (.module source) :=
  (within_singleton.1 h).1 _ (List.mem_append_left _ (List.mem_map_of_mem hs))

theorem Within.name {s : Site} (h : Within S [s]) {name : String}
    (hn : name ∈ s.valueNames ++ s.declaredNames ++ s.assignedNames) : S (.name name) :=
  (within_singleton.1 h).1 _ (List.mem_append_right _ (List.mem_map_of_mem hn))

theorem Within.value {s : Site} (h : Within S [s]) {name : String} (hn : name ∈ s.valueNames) :
    S (.name name) :=
  h.name (List.mem_append_left _ (List.mem_append_left _ hn))

theorem Within.declared {s : Site} (h : Within S [s]) {name : String}
    (hn : name ∈ s.declaredNames) : S (.name name) :=
  h.name (List.mem_append_left _ (List.mem_append_right _ hn))

theorem within_ofExprs_cons {e : Expr} {es : List Expr} :
    Within S (ofExprs (e :: es)) ↔ Within S (ofExprs [e]) ∧ Within S (ofExprs es) := by
  rw [ofExprs_cons, within_append]

theorem within_ofPatterns_cons {p : Pattern} {ps : List Pattern} :
    Within S (ofPatterns (p :: ps)) ↔ Within S (ofPatterns [p]) ∧ Within S (ofPatterns ps) := by
  rw [ofPatterns_cons, within_append]

theorem within_ofPatterns_append {ps qs : List Pattern} :
    Within S (ofPatterns (ps ++ qs)) ↔ Within S (ofPatterns ps) ∧ Within S (ofPatterns qs) := by
  rw [ofPatterns_append, within_append]

theorem Within.expr {e : Expr} (h : Within S (ofExprs [e])) : Within S (ofExprParts e) := by
  cases e with
  | omitted => exact h
  | _ => exact h.inside

theorem Within.pattern {p : Pattern} (h : Within S (ofPatterns [p])) :
    Within S (ofPatternParts p) := by
  cases p with
  | omitted => exact h
  | _ => exact h.inside

/-- The names of shorthands with a default in an object literal may be mentioned. -/
theorem Within.assigned {span : Span} {ps : List Property}
    (h : Within S (ofExprs [.object span ps])) :
    ∀ p ∈ ps, ∀ name ∈ p.assignedName?, S (.name name) := by
  intro p hp name hname
  have hobject : Within S [.expr (.object span ps)] := h
  exact hobject.name (List.mem_append_right _ (List.mem_filterMap.2 ⟨p, hp, hname⟩))

end Site

/-! ### Modules -/

namespace Program

def reexportSpecifiers (p : Program) : List String := p.sites.filterMap Site.reexported?

def declaredNames (p : Program) : List String := p.sites.flatMap Site.declaredNames

/-- What may be mentioned because of the items of a module is so because of one of its sites. -/
theorem exists_site_of_mem_mentionsIn {p : Program} {m : Mention}
    (h : m ∈ Site.mentionsIn (p.items.map .item)) : ∃ s ∈ p.sites, m ∈ s.mentions := by
  obtain ⟨s, hs, h⟩ := List.mem_flatMap.1 h
  obtain ⟨i, hi, rfl⟩ := List.mem_map.1 hs
  obtain ⟨s, hs, h⟩ := List.mem_flatMap.1 h
  exact ⟨s, List.mem_flatMap.2 ⟨i, hi, hs⟩, h⟩

theorem module_mem_mentionsIn (p : Program) {source : String}
    (h : .module source ∈ Site.mentionsIn (p.items.map .item)) :
    source ∈ p.importSpecifiers ∨ source ∈ p.reexportSpecifiers := by
  obtain ⟨s, hs, h⟩ := exists_site_of_mem_mentionsIn h
  have hsource : source ∈ s.specifiers := by
    rcases List.mem_append.1 h with h | h
    · obtain ⟨_, hs, heq⟩ := List.mem_map.1 h
      exact Mention.module.inj heq ▸ hs
    · obtain ⟨_, -, heq⟩ := List.mem_map.1 h
      cases heq
  cases s with
  | import_ d =>
    rw [List.mem_singleton.1 hsource]
    exact .inl (List.mem_filterMap.2 ⟨_, hs, rfl⟩)
  | _ => exact .inr (List.mem_filterMap.2 ⟨_, hs, Option.mem_toList.1 hsource⟩)

end Program

end TypeStrip
