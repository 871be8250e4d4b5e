import TypeStrip.Proofs.Elision.Uses
import TypeStrip.Proofs.Mentions.Lowering

/-!
Which imports are kept: those whose names a module uses as values. The code of a module mentions no
other names, apart from those that the module declares and those that the lowering makes up.
-/
namespace TypeStrip
open Lowering Code

/-! ### Names of shorthands -/

/-- The name of a sound shorthand is used by its value. -/
theorem Property.mem_uses_of_assignedName {p : Property} (h : p.IsSound) {name : String}
    (hn : p.assignedName? = some name) : name ∈ p.uses := by
  unfold assignedName? at hn
  split at hn
  · next k s target op value =>
    cases hn
    obtain ⟨s, rfl⟩ := exists_of_isVariableOf h
    exact List.mem_cons_self
  · cases hn

theorem mem_usesOfProperties {p : Property} {ps : List Property} (hp : p ∈ ps) {name : String}
    (h : name ∈ p.uses) : name ∈ usesOfProperties ps := by
  induction hp with
  | head => exact List.mem_append_left _ h
  | tail _ _ ih => exact List.mem_append_right _ ih

namespace Site

theorem mem_uses_of_assigned {s : Site} (h : s.IsSound) {name : String}
    (hn : name ∈ s.assignedNames) : name ∈ s.uses := by
  unfold assignedNames at hn
  split at hn
  · obtain ⟨p, hp, hname⟩ := List.mem_filterMap.1 hn
    exact mem_usesOfProperties hp (Property.mem_uses_of_assignedName (h p hp) hname)
  · cases hn

/-- What is used inside a part is used in the whole. -/
theorem uses_subset_of_mem_walk {s t : Site} (h : s.Deep) (ht : t ∈ s.walk) : t.uses ⊆ s.uses := by
  induction s using induction_children with
  | h s ih =>
    obtain ⟨hs, hchildren⟩ := deep_iff.1 h
    rw [walk_eq] at ht
    rcases List.mem_cons.1 ht with rfl | ht
    · exact List.Subset.refl _
    · obtain ⟨u, hu, ht⟩ := List.mem_flatMap.1 ht
      rw [uses_eq hs]
      intro name hname
      exact List.mem_append_right _ (List.mem_flatMap.2 ⟨u, hu, ih u hu (hchildren u hu) ht hname⟩)

end Site

namespace Program
variable {p : Program}

theorem uses_subset_of_mem_sites (h : ∀ i ∈ p.items, (Site.item i).Deep) {s : Site}
    (hs : s ∈ p.sites) : s.uses ⊆ p.uses := by
  obtain ⟨i, hi, hs⟩ := List.mem_flatMap.1 hs
  intro name hname
  rw [uses, ← Site.flatMap_uses_items]
  exact List.mem_flatMap.2
    ⟨_, List.mem_map_of_mem hi, Site.uses_subset_of_mem_walk (h i hi) hs hname⟩

/-! ### Names in the code of a module -/

/-- The names that the lowering makes up: those that it gives to exports, and temporaries for
modules that are imported or exported again. -/
inductive IsMadeUp (p : Program) : String → Prop where
  | exports : p.IsMadeUp "exports"
  | object : p.IsMadeUp "Object"
  | default : p.IsMadeUp defaultName
  | temporary {source : String}
    (h : source ∈ p.importSpecifiers ∨ source ∈ p.reexportSpecifiers) (number : Nat) :
    p.IsMadeUp (temporaryBase source ++ "_" ++ toString number)

/-- What the code of a module may mention. -/
def Explains (p : Program) : Mention → Prop
  | .module source => source ∈ p.importSpecifiers ∨ source ∈ p.reexportSpecifiers
  | .name name => name ∈ p.uses ∨ name ∈ p.declaredNames ∨ p.IsMadeUp name

theorem explains_of_mem_mentions (h : ∀ i ∈ p.items, (Site.item i).Deep) {m : Mention}
    (hm : m ∈ Site.mentionsIn (p.items.map .item)) : p.Explains m := by
  cases m with
  | module source => exact p.module_mem_mentionsIn hm
  | name name =>
    obtain ⟨s, hs, hm⟩ := exists_site_of_mem_mentionsIn hm
    have hsound : s.IsSound := by
      obtain ⟨i, hi, hs⟩ := List.mem_flatMap.1 hs
      exact h i hi s hs
    have hname : name ∈ s.valueNames ++ s.declaredNames ++ s.assignedNames := by
      rcases List.mem_append.1 hm with hm | hm
      · obtain ⟨_, -, heq⟩ := List.mem_map.1 hm
        cases heq
      · obtain ⟨_, hn, heq⟩ := List.mem_map.1 hm
        exact Mention.name.inj heq ▸ hn
    rcases List.mem_append.1 hname with hname | hassigned
    · rcases List.mem_append.1 hname with hvalue | hdeclared
      · exact .inl (valueNames_eq_uses h ▸ List.mem_flatMap.2 ⟨s, hs, hvalue⟩)
      · exact .inr (.inl (List.mem_flatMap.2 ⟨s, hs, hdeclared⟩))
    · exact .inl (uses_subset_of_mem_sites h hs (Site.mem_uses_of_assigned hsound hassigned))

theorem admits_explains (h : ∀ i ∈ p.items, (Site.item i).Deep) (options : CompilerOptions) :
    Admits p.Explains (contextOf options p) where
  exports := .inr (.inr .exports)
  object := .inr (.inr .object)
  default := .inr (.inr .default)
  temporary _ number hsource := .inr (.inr (.temporary hsource number))
  values _ hname := .inl (valueNames_eq_uses h ▸ hname)

end Program

/-! ### Imports -/

theorem localName_of_binding {s t : ImportSpecifier} (h : binding s = binding t) :
    s.localName.text = t.localName.text := by
  cases s with
  | default n =>
    cases t with
    | default => exact Binding.default.inj h
    | _ => cases h
  | whole n =>
    cases t with
    | whole => exact Binding.whole.inj h
    | _ => cases h
  | named imported renamed typeOnly =>
    cases t with
    | named => exact (Binding.named.inj h).2
    | _ => cases h

/-- A part of an import that is no type is kept if its name is used. -/
theorem binding_mem_keptBindings {ctx : Context} {d : Import} {s : ImportSpecifier}
    (hs : s ∈ d.specifiers) (ht : s.isTypeOnly = false) :
    binding s ∈ keptBindings ctx d ↔ s.localName.text ∈ ctx.valueNames := by
  constructor
  · intro h
    obtain ⟨t, ht, heq⟩ := List.mem_map.1 h
    have hkept := (Bool.and_eq_true_iff.1 (List.mem_filter.1 ht).2).2
    rw [← localName_of_binding heq]
    exact List.contains_iff_mem.1 hkept
  · intro h
    refine List.mem_map_of_mem (List.mem_filter.2 ⟨hs, ?_⟩)
    rw [ht]
    exact List.contains_iff_mem.2 h

namespace Program
variable {p : Program}

/-- The names that decide which imports are needed are exactly those that the module uses as values.
All names in its code are used in this sense, or the module declares them, or the lowering makes
them up; those of exports from the module itself are always used. So a part of an import that is no
type is left out if and only if its name is not used anywhere. -/
theorem keeps_imports_iff_used {source : String} {file : Nat}
    (h : Grammar.parseModule source file = .ok p) :
    (∀ name, name ∈ p.valueNames ↔ name ∈ p.uses) ∧ ∀ options,
      (∀ name, .name name ∈ mentionsOfStmts (lowerProgram options p) →
        name ∈ p.uses ∨ name ∈ p.declaredNames ∨ p.IsMadeUp name) ∧
      (∀ span specifiers, .export_ (.exportNamed span specifiers none false) ∈ p.sites →
        ∀ n ∈ keptExports (contextOf options p) specifiers none, n.1 ∈ p.uses) ∧
      ∀ d s, s ∈ d.specifiers → s.isTypeOnly = false →
        (binding s ∈ keptBindings (contextOf options p) d ↔ s.localName.text ∈ p.uses) := by
  have hdeep : ∀ i ∈ p.items, (Site.item i).Deep := Grammar.sound_parseModule h
  have huses : p.valueNames = p.uses := valueNames_eq_uses hdeep
  refine ⟨fun name => by rw [huses], fun options => ⟨fun name hname => ?_, ?_, ?_⟩⟩
  · exact allowed_lowerProgram (admits_explains hdeep options)
      (fun m hm => explains_of_mem_mentions hdeep hm) _ hname
  · intro span specifiers hsite n hn
    rw [← huses]
    exact List.mem_flatMap.2 ⟨_, hsite, mem_of_keptExports hn⟩
  · intro d s hs ht
    rw [← huses]
    exact binding_mem_keptBindings hs ht

/-- Names in the class that is extended, a key, a default, the value of an enum member and a
shorthand, and a name that is a type only. -/
theorem keeps_imports_iff_used_places :
    let source := "import \x7b a, b, c, d, e, T \x7d from './m';\nlet t: T;\n" ++
      "class K extends a \x7b [b] = 1 \x7d\nfunction f(\x7b y = c \x7d) \x7b\x7d\n" ++
      "enum E \x7b A = d \x7d\nnamespace N \x7b export const z = \x7b e \x7d; \x7d"
    ∃ p, Grammar.parseModule source 0 = .ok p ∧ p.uses = ["a", "b", "c", "d", "e"] ∧
      (∀ name, name ∈ p.valueNames ↔ name ∈ p.uses) ∧ ∀ options,
      (∀ name, .name name ∈ mentionsOfStmts (lowerProgram options p) →
        name ∈ p.uses ∨ name ∈ p.declaredNames ∨ p.IsMadeUp name) ∧
      (∀ span specifiers, .export_ (.exportNamed span specifiers none false) ∈ p.sites →
        ∀ n ∈ keptExports (contextOf options p) specifiers none, n.1 ∈ p.uses) ∧
      ∀ d s, s ∈ d.specifiers → s.isTypeOnly = false →
        (binding s ∈ keptBindings (contextOf options p) d ↔ s.localName.text ∈ p.uses) := by
  intro source
  have huses : (Grammar.parseModule source 0).toOption.map uses =
      some ["a", "b", "c", "d", "e"] := by
    decide +kernel
  cases hp : Grammar.parseModule source 0 with
  | error errors =>
    rw [hp] at huses
    cases huses
  | ok p =>
    rw [hp] at huses
    exact ⟨p, rfl, Option.some.inj huses, keeps_imports_iff_used hp⟩

end Program

end TypeStrip
