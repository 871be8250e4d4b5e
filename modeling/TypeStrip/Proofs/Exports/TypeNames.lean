import TypeStrip.Proofs.Exports.Assignments

/-!
Which names of an export list are left out because they are types only. Declarations that stand on
their own or are exported by name are looked at. Imports and declarations that are the default export
bind names as well, but are not looked at, so a name that is a type and is bound by nothing else is
left out although it has a value.
-/
namespace TypeStrip
open Lowering Code

/-! ### Names at the top of a module -/

def Import.valueNames (d : Import) : List String :=
  (d.specifiers.filter fun s => !(d.typeOnly || s.isTypeOnly)).map fun s => s.localName.text

def Item.boundNames : Item → List String
  | .stmt _ (.decl _ d) | .exportDecl _ _ d | .exportDefaultDecl _ _ d => d.liveNames
  | .import_ _ d => d.valueNames
  | _ => []

/-- The names that are looked at as values are those that the declaration of the item introduces. -/
theorem Item.mem_declaredValues {i : Item} {name : String} :
    name ∈ i.declaredValues ↔ ∃ d, i.declaration? = some d ∧ name ∈ d.liveNames := by
  rw [declaredValues]
  cases i.declaration? with
  | none => simp
  | some d =>
    have hnames : ([d].filter fun d => !d.isTypeOnly).flatMap Decl.boundNames = d.liveNames := by
      rw [Decl.liveNames, List.filter_singleton]
      cases d.isTypeOnly
      · exact List.flatMap_singleton ..
      · rfl
    rw [Option.toList_some, hnames]
    simp

theorem Item.boundNames_of_declaration? {i : Item} {d : Decl} (h : i.declaration? = some d) :
    i.boundNames = d.liveNames := by
  cases i with
  | stmt s t =>
    cases t with
    | decl => exact congrArg Decl.liveNames (Option.some.inj h)
    | _ => cases h
  | exportDecl => exact congrArg Decl.liveNames (Option.some.inj h)
  | _ => cases h

/-- A name counts as a type only if some item introduces it as a type and nothing binds it when the
code runs, imports and default exports apart. -/
theorem Program.mem_typeOnlyNames {p : Program} {name : String} :
    name ∈ p.typeOnlyNames ↔ (∃ i ∈ p.items, name ∈ i.typeNames) ∧
      ∀ i ∈ p.items, name ∈ i.boundNames → i.declaration? = none := by
  rw [typeOnlyNames, List.mem_filter, List.mem_flatMap, Bool.not_eq_true', ← Bool.not_eq_true,
    List.contains_iff_mem, List.mem_flatMap]
  refine and_congr_right fun _ => ⟨fun h i hi hname => ?_, fun h hvalue => ?_⟩
  · refine Option.eq_none_iff_forall_ne_some.2 fun d hd => h ⟨i, hi, ?_⟩
    exact Item.mem_declaredValues.2 ⟨d, hd, Item.boundNames_of_declaration? hd ▸ hname⟩
  · obtain ⟨i, hi, hname⟩ := hvalue
    obtain ⟨d, hd, hname⟩ := Item.mem_declaredValues.1 hname
    rw [← Item.boundNames_of_declaration? hd] at hname
    rw [h i hi hname] at hd
    cases hd

/-! ### Their code -/

section
variable (ctx : Context) (s declSpan : Span)

/-- The code of a default export declares the names that the declaration introduces. -/
theorem subset_declaredNames_exportDefaultDecl (d : Decl) :
    (lowerItem ctx .exports (.exportDefaultDecl s declSpan d)).Yields fun code =>
      d.liveNames ⊆ declaredNames code := by
  rw [lowerItem]
  refine (declares_lowerDecl ctx d).map fun stmts hs => ?_
  rw [← hs.names, defaultDeclaration.eq_def]
  split
  · next f =>
    obtain ⟨name, ps, body, isAsync, isGenerator⟩ := f
    cases name with
    | none => exact List.nil_subset _
    | some name => exact List.Subset.refl _
  · next c =>
    obtain ⟨name, base, members⟩ := c
    cases name with
    | none => exact List.nil_subset _
    | some name => exact List.Subset.refl _
  · exact List.Subset.refl _

end

/-! ### Export lists -/

theorem exported_ident_injective {object name name' a a' : String}
    (h : exported object name (.ident a) = exported object name' (.ident a')) : a = a' := by
  rw [exported, exported, assignment, assignment] at h
  injection h with h
  injection h with _ _ h
  exact Code.Expr.ident.inj h

section
variable {p : Program} {options : CompilerOptions} {s : Span} {specifiers : List ExportSpecifier}

/-- A list exports nothing that is a type only. -/
theorem Program.not_exported_of_typeOnly {name : String} (h : name ∈ p.typeOnlyNames) :
    (lowerItem (contextOf options p) .exports (.exportNamed s specifiers none false)).Yields
      fun code => ∀ exportedName, exported "exports" exportedName (.ident name) ∉ code := by
  refine (lowerItem_exportNamed _ s specifiers).imp fun code hcode exportedName hmem => ?_
  rw [hcode, keptExports, List.map_map, List.mem_map] at hmem
  obtain ⟨e, he, heq⟩ := hmem
  have hinner : e.inner.text = name := exported_ident_injective heq
  have hkept := (Bool.and_eq_true_iff.1 (List.mem_filter.1 he).2).2
  rw [hinner, Option.isSome_none, Bool.false_or, Bool.not_eq_true'] at hkept
  rw [List.contains_iff_mem.2 (show name ∈ (contextOf options p).typeOnlyNames from h)] at hkept
  cases hkept

variable {e : ExportSpecifier}

/-- A list exports whatever is not a type only. -/
theorem Program.exported_of_not_typeOnly (he : e ∈ specifiers) (htype : e.typeOnly = false)
    (h : e.inner.text ∉ p.typeOnlyNames) :
    (lowerItem (contextOf options p) .exports (.exportNamed s specifiers none false)).Yields
      fun code => exported "exports" e.exportedName.text (.ident e.inner.text) ∈ code := by
  refine (lowerItem_exportNamed _ s specifiers).imp fun code hcode => ?_
  rw [hcode, keptExports, List.map_map]
  refine List.mem_map_of_mem (List.mem_filter.2 ⟨he, ?_⟩)
  rw [htype, contextOf]
  simpa using h

/-- A name in an export list is exported if and only if it is not introduced as a type, or the code
of a declaration declares it, the declaration standing on its own or being exported by name. -/
theorem Program.exported_iff_declared (he : e ∈ specifiers) (htype : e.typeOnly = false) :
    (lowerItem (contextOf options p) .exports (.exportNamed s specifiers none false)).Yields
      fun code => exported "exports" e.exportedName.text (.ident e.inner.text) ∈ code ↔
        ((∃ i ∈ p.items, e.inner.text ∈ i.typeNames) →
          ∃ i ∈ p.items, ∃ d, i.declaration? = some d ∧
            (lowerDecl (contextOf options p) d).Yields (e.inner.text ∈ declaredNames ·)) := by
  have hcode : (∃ i ∈ p.items, ∃ d, i.declaration? = some d ∧
      (lowerDecl (contextOf options p) d).Yields (e.inner.text ∈ declaredNames ·)) ↔
        ¬∀ i ∈ p.items, e.inner.text ∈ i.boundNames → i.declaration? = none := by
    constructor
    · rintro ⟨i, hi, d, hd, hname⟩ hnone
      have hbound : e.inner.text ∈
          declaredNames ((lowerDecl (contextOf options p) d).run []).1 := hname []
      rw [(declares_lowerDecl _ d []).names, ← Item.boundNames_of_declaration? hd] at hbound
      rw [hnone i hi hbound] at hd
      cases hd
    · intro h
      push Not at h
      obtain ⟨i, hi, hname, hsome⟩ := h
      obtain ⟨d, hd⟩ := Option.ne_none_iff_exists'.1 hsome
      refine ⟨i, hi, d, hd, (declares_lowerDecl _ d).imp fun code h => ?_⟩
      rw [h.names, ← Item.boundNames_of_declaration? hd]
      exact hname
  rw [hcode, ← not_and, ← mem_typeOnlyNames]
  by_cases h : e.inner.text ∈ p.typeOnlyNames
  · exact (not_exported_of_typeOnly h).imp fun code hcode =>
      iff_of_false (hcode _) (not_not_intro h)
  · exact (exported_of_not_typeOnly he htype h).imp fun code hcode => iff_of_true hcode h

/-- A name that is introduced as a type, and that only the default export binds when the code runs,
is left out: the code declares it, and no list exports it. -/
theorem Program.declared_not_exported {s' declSpan : Span} {d : Decl} {name : String}
    (htype : ∃ i ∈ p.items, name ∈ i.typeNames) (hname : name ∈ d.liveNames)
    (honly : ∀ i ∈ p.items, name ∈ i.boundNames → i.declaration? = none) :
    (lowerItem (contextOf options p) .exports (.exportDefaultDecl s' declSpan d)).Yields
        (name ∈ declaredNames ·) ∧
      (lowerItem (contextOf options p) .exports (.exportNamed s specifiers none false)).Yields
        fun code => ∀ exportedName, exported "exports" exportedName (.ident name) ∉ code :=
  ⟨(subset_declaredNames_exportDefaultDecl _ s' declSpan d).imp fun _ h => h hname,
    not_exported_of_typeOnly (mem_typeOnlyNames.2 ⟨htype, honly⟩)⟩

end

example : (Grammar.parseModule
      "interface A\x7b\x7dexport default class A\x7b\x7dexport\x7bA\x7d" 0).toOption.map
        (fun p => (p.typeOnlyNames, p.items.map Item.boundNames)) =
      some (["A"], [[], ["A"], []]) := by
  decide +kernel

end TypeStrip
