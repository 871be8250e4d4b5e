import TypeStrip.Syntax.Names
import TypeStrip.Syntax.Site

/-! What a module does with names: which it uses as values, and which are only types. -/
namespace TypeStrip

def Site.valueNames : Site → List String
  | .expr (.ident _ name) => [name]
  | .export_ (.exportNamed _ specifiers none false) =>
    (specifiers.filter fun s => !s.typeOnly).map fun s => s.inner.text
  | _ => []

/-- The names that a module uses as values. An import that binds none of them is not needed when
the code runs. -/
def Program.valueNames (p : Program) : List String := p.sites.flatMap Site.valueNames

def Item.declaration? : Item → Option Decl
  | .stmt _ (.decl _ d) | .exportDecl _ _ d => some d
  | _ => none

def ImportSpecifier.isTypeOnly : ImportSpecifier → Bool
  | .named _ _ typeOnly => typeOnly
  | _ => false

def Item.typeNames : Item → List String
  | .import_ _ d =>
    (d.specifiers.filter fun s => d.typeOnly || s.isTypeOnly).map fun s => s.localName.text
  | i => (i.declaration?.toList.filter Decl.isTypeOnly).flatMap Decl.boundNames

def Item.declaredValues (i : Item) : List String :=
  (i.declaration?.toList.filter fun d => !d.isTypeOnly).flatMap Decl.boundNames

/-- The names that are types at the top of a module and are not declared as values too. -/
def Program.typeOnlyNames (p : Program) : List String :=
  let values := p.items.flatMap Item.declaredValues
  (p.items.flatMap Item.typeNames).filter fun name => !values.contains name

/-! ### The `this` of a surrounding function -/

/-- The parts of a site that share its `this`. Functions have their own, and so has all of a class
but the expression that it extends. -/
def Site.sharingThis : Site → List Site
  | .function _ => []
  | .cls (.mk _ _ base _ _ _ _ _) => ofExpr? base
  | s => s.children

theorem Site.mem_children_of_mem_sharingThis {s t : Site} (h : t ∈ s.sharingThis) :
    t ∈ s.children := by
  cases s with
  | function f => simp [sharingThis] at h
  | cls c =>
    obtain ⟨name, tps, base, baseArgs, interfaces, members, a, d⟩ := c
    exact List.mem_append_left _ h
  | _ => exact h

/-- Whether `this` or `super` occurs in a site where it means what it means around the site. -/
def Site.usesThis : Site → Bool
  | .expr (.this _) | .expr (.super _) => true
  | s => s.sharingThis.attach.any fun ⟨t, _⟩ => t.usesThis
termination_by s => s.size
decreasing_by exact size_lt_of_mem_children (mem_children_of_mem_sharingThis (by assumption))

def Func.usesThis (f : Func) : Bool := (Site.arrow f).children.any Site.usesThis

end TypeStrip
