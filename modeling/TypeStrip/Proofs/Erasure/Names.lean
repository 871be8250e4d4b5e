import TypeStrip.Syntax.Names
import TypeStrip.Proofs.Erasure.Reduction

/-! Names and the presence of code are what they were when parts are left out. -/
namespace TypeStrip
variable (r : Reduction)

/-! ### Names -/

@[simp] theorem Key.staticName?_reduce (k : Key) : (k.reduce r).staticName? = k.staticName? := by
  cases k <;> rfl

mutual

@[simp] theorem Pattern.boundNames_reduce (p : Pattern) :
    (p.reduce r).boundNames = p.boundNames := by
  cases p with
  | ident | omitted => rfl
  | array s ps rest =>
    rw [Pattern.reduce, Pattern.boundNames, Pattern.boundNames, namesOfPatterns_reduce ps,
      namesOfPattern?_reduce rest]
  | object s fs rest =>
    rw [Pattern.reduce, Pattern.boundNames, Pattern.boundNames, namesOfFields_reduce fs,
      namesOfPattern?_reduce rest]
  | withDefault s p e =>
    rw [Pattern.reduce, Pattern.boundNames, Pattern.boundNames, Pattern.boundNames_reduce p]

theorem namesOfPatterns_reduce (ps : List Pattern) :
    namesOfPatterns (reducePatterns r ps) = namesOfPatterns ps := by
  cases ps with
  | nil => rfl
  | cons p ps =>
    rw [reducePatterns, namesOfPatterns, namesOfPatterns, Pattern.boundNames_reduce p,
      namesOfPatterns_reduce ps]

theorem namesOfPattern?_reduce (p : Option Pattern) :
    namesOfPattern? (reducePattern? r p) = namesOfPattern? p := by
  cases p with
  | none => rfl
  | some p => exact Pattern.boundNames_reduce p

theorem namesOfFields_reduce (fs : List PatternField) :
    namesOfFields (reduceFields r fs) = namesOfFields fs := by
  match fs with
  | [] => rfl
  | .mk k p shorthand :: fs =>
    rw [reduceFields, PatternField.reduce, namesOfFields, namesOfFields,
      Pattern.boundNames_reduce p, namesOfFields_reduce fs]

end

@[simp] theorem Declarator.pattern_reduce (d : Declarator) :
    (d.reduce r).pattern = d.pattern.reduce r := by
  cases d; rfl

@[simp] theorem Func.name?_reduce (f : Func) : (f.reduce r).name? = f.name? := by
  cases f; rfl

@[simp] theorem Class.name?_reduce (c : Class) : (c.reduce r).name? = c.name? := by
  cases c; rfl

@[simp] theorem Namespace.name_reduce (n : Namespace) : (n.reduce r).name = n.name := by
  cases n <;> rfl

@[simp] theorem Decl.boundNames_reduce (d : Decl) : (d.reduce r).boundNames = d.boundNames := by
  cases d with
  | vars kind ds isDeclare =>
    simp [Decl.reduce, Decl.boundNames, List.flatMap_map]
  | _ => simp [Decl.reduce, Decl.boundNames]

/-! ### Parameters -/

@[simp] theorem Param.isThis_reduce (p : Param) : (p.reduce r).isThis = p.isThis := by
  obtain ⟨p, type, isOptional, isRest, access, isReadonly⟩ := p
  cases p <;> rfl

@[simp] theorem Param.isProperty_reduce (p : Param) :
    (p.reduce r).isProperty = p.isProperty := by
  cases p; rfl

@[simp] theorem Param.pattern_reduce (p : Param) : (p.reduce r).pattern = p.pattern.reduce r := by
  cases p; rfl

/-! ### The presence of code -/

@[simp] theorem Body.isPresent_reduce (b : Body) : (b.reduce r).isPresent = b.isPresent := by
  cases b <;> rfl

@[simp] theorem Func.body_reduce (f : Func) : (f.reduce r).body = f.body.reduce r := by
  cases f; rfl

@[simp] theorem Namespace.isDeclare_reduce (n : Namespace) :
    (n.reduce r).isDeclare = n.isDeclare := by
  cases n <;> rfl

mutual

@[simp] theorem Decl.isTypeOnly_reduce (d : Decl) : (d.reduce r).isTypeOnly = d.isTypeOnly := by
  cases d with
  | function f =>
    obtain ⟨name, tps, ps, ret, body, a, g, isDeclare⟩ := f
    simp only [Decl.reduce, Func.reduce, Decl.isTypeOnly, Body.isPresent_reduce]
  | cls c => cases c; rfl
  | namespace_ n =>
    simp only [Decl.reduce, Decl.isTypeOnly, Namespace.isDeclare_reduce,
      Namespace.hasRuntimeContent_reduce n]
  | interface | alias_ | enumeration | vars => rfl

@[simp] theorem Namespace.hasRuntimeContent_reduce (n : Namespace) :
    (n.reduce r).hasRuntimeContent = n.hasRuntimeContent := by
  cases n with
  | block name items isDeclare =>
    rw [Namespace.reduce, Namespace.hasRuntimeContent, Namespace.hasRuntimeContent,
      anyRuntimeContent_reduce items]
  | dotted name s inner isDeclare =>
    rw [Namespace.reduce, Namespace.hasRuntimeContent, Namespace.hasRuntimeContent,
      Namespace.hasRuntimeContent_reduce inner]
  | ambient => rfl

theorem anyRuntimeContent_reduce (items : List Item) :
    anyRuntimeContent (reduceItems r items) = anyRuntimeContent items := by
  cases items with
  | nil => rfl
  | cons i items =>
    rw [reduceItems, anyRuntimeContent, anyRuntimeContent, Item.hasRuntimeContent_reduce i,
      anyRuntimeContent_reduce items]

theorem Item.hasRuntimeContent_reduce (i : Item) :
    (i.reduce r).hasRuntimeContent = i.hasRuntimeContent := by
  cases i with
  | exportDecl s declSpan d =>
    rw [Item.reduce, Item.hasRuntimeContent, Item.hasRuntimeContent, Decl.isTypeOnly_reduce d]
  | stmt s t =>
    rw [Item.reduce, Item.hasRuntimeContent, Item.hasRuntimeContent,
      Stmt.hasRuntimeContent_reduce t]
  | _ => rfl

theorem Stmt.hasRuntimeContent_reduce (t : Stmt) :
    (t.reduce r).hasRuntimeContent = t.hasRuntimeContent := by
  cases t with
  | decl s d =>
    rw [Stmt.reduce, Stmt.hasRuntimeContent, Stmt.hasRuntimeContent, Decl.isTypeOnly_reduce d]
  | _ => rfl

end

/-! ### Modules -/

@[simp] theorem Item.isModuleSyntax_reduce (i : Item) :
    (i.reduce r).isModuleSyntax = i.isModuleSyntax := by
  cases i <;> rfl

@[simp] theorem Program.isModule_reduce (p : Program) : (p.reduce r).isModule = p.isModule := by
  simp [Program.reduce, Program.isModule, List.any_map, Function.comp_def]

end TypeStrip
