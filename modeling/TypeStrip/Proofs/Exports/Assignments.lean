import Mathlib.Data.List.Forall2
import TypeStrip.Lowering.Transpile
import TypeStrip.Proofs.Exports.Bindings

/-!
Which exports the code of a module assigns where modules are required: each of them once. Functions
are exported before all other code, and everything else right after the code that it needs.
-/
namespace TypeStrip
open Lowering Code

/-! ### Exports -/

/-- Where the value of an export comes from: a variable, an expression, an export of another module,
or that module as a whole. -/
inductive ExportSource where
  | variable (name : String)
  | value (e : Expr)
  | reexport (source name : String)
  | whole (source : String)

/-- The names that a declaration introduces as the default export: then a function or a class has a
name in any case. -/
def Decl.liveNamesAsDefault (d : Decl) : List String :=
  if d.isTypeOnly then []
  else match d with
    | .function f => [(f.name?.map Name.text).getD defaultName]
    | .cls c => [(c.name?.map Name.text).getD defaultName]
    | d => d.boundNames

namespace Item

def isExport : Item → Bool
  | .import_ .. | .stmt .. => false
  | _ => true

/-- The exports of functions that have a body: exported names with the names of the functions. -/
def functionExports : Item → List (String × String)
  | .exportDecl _ _ (.function f) => (Decl.function f).liveNames.map fun name => (name, name)
  | .exportDefaultDecl _ _ (.function f) =>
    (Decl.function f).liveNamesAsDefault.map fun name => ("default", name)
  | _ => []

/-- All other exports that are left once types are erased: exported names with where their values
come from. -/
def otherExports (types : List String) : Item → List (String × ExportSource)
  | .exportDecl _ _ (.function _) | .exportDefaultDecl _ _ (.function _) => []
  | .exportDecl _ _ d => d.liveNames.map fun name => (name, .variable name)
  | .exportDefault _ e => [("default", .value e)]
  | .exportDefaultDecl _ _ (.cls c) =>
    (Decl.cls c).liveNamesAsDefault.map fun name => ("default", .variable name)
  | .exportNamed _ specifiers none false =>
    (specifiers.filter fun s => !s.typeOnly && !types.contains s.inner.text).map fun s =>
      (s.exportedName.text, .variable s.inner.text)
  | .exportNamed _ specifiers (some source) false =>
    (specifiers.filter fun s => !s.typeOnly).map fun s =>
      (s.exportedName.text, .reexport source s.inner.text)
  | .exportAll _ source (some name) false => [(name.text, .whole source)]
  | _ => []

def exportedNames (types : List String) : Item → List String
  | .exportDecl _ _ d => d.liveNames
  | .exportDefault .. => ["default"]
  | .exportDefaultDecl _ _ (.function f) => if (Decl.function f).isTypeOnly then [] else ["default"]
  | .exportDefaultDecl _ _ (.cls c) => if (Decl.cls c).isTypeOnly then [] else ["default"]
  | .exportNamed _ specifiers source false =>
    (specifiers.filter fun s =>
      !s.typeOnly && (source.isSome || !types.contains s.inner.text)).map fun s =>
        s.exportedName.text
  | .exportAll _ _ (some name) false => [name.text]
  | _ => []

theorem map_fst_pairs {α β : Type} (f : α → β) (as : List α) :
    (as.map fun a => (a, f a)).map Prod.fst = as := by
  rw [List.map_map]
  exact List.map_id as

/-- Every exported name is that of a function or of something else. -/
theorem functionExports_append_otherExports (types : List String) (i : Item) :
    i.functionExports.map Prod.fst ++ (i.otherExports types).map Prod.fst =
      i.exportedNames types := by
  cases i with
  | exportDecl s declSpan d =>
    cases d with
    | function f => exact (List.append_nil _).trans (map_fst_pairs ..)
    | _ => exact map_fst_pairs ..
  | exportDefaultDecl s declSpan d =>
    cases d with
    | function f | cls c =>
      simp only [functionExports, otherExports, exportedNames, Decl.liveNamesAsDefault]
      split <;> rfl
    | _ => rfl
  | exportNamed s specifiers source typeOnly =>
    cases typeOnly with
    | true => cases source <;> rfl
    | false => cases source <;> simp [functionExports, otherExports, exportedNames]
  | exportAll s source name typeOnly => cases typeOnly <;> cases name <;> rfl
  | exportDefault | import_ | stmt => rfl

/-- No item has exports of both kinds. -/
theorem functionExports_or_otherExports (types : List String) (i : Item) :
    i.functionExports = [] ∨ i.otherExports types = [] := by
  cases i with
  | exportDecl s declSpan d | exportDefaultDecl s declSpan d =>
    cases d with
    | function => exact .inr rfl
    | _ => exact .inl rfl
  | _ => exact .inl rfl

end Item

def ExportSource.IsGivenBy (ctx : Context) (front : List Code.Stmt) :
    ExportSource → Code.Expr → Prop
  | .variable name, given => given = .ident name
  | .value e, given => ∃ used, given = ((lowerExpr ctx e).run used).1
  | .reexport source name, given =>
    ∃ holder, front = [variable_ holder (.require source)] ∧ given = property holder name
  | .whole source, given => given = .require source

/-- Code that introduces what an item exports as a declaration: the code that the declaration has
anyway, or with a name for the default export. -/
def Item.IsIntroducedBy (ctx : Context) : Item → List Code.Stmt → Prop
  | .exportDecl _ _ d, front =>
    declaredNames front = d.liveNames ∧ ∃ used, front = ((lowerDecl ctx d).run used).1
  | .exportDefaultDecl _ _ d, front => declaredNames front = d.liveNamesAsDefault
  | _, _ => True

/-- Code of an exported item: statements that assign no export, the code of a declaration among
them, and then one assignment for each export of the item that is not one of a function. -/
def Item.Assigns (ctx : Context) (i : Item) (code : List Code.Stmt) : Prop :=
  ∃ front exports, code = front ++ exports.map (fun e => exported "exports" e.1 e.2) ∧
    assignedExports front = [] ∧ i.IsIntroducedBy ctx front ∧
    List.Forall₂ (fun (e : String × ExportSource) (e' : String × Code.Expr) =>
      e'.1 = e.1 ∧ e.2.IsGivenBy ctx front e'.2) (i.otherExports ctx.typeOnlyNames) exports

/-- Each export of an item is assigned once: before all other code if it is a function, and else by
the code of the item. -/
structure Item.ExportsOnce (ctx : Context) (i : Item) (code : List Code.Stmt) : Prop where
  assigns : i.Assigns ctx code
  once : i.functionExports.map Prod.fst ++ assignedExports code =
    i.exportedNames ctx.typeOnlyNames
  apart : i.functionExports = [] ∨ assignedExports code = []

theorem assignedExport_exported (name : String) (value : Code.Expr) :
    (exported "exports" name value).assignedExport? = some name := by
  rw [exported, property]
  split <;> rfl

theorem assignedExports_exported (exports : List (String × Code.Expr)) :
    assignedExports (exports.map fun e => exported "exports" e.1 e.2) = exports.map Prod.fst := by
  induction exports with
  | nil => rfl
  | cons e exports ih =>
    rw [List.map_cons, List.map_cons, assignedExports,
      List.filterMap_cons_some (assignedExport_exported e.1 e.2), ← ih, assignedExports]

theorem Item.Assigns.assignedExports {ctx : Context} {i : Item} {code : List Code.Stmt}
    (h : i.Assigns ctx code) :
    Code.assignedExports code = (i.otherExports ctx.typeOnlyNames).map Prod.fst := by
  obtain ⟨front, exports, rfl, hfront, -, hexports⟩ := h
  rw [Code.assignedExports, List.filterMap_append, ← Code.assignedExports, hfront,
    List.nil_append, ← Code.assignedExports, assignedExports_exported]
  generalize i.otherExports ctx.typeOnlyNames = others at hexports
  induction hexports with
  | nil => rfl
  | cons he _ ih => rw [List.map_cons, List.map_cons, he.1, ih]

theorem Item.Assigns.exportsOnce {ctx : Context} {i : Item} {code : List Code.Stmt}
    (h : i.Assigns ctx code) : i.ExportsOnce ctx code where
  assigns := h
  once := h.assignedExports ▸ i.functionExports_append_otherExports _
  apart := by
    rw [h.assignedExports, List.map_eq_nil_iff]
    exact i.functionExports_or_otherExports _

/-! ### Items -/

section
variable {ctx : Context} {i : Item} {front : List Code.Stmt}

/-- One assignment for each member of a list. -/
theorem Item.Assigns.of_map {α : Type} {as : List α} {name : α → String}
    {source : α → ExportSource} {value : α → Code.Expr} (hfront : Code.assignedExports front = [])
    (hi : i.IsIntroducedBy ctx front)
    (h : i.otherExports ctx.typeOnlyNames = as.map fun a => (name a, source a))
    (hvalue : ∀ a, (source a).IsGivenBy ctx front (value a)) :
    i.Assigns ctx (front ++ as.map fun a => exported "exports" (name a) (value a)) := by
  refine ⟨front, as.map fun a => (name a, value a), ?_, hfront, hi, ?_⟩
  · rw [List.map_map]
    rfl
  · rw [h, List.forall₂_map_left_iff, List.forall₂_map_right_iff]
    exact List.forall₂_same.2 fun a _ => ⟨rfl, hvalue a⟩

theorem Item.Assigns.of_variables {α : Type} {as : List α} {name variable_ : α → String}
    (hfront : Code.assignedExports front = []) (hi : i.IsIntroducedBy ctx front)
    (h : i.otherExports ctx.typeOnlyNames = as.map fun a => (name a, .variable (variable_ a))) :
    i.Assigns ctx (front ++ as.map fun a => exported "exports" (name a) (.ident (variable_ a))) :=
  .of_map hfront hi h fun _ => rfl

/-- An item without exports other than functions assigns nothing. -/
theorem Item.Assigns.of_none (hfront : Code.assignedExports front = [])
    (hi : i.IsIntroducedBy ctx front) (h : i.otherExports ctx.typeOnlyNames = []) :
    i.Assigns ctx front :=
  ⟨front, [], (List.append_nil _).symm, hfront, hi, h ▸ .nil⟩

end

section
variable (ctx : Context) (s declSpan : Span)

theorem assigns_exportDecl (d : Decl) :
    (lowerItem ctx .exports (.exportDecl s declSpan d)).Yields
      ((Item.exportDecl s declSpan d).Assigns ctx) := by
  have hlowered : (lowerDecl ctx d).Yields fun stmts =>
      assignedExports stmts = [] ∧ (Item.exportDecl s declSpan d).IsIntroducedBy ctx stmts :=
    fun used =>
      ⟨(declares_lowerDecl ctx d used).exports, (declares_lowerDecl ctx d used).names, used, rfl⟩
  rw [lowerItem]
  by_cases htype : d.isTypeOnly = true
  · refine (hlowered.and (lowerDecl_of_isTypeOnly ctx htype)).map fun stmts h => ?_
    obtain ⟨⟨hs, hi⟩, hnil⟩ := h
    have hnames : d.liveNames = [] := if_pos htype
    rw [exportedDeclaration, if_pos htype, ← hnil]
    refine .of_none hs hi ?_
    cases d with
    | function => rfl
    | _ => exact List.map_eq_nil_iff.2 hnames
  · have hnames : d.liveNames = d.boundNames := if_neg htype
    refine hlowered.map fun stmts h => ?_
    obtain ⟨hs, hi⟩ := h
    rw [exportedDeclaration, if_neg htype, ← hnames]
    cases d with
    | function f => exact .of_none hs hi rfl
    | _ => exact .of_variables hs hi rfl

/-- The default export of a declaration is the code of the declaration, unless it is a function or a
class. -/
theorem defaultDeclaration_lowerDecl {d : Decl} (hf : ∀ f, d ≠ .function f) (hc : ∀ c, d ≠ .cls c) :
    (lowerDecl ctx d).Yields fun stmts => defaultDeclaration .exports stmts = stmts := by
  cases d with
  | function f => exact absurd rfl (hf f)
  | cls c => exact absurd rfl (hc c)
  | vars kind ds isDeclare | enumeration name ms isConst isDeclare =>
    rw [lowerDecl]
    cases isDeclare with
    | true => exact .pure rfl
    | false => exact (Lower.Yields.trivial _).map fun _ _ => rfl
  | namespace_ n =>
    rw [lowerDecl]
    refine (lowerNamespace_cases ctx none n).imp fun stmts h => ?_
    rcases h with ⟨rfl, -⟩ | ⟨name, body, rfl, -⟩ <;> rfl
  | interface | alias_ => exact .pure rfl

theorem assigns_exportDefaultDecl (d : Decl) :
    (lowerItem ctx .exports (.exportDefaultDecl s declSpan d)).Yields
      ((Item.exportDefaultDecl s declSpan d).Assigns ctx) := by
  rw [lowerItem]
  by_cases htype : d.isTypeOnly = true
  · refine (lowerDecl_of_isTypeOnly ctx htype).map fun stmts hnil => ?_
    have hnames : d.liveNamesAsDefault = [] := if_pos htype
    rw [hnil]
    refine .of_none rfl hnames.symm ?_
    cases d with
    | cls => exact List.map_eq_nil_iff.2 hnames
    | _ => rfl
  · have hdeclares := declares_lowerDecl ctx d
    have hother := defaultDeclaration_lowerDecl ctx (d := d)
    cases d with
    | function f =>
      have hlowered : (lowerDecl ctx (.function f)).Yields fun stmts =>
          ∃ f', stmts = [.function f'] ∧ f'.name? = f.name?.map Name.text := by
        rw [lowerDecl, if_neg htype]
        exact (name_lowerFunc ctx f).map fun f' hf => ⟨f', rfl, hf⟩
      refine hlowered.map fun stmts h => ?_
      obtain ⟨f', hs, hname⟩ := h
      obtain ⟨name, ps, body, isAsync, isGenerator⟩ := f'
      obtain rfl : name = f.name?.map Name.text := hname
      rw [hs]
      exact .of_none rfl (if_neg htype).symm rfl
    | cls c =>
      have hlowered : (lowerDecl ctx (.cls c)).Yields fun stmts =>
          ∃ c', stmts = [.cls c'] ∧ c'.name? = c.name?.map Name.text := by
        rw [lowerDecl, if_neg htype]
        exact (name_lowerClass ctx c).map fun c' hc => ⟨c', rfl, hc⟩
      refine hlowered.map fun stmts h => ?_
      obtain ⟨c', hs, hname⟩ := h
      obtain ⟨name, base, members⟩ := c'
      obtain rfl : name = c.name?.map Name.text := hname
      have hnames : (Decl.cls c).liveNamesAsDefault =
          [(c.name?.map Name.text).getD defaultName] := if_neg htype
      have hothers : (Item.exportDefaultDecl s declSpan (.cls c)).otherExports
          ctx.typeOnlyNames = [("default", .variable ((c.name?.map Name.text).getD defaultName))] :=
        congrArg (List.map fun name => ("default", ExportSource.variable name)) hnames
      rw [hs]
      exact ⟨[_], [(_, _)], rfl, rfl, hnames.symm, hothers ▸ .cons ⟨rfl, rfl⟩ .nil⟩
    | _ =>
      refine (hdeclares.and (hother (by rintro f ⟨⟩) (by rintro c ⟨⟩))).map fun stmts h => ?_
      obtain ⟨hs, hcode⟩ := h
      rw [hcode]
      exact .of_none hs.exports hs.names rfl

/-- A list without a source exports the variables that it keeps. -/
theorem lowerItem_exportNamed (specifiers : List ExportSpecifier) :
    (lowerItem ctx .exports (.exportNamed s specifiers none false)).Yields
      (· = (keptExports ctx specifiers none).map fun n => exported "exports" n.2 (.ident n.1)) := by
  rw [lowerItem, if_neg Bool.false_ne_true]
  unfold lowerExportNames
  dsimp only
  split
  · next h =>
    rw [List.isEmpty_iff.1 (Bool.and_eq_true_iff.1 h).1]
    exact .pure rfl
  · exact .pure rfl

theorem assigns_exportNamed (specifiers : List ExportSpecifier) (source : Option String) :
    (lowerItem ctx .exports (.exportNamed s specifiers source false)).Yields
      ((Item.exportNamed s specifiers source false).Assigns ctx) := by
  cases source with
  | none =>
    refine (lowerItem_exportNamed ctx s specifiers).imp fun code hcode => ?_
    rw [hcode, keptExports, List.map_map, ← List.nil_append (List.map _ _)]
    refine .of_variables rfl trivial ?_
    simp only [Option.isSome_none, Bool.false_or]
    rfl
  | some source =>
    rw [lowerItem, if_neg Bool.false_ne_true]
    unfold lowerExportNames keptExports
    dsimp only [Destination.object?]
    simp only [Option.isSome_some, Bool.true_or, Bool.and_true]
    generalize hkept : specifiers.filter _ = kept
    have hothers : (Item.exportNamed s specifiers (some source) false).otherExports
        ctx.typeOnlyNames =
          kept.map fun s => (s.exportedName.text, .reexport source s.inner.text) :=
      hkept ▸ rfl
    have hnone (h : (kept.map fun s => (s.inner.text, s.exportedName.text)).isEmpty = true) :
        (Item.exportNamed s specifiers (some source) false).Assigns ctx [] :=
      .of_none rfl trivial (hothers.trans (by simpa using h))
    split
    · next h => exact .pure (hnone (Bool.and_eq_true_iff.1 h).1)
    · split
      · next h => exact .pure (hnone h)
      · refine (Lower.Yields.trivial _).map fun holder _ => ?_
        rw [List.map_map, ← List.singleton_append]
        exact .of_map rfl trivial hothers fun s => ⟨holder, rfl, rfl⟩

theorem assigns_exportAll (source : String) (name : Option Name) :
    (lowerItem ctx .exports (.exportAll s source name false)).Yields
      ((Item.exportAll s source name false).Assigns ctx) := by
  rw [lowerItem]
  cases name with
  | none => exact (Lower.Yields.trivial _).map fun holder _ => .of_none rfl trivial rfl
  | some name =>
    exact .pure ⟨[], [(name.text, .require source)], rfl, rfl, trivial, .cons ⟨rfl, rfl⟩ .nil⟩
end

theorem assigns_lowerItem (ctx : Context) {i : Item} (h : i.isExport = true) :
    (lowerItem ctx .exports i).Yields (i.Assigns ctx) := by
  cases i with
  | import_ | stmt => cases h
  | exportDecl s declSpan d => exact assigns_exportDecl ctx s declSpan d
  | exportDefaultDecl s declSpan d => exact assigns_exportDefaultDecl ctx s declSpan d
  | exportDefault s e =>
    rw [lowerItem]
    have hvalue : (lowerExpr ctx e).Yields fun e' => ∃ used, e' = ((lowerExpr ctx e).run used).1 :=
      fun used => ⟨used, rfl⟩
    exact hvalue.map fun e' he =>
      ⟨[], [("default", e')], rfl, rfl, trivial, .cons ⟨rfl, he⟩ .nil⟩
  | exportNamed s specifiers source typeOnly =>
    cases typeOnly with
    | false => exact assigns_exportNamed ctx s specifiers source
    | true =>
      rw [lowerItem]
      exact .pure (.of_none rfl trivial (by cases source <;> rfl))
  | exportAll s source name typeOnly =>
    cases typeOnly with
    | false => exact assigns_exportAll ctx s source name
    | true =>
      rw [lowerItem]
      exact .pure (.of_none rfl trivial (by cases name <;> rfl))

theorem forall₂_lowerItems (ctx : Context) {P : Item → List Code.Stmt → Prop}
    (h : ∀ i, (lowerItem ctx .exports i).Yields (P i)) (items : List Item) :
    (lowerItems ctx .exports items).Yields (List.Forall₂ P items) := by
  induction items with
  | nil => exact .pure .nil
  | cons i items ih =>
    rw [lowerItems]
    exact (h i).bind fun code hcode => ih.map fun codes hcodes => .cons hcode hcodes

/-! ### Text -/

def exportLine (e : String × String) : String :=
  "exports" ++ (if Text.isWord e.1 then "." ++ e.1 else "[" ++ Text.quoted e.1 ++ "]") ++ " = " ++
    e.2 ++ ";\n"

def moduleHead : String :=
  "\"use strict\";\nObject.defineProperty(exports, \"__esModule\", \x7b value: true \x7d);\n"

/-! ### Modules -/

theorem stmtTexts_eq_map (depth : Nat) (stmts : List Code.Stmt) :
    stmtTexts depth stmts = stmts.map (Stmt.text depth) := by
  induction stmts with
  | nil => rfl
  | cons s stmts ih => rw [stmtTexts, ih, List.map_cons]

theorem text_append (stmts stmts' : List Code.Stmt) :
    Code.text (stmts ++ stmts') = Code.text stmts ++ Code.text stmts' := by
  simp only [Code.text, lines, stmtTexts_eq_map, List.map_append, String.join_append]

theorem text_flatten (codes : List (List Code.Stmt)) :
    Code.text codes.flatten = String.join (codes.map Code.text) := by
  induction codes with
  | nil => rfl
  | cons code codes ih => rw [List.flatten_cons, text_append, ih, List.map_cons, String.join_cons]

theorem text_singleton (s : Code.Stmt) : Code.text [s] = s.text 0 ++ "\n" := by
  simp [Code.text, lines, stmtTexts_eq_map, indentation]

theorem text_expr (depth : Nat) (e : Code.Expr) :
    (Code.Stmt.expr e).text depth = statementText (e.text depth) :=
  rfl

theorem text_prologue :
    Code.text [.expr (.literal (.string "use strict")), moduleMark] = moduleHead := by
  have hstrict : (Code.Stmt.expr (.literal (.string "use strict"))).text 0 =
      "\"use strict\";" := by
    rw [text_expr]
    decide +kernel
  have hmark : moduleMark.text 0 =
      "Object.defineProperty(exports, \"__esModule\", \x7b value: true \x7d);" := by
    rw [moduleMark, text_expr]
    decide +kernel
  rw [← List.singleton_append, text_append, text_singleton, text_singleton, hstrict, hmark]
  rfl

/-- A statement that starts with the object of exports needs no parentheses. -/
theorem statementText_exports (text : String) :
    statementText ("exports" ++ text) = "exports" ++ text ++ ";" := by
  refine if_neg ?_
  simp [statementOpeners, beginsWith]

theorem text_property (object name : String) :
    (property object name).guarded powerOfPostfix ((property object name).text 0) =
      object ++ if Text.isWord name then "." ++ name else "[" ++ Text.quoted name ++ "]" := by
  rw [property]
  split
  · exact String.append_assoc ..
  · show object ++ "[" ++ Text.quoted name ++ "]" = _
    rw [String.append_assoc, String.append_assoc, String.append_assoc]

theorem text_exported (e : String × String) :
    Code.text [exported "exports" e.1 (.ident e.2)] = exportLine e := by
  have hstatement : (exported "exports" e.1 (.ident e.2)).text 0 =
      statementText ("exports" ++ ((if Text.isWord e.1 then "." ++ e.1
        else "[" ++ Text.quoted e.1 ++ "]") ++ " = " ++ e.2)) := by
    rw [exported, assignment, text_expr, Expr.text, text_property]
    simp only [String.append_assoc]
    rfl
  calc Code.text [exported "exports" e.1 (.ident e.2)]
      = (exported "exports" e.1 (.ident e.2)).text 0 ++ "\n" := text_singleton _
    _ = exportLine e := by
        rw [hstatement, statementText_exports, exportLine]
        simp only [String.append_assoc]
        rfl

theorem hoistedExports_eq (i : Item) :
    hoistedExports i = i.functionExports.map fun e => exported "exports" e.1 (.ident e.2) := by
  cases i with
  | exportDecl s declSpan d =>
    cases d with
    | function f =>
      rw [hoistedExports, Item.functionExports, List.map_map, Decl.liveNames]
      split
      · rfl
      · rw [Decl.boundNames, List.map_map]
        rfl
    | _ => rfl
  | exportDefaultDecl s declSpan d =>
    cases d with
    | function f =>
      rw [hoistedExports, Item.functionExports, List.map_map, Decl.liveNamesAsDefault]
      split <;> rfl
    | _ => rfl
  | _ => rfl

theorem text_hoistedExports (items : List Item) :
    Code.text (items.flatMap hoistedExports) =
      String.join ((items.flatMap Item.functionExports).map exportLine) := by
  have hexports : items.flatMap hoistedExports =
      ((items.flatMap Item.functionExports).map fun e =>
        [exported "exports" e.1 (.ident e.2)]).flatten := by
    rw [← List.flatMap_def, List.flatMap_assoc]
    refine congrArg (List.flatMap · items) (funext fun i => ?_)
    rw [hoistedExports_eq, List.map_eq_flatMap]
  rw [hexports, text_flatten, List.map_map]
  refine congrArg String.join (List.map_congr_left fun e _ => ?_)
  rw [Function.comp_apply, text_exported]

/-- The code of a module where modules are required: the lines that every module starts with, one
line for each exported function in the order of the source, and then the items in order. Each export
of an item is assigned once. -/
theorem Program.exports_assigned_once {p : Program} {options : CompilerOptions}
    (hmodule : p.isModule = true) (hformat : options.format.usesRequire = true) :
    ∃ codes : List (List Code.Stmt),
      p.emit options = moduleHead ++
        String.join ((p.items.flatMap Item.functionExports).map exportLine) ++
          String.join (codes.map Code.text) ∧
      List.Forall₂ (fun i code =>
        (∃ used, code = ((lowerItem (contextOf options p) .exports i).run used).1) ∧
          (i.isExport = true → i.ExportsOnce (contextOf options p) code)) p.items codes := by
  have hrequire : (contextOf options p).options.format.usesRequire = true := hformat
  have hdestination : (contextOf options p).destination = .exports := if_pos hrequire
  refine ⟨((lowerItems (contextOf options p) .exports p.items).run []).1, ?_, ?_⟩
  · rw [← text_hoistedExports, ← text_prologue, ← text_flatten, ← text_append, ← text_append, emit,
      lowerProgram, prologue, if_pos hmodule, if_pos hrequire, hdestination]
    rfl
  · refine forall₂_lowerItems _ (fun i used => ⟨⟨used, rfl⟩, fun h => ?_⟩) p.items []
    exact (assigns_lowerItem _ h used).exportsOnce

/-- A pattern, a function with an overload, a class without a name, and a list of exports with a name
that is a type only. -/
theorem Program.exports_assigned_once_mixed :
    let source := "export const \x7ba,b:[c]\x7d=o;export function f();export function f()\x7b\x7d" ++
      "export default class\x7b\x7dexport\x7bx as y,T\x7d;interface T\x7b\x7d"
    let options : CompilerOptions := {}
    ∃ p, Grammar.parseModule source 0 = .ok p ∧ p.isModule = true ∧
      options.format.usesRequire = true ∧
      p.items.map (Item.exportedNames p.typeOnlyNames) =
        [["a", "c"], [], ["f"], ["default"], ["y"], []] ∧
      ∃ codes : List (List Code.Stmt),
        p.emit options = moduleHead ++
          String.join ((p.items.flatMap Item.functionExports).map exportLine) ++
            String.join (codes.map Code.text) ∧
        List.Forall₂ (fun i code =>
          (∃ used, code = ((lowerItem (contextOf options p) .exports i).run used).1) ∧
            (i.isExport = true → i.ExportsOnce (contextOf options p) code)) p.items codes := by
  intro source options
  have hnames : (Grammar.parseModule source 0).toOption.map (fun p =>
      (p.isModule, p.items.map (Item.exportedNames p.typeOnlyNames))) =
        some (true, [["a", "c"], [], ["f"], ["default"], ["y"], []]) := by
    decide +kernel
  cases hp : Grammar.parseModule source 0 with
  | error errors =>
    rw [hp] at hnames
    cases hnames
  | ok p =>
    rw [hp] at hnames
    obtain ⟨hmodule, hnames⟩ := Prod.mk.inj (Option.some.inj hnames)
    exact ⟨p, rfl, hmodule, rfl, hnames, exports_assigned_once hmodule rfl⟩

end TypeStrip
