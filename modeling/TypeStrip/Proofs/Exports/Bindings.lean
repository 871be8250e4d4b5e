import TypeStrip.Proofs.Mentions.Shapes
import TypeStrip.Lowering.Module

/-!
The names that code declares where a declaration stands: those that the declaration binds in the
source, whatever becomes of it.
-/
namespace TypeStrip

/-- The names that a declaration introduces when the code runs: those that it binds, unless it is
erased. -/
def Decl.liveNames (d : Decl) : List String := if d.isTypeOnly then [] else d.boundNames

namespace Code

mutual

def Pattern.boundNames : Pattern → List String
  | .ident name => [name]
  | .array ps rest => namesOfPatterns ps ++ namesOfPattern? rest
  | .object fs rest => namesOfFields fs ++ namesOfPattern? rest
  | .withDefault p _ => p.boundNames
  | .omitted => []

def namesOfPatterns : List Pattern → List String
  | [] => []
  | p :: ps => p.boundNames ++ namesOfPatterns ps

def namesOfPattern? : Option Pattern → List String
  | some p => p.boundNames
  | none => []

def namesOfFields : List PatternField → List String
  | [] => []
  | .shorthand p :: fs | .pair _ p :: fs => p.boundNames ++ namesOfFields fs

end

def Declarator.pattern : Declarator → Pattern
  | .mk p _ => p

def Func.name? : Func → Option String
  | .mk name .. => name

def Class.name? : Class → Option String
  | .mk name .. => name

def Stmt.declaredNames : Stmt → List String
  | .vars _ ds => ds.flatMap fun d => d.pattern.boundNames
  | .function f => f.name?.toList
  | .cls c => c.name?.toList
  | _ => []

def declaredNames (stmts : List Stmt) : List String := stmts.flatMap Stmt.declaredNames

/-- The export that a statement assigns: a property of the object of exports. -/
def Stmt.assignedExport? : Stmt → Option String
  | .expr (.assign (.member (.ident "exports") name) .assign _) => some name
  | .expr (.assign (.index (.ident "exports") (.literal (.string name))) .assign _) => some name
  | _ => none

def assignedExports (stmts : List Stmt) : List String := stmts.filterMap Stmt.assignedExport?

end Code

namespace Lowering
open Code

variable (ctx : Context)

/-! ### Patterns -/

mutual

theorem boundNames_lowerPattern (p : Pattern) :
    (lowerPattern ctx p).Yields fun c => c.boundNames = p.boundNames := by
  cases p with
  | ident s name | omitted => exact .pure rfl
  | array s ps rest =>
    rw [lowerPattern]
    exact (boundNames_lowerPatterns ps).bind fun ps' hps =>
      (boundNames_lowerPattern? rest).map fun rest' hrest => congrArg₂ (· ++ ·) hps hrest
  | object s fs rest =>
    rw [lowerPattern]
    exact (boundNames_lowerFields fs).bind fun fs' hfs =>
      (boundNames_lowerPattern? rest).map fun rest' hrest => congrArg₂ (· ++ ·) hfs hrest
  | withDefault s p e =>
    rw [lowerPattern]
    exact (boundNames_lowerPattern p).bind fun p' hp => (Lower.Yields.trivial _).map fun _ _ => hp

theorem boundNames_lowerPatterns (ps : List Pattern) :
    (lowerPatterns ctx ps).Yields fun cs => Code.namesOfPatterns cs = namesOfPatterns ps := by
  cases ps with
  | nil => exact .pure rfl
  | cons p ps =>
    rw [lowerPatterns]
    exact (boundNames_lowerPattern p).bind fun p' hp =>
      (boundNames_lowerPatterns ps).map fun ps' hps => congrArg₂ (· ++ ·) hp hps

theorem boundNames_lowerPattern? (p : Option Pattern) :
    (lowerPattern? ctx p).Yields fun c => Code.namesOfPattern? c = namesOfPattern? p := by
  cases p with
  | none => exact .pure rfl
  | some p =>
    rw [lowerPattern?]
    exact (boundNames_lowerPattern p).map fun p' hp => hp

theorem boundNames_lowerFields (fs : List PatternField) :
    (lowerFields ctx fs).Yields fun cs => Code.namesOfFields cs = namesOfFields fs := by
  match fs with
  | [] => exact .pure rfl
  | .mk k p shorthand :: fs =>
    have hfield : (lowerField ctx (.mk k p shorthand)).Yields fun c =>
        Code.namesOfFields [c] = p.boundNames := by
      rw [lowerField]
      refine (boundNames_lowerPattern p).bind fun p' hp => ?_
      split
      · exact .pure ((List.append_nil _).trans hp)
      · exact (Lower.Yields.trivial _).map fun _ _ => (List.append_nil _).trans hp
    rw [lowerFields]
    refine hfield.bind fun c hc => (boundNames_lowerFields fs).map fun cs hcs => ?_
    rw [namesOfFields, ← hc, ← hcs]
    cases c <;> simp only [Code.namesOfFields, List.append_nil]

end

/-! ### Declarations -/

theorem boundNames_lowerDeclarators (ds : List Declarator) :
    (lowerDeclarators ctx ds).Yields fun cs =>
      (cs.flatMap fun d => d.pattern.boundNames) = ds.flatMap fun d => d.pattern.boundNames := by
  match ds with
  | [] => exact .pure rfl
  | .mk p type init :: ds =>
    rw [lowerDeclarators]
    exact (boundNames_lowerPattern ctx p).bind fun p' hp => (Lower.Yields.trivial _).bind
      fun _ _ => (boundNames_lowerDeclarators ds).map fun ds' hds => congrArg₂ (· ++ ·) hp hds

theorem name_lowerFunc (f : Func) :
    (lowerFunc ctx f).Yields fun c => c.name? = f.name?.map Name.text := by
  obtain ⟨name, tps, ps, ret, body, isAsync, isGenerator, isDeclare⟩ := f
  rw [lowerFunc]
  exact (Lower.Yields.trivial _).bind fun _ _ => (Lower.Yields.trivial _).map fun _ _ => rfl

theorem name_lowerClass (c : Class) :
    (lowerClass ctx c).Yields fun c' => c'.name? = c.name?.map Name.text := by
  obtain ⟨name, tps, base, baseArgs, interfaces, members, isAbstract, isDeclare⟩ := c
  rw [lowerClass]
  exact (Lower.Yields.trivial _).bind fun _ _ => (Lower.Yields.trivial _).map fun _ _ => rfl

/-- Code that declares the names that a declaration binds, and assigns no export. -/
structure Declares (names : List String) (stmts : List Code.Stmt) : Prop where
  names : declaredNames stmts = names
  exports : assignedExports stmts = []

theorem declares_nil : Declares [] [] := ⟨rfl, rfl⟩

/-- An enum or a namespace is a variable with a scope that fills it. -/
theorem declares_scope (name : String) (body : List Code.Stmt) (argument : Code.Expr) :
    Declares [name] [emptyVariable name, .scope name body argument] :=
  ⟨rfl, rfl⟩

/-- A namespace is lowered to nothing, or to a variable with a scope under its name. -/
theorem lowerNamespace_cases (parent : Option String) (n : Namespace) :
    (lowerNamespace ctx parent n).Yields fun stmts =>
      stmts = [] ∧ (Decl.namespace_ n).liveNames = [] ∨
        ∃ name body, stmts = lowerNamespaceBody parent name body ∧
          (Decl.namespace_ n).liveNames = [name] := by
  match n with
  | .block (.ident name) items isDeclare =>
    rw [lowerNamespace]
    split
    · next h => exact .pure (.inl ⟨rfl, if_pos h⟩)
    · next h => exact (Lower.Yields.trivial _).map fun _ _ => .inr ⟨_, _, rfl, if_neg h⟩
  | .dotted (.ident name) span inner isDeclare =>
    rw [lowerNamespace]
    split
    · next h => exact .pure (.inl ⟨rfl, if_pos h⟩)
    · next h => exact (Lower.Yields.trivial _).map fun _ _ => .inr ⟨_, _, rfl, if_neg h⟩
  | .block (.string s) _ _ | .dotted (.string s) _ _ _ => exact .pure (.inl ⟨rfl, ite_self _⟩)
  | .ambient name isDeclare => exact .pure (.inl ⟨rfl, if_pos (Bool.or_true isDeclare)⟩)

/-- The code of a declaration declares the names that the declaration binds, unless nothing is left
of it once types are erased. -/
theorem declares_lowerDecl (d : Decl) : (lowerDecl ctx d).Yields (Declares d.liveNames) := by
  cases d with
  | function f =>
    rw [lowerDecl, Decl.liveNames]
    split
    · exact .pure declares_nil
    · refine (name_lowerFunc ctx f).map fun f' hf => ⟨?_, rfl⟩
      rw [declaredNames, List.flatMap_singleton, Code.Stmt.declaredNames, hf]
      exact Option.toList_map ..
  | cls c =>
    rw [lowerDecl, Decl.liveNames]
    split
    · exact .pure declares_nil
    · refine (name_lowerClass ctx c).map fun c' hc => ⟨?_, rfl⟩
      rw [declaredNames, List.flatMap_singleton, Code.Stmt.declaredNames, hc]
      exact Option.toList_map ..
  | vars kind ds isDeclare =>
    rw [lowerDecl]
    cases isDeclare with
    | true => exact .pure declares_nil
    | false =>
      exact (boundNames_lowerDeclarators ctx ds).map fun ds' hds =>
        ⟨(List.flatMap_singleton ..).trans hds, rfl⟩
  | enumeration name ms isConst isDeclare =>
    rw [lowerDecl]
    cases isDeclare with
    | true => exact .pure declares_nil
    | false => exact (Lower.Yields.trivial _).map fun _ _ => declares_scope name.text _ _
  | namespace_ n =>
    rw [lowerDecl]
    refine (lowerNamespace_cases ctx none n).imp fun stmts h => ?_
    rcases h with ⟨rfl, hnames⟩ | ⟨name, body, rfl, hnames⟩
    · exact hnames ▸ declares_nil
    · exact hnames ▸ declares_scope name body _
  | interface | alias_ => exact .pure declares_nil

/-- Nothing is left of a declaration that is about types only. -/
theorem lowerDecl_of_isTypeOnly {d : Decl} (h : d.isTypeOnly = true) :
    (lowerDecl ctx d).Yields (· = []) := by
  cases d with
  | function | cls =>
    rw [lowerDecl, if_pos h]
    exact .pure rfl
  | vars kind ds isDeclare | enumeration name ms isConst isDeclare =>
    cases isDeclare with
    | true => exact .pure rfl
    | false => cases h
  | namespace_ n =>
    rw [lowerDecl]
    refine (lowerNamespace_cases ctx none n).imp fun stmts hcases => ?_
    rcases hcases with ⟨rfl, -⟩ | ⟨name, body, -, hnames⟩
    · rfl
    · rw [Decl.liveNames, if_pos h] at hnames
      cases hnames
  | interface | alias_ => exact .pure rfl

end Lowering

end TypeStrip
