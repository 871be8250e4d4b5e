import Mathlib.Data.List.Forall2
import TypeStrip.Proofs.Exports.Bindings

/-!
Blocks of a namespace inside another, which are written with a dotted name or one in the other, and
their code.
-/
namespace TypeStrip
open Lowering Code

namespace Namespaces

inductive IsConstant : Declarator → String × Literal → Prop where
  | mk {span span' : Span} {name : Name} {type : Option TypeExpr} {value : Literal} :
    IsConstant (.mk (.ident span name) type (some (.literal span' value))) (name.text, value)

inductive Exports : Item → List (String × Literal) → Prop where
  | vars {span declSpan : Span} {kind : VarKind} {ds : List Declarator}
    {constants : List (String × Literal)} (h : List.Forall₂ IsConstant ds constants) :
    Exports (.exportDecl span declSpan (.vars kind ds false)) constants

inductive Fills : Namespace → String → List (String × Literal) → Prop where
  | block {name : Name} {items : List Item} {constants : List (List (String × Literal))}
    (hitems : items ≠ []) (h : List.Forall₂ Exports items constants) :
    Fills (.block (.ident name) items false) name.text constants.flatten

/-- A block of a namespace inside another: whether the name is dotted, and the constants that it
exports. -/
structure Block where
  isDotted : Bool
  constants : List (String × Literal)

/-- A namespace is written as a block of the second namespace inside the first. -/
inductive Spells (outer : String) : Namespace → String → Block → Prop where
  | dotted {name : Name} {span : Span} {n : Namespace} {inner : String}
    {constants : List (String × Literal)} (hname : name.text = outer) (h : Fills n inner constants) :
    Spells outer (.dotted (.ident name) span n false) inner ⟨true, constants⟩
  | nested {name : Name} {span declSpan : Span} {n : Namespace} {inner : String}
    {constants : List (String × Literal)} (hname : name.text = outer) (h : Fills n inner constants) :
    Spells outer (.block (.ident name) [.exportDecl span declSpan (.namespace_ n)] false) inner
      ⟨false, constants⟩

inductive IsBlockOf (outer inner : String) : Item → Block → Prop where
  | mk {span declSpan : Span} {n : Namespace} {block : Block} (h : Spells outer n inner block) :
    IsBlockOf outer inner (.stmt span (.decl declSpan (.namespace_ n))) block

/-! ### Their code -/

def constantsCode (object : String) (kind : VarKind) (constants : List (String × Literal)) :
    List Code.Stmt :=
  .vars kind (constants.map fun c => .mk (.ident c.1) (some (.literal c.2))) ::
    constants.map fun c => exported object c.1 (.ident c.1)

inductive IsBody (object : String) : List (String × Literal) → List Code.Stmt → Prop where
  | nil : IsBody object [] []
  | cons {kind : VarKind} {constants rest : List (String × Literal)} {body : List Code.Stmt}
    (h : IsBody object rest body) :
    IsBody object (constants ++ rest) (constantsCode object kind constants ++ body)

/-- The code inside a block of the outer namespace, given the code inside the inner one. -/
def insideCode (outer inner : String) (isDotted : Bool) (body : List Code.Stmt) : List Code.Stmt :=
  if isDotted then lowerNamespaceBody (some outer) inner body
  else lowerNamespaceBody none inner body ++ [exported outer inner (.ident inner)]

def blockCode (outer inner : String) (isDotted : Bool) (body : List Code.Stmt) : List Code.Stmt :=
  lowerNamespaceBody none outer (insideCode outer inner isDotted body)

def IsCodeOf (outer inner : String) (code : List Code.Stmt) (block : Block) : Prop :=
  ∃ body, IsBody inner block.constants body ∧ code = blockCode outer inner block.isDotted body

variable (ctx : Context)

theorem lowerDeclarators_constants {ds : List Declarator} {constants : List (String × Literal)}
    (h : List.Forall₂ IsConstant ds constants) :
    (lowerDeclarators ctx ds).Yields fun code =>
      code = constants.map fun c => .mk (.ident c.1) (some (.literal c.2)) := by
  induction h with
  | nil => exact .pure rfl
  | cons hd _ ih =>
    obtain ⟨⟩ := hd
    rw [lowerDeclarators]
    exact fun used => congrArg (_ :: ·) (ih used)

theorem boundNames_constants {ds : List Declarator} {constants : List (String × Literal)}
    (h : List.Forall₂ IsConstant ds constants) :
    (ds.flatMap fun d => d.pattern.boundNames) = constants.map Prod.fst := by
  induction h with
  | nil => rfl
  | cons hd _ ih =>
    obtain ⟨⟩ := hd
    exact congrArg (_ :: ·) ih

/-- What a namespace exports is assigned to its object after the code of the declaration. -/
theorem exportedDeclaration_namespace {d : Decl} (h : d.isTypeOnly = false) (object : String)
    (stmts : List Code.Stmt) :
    exportedDeclaration (.namespace_ object) d stmts =
      stmts ++ d.boundNames.map fun name => exported object name (.ident name) := by
  rw [exportedDeclaration, h, if_neg Bool.false_ne_true]
  exact if_neg (by simp)

/-- The code of an item that exports constants. -/
theorem lowerItem_constants {object : String} {i : Item} {constants : List (String × Literal)}
    (h : Exports i constants) :
    (lowerItem ctx (.namespace_ object) i).Yields fun code =>
      ∃ kind, code = constantsCode object kind constants := by
  obtain ⟨h⟩ := h
  rename_i span declSpan kind ds
  have hnames : (Decl.vars kind ds false).boundNames = constants.map Prod.fst :=
    boundNames_constants h
  have hlowered : (lowerDecl ctx (.vars kind ds false)).Yields fun code =>
      code = [.vars (variableKind ctx kind)
        (constants.map fun c => .mk (.ident c.1) (some (.literal c.2)))] := by
    rw [lowerDecl, if_neg Bool.false_ne_true]
    exact (lowerDeclarators_constants ctx h).map fun code hcode => hcode ▸ rfl
  rw [lowerItem]
  refine hlowered.map fun code hcode => ⟨variableKind ctx kind, ?_⟩
  rw [hcode, exportedDeclaration_namespace rfl, hnames, List.map_map]
  rfl

theorem lowerItems_constants {object : String} {items : List Item}
    {constants : List (List (String × Literal))} (h : List.Forall₂ Exports items constants) :
    (lowerItems ctx (.namespace_ object) items).Yields fun code =>
      IsBody object constants.flatten code.flatten := by
  induction h with
  | nil => exact .pure .nil
  | cons hi _ ih =>
    rw [lowerItems]
    refine (lowerItem_constants ctx hi).bind fun first hfirst => ih.map fun code hcode => ?_
    obtain ⟨kind, rfl⟩ := hfirst
    exact .cons hcode

theorem Exports.hasRuntimeContent {i : Item} {constants : List (String × Literal)}
    (h : Exports i constants) : i.hasRuntimeContent = true := by
  obtain ⟨-⟩ := h
  rfl

section
variable {n : Namespace} {inner : String} {constants : List (String × Literal)}

theorem Fills.hasRuntimeContent (h : Fills n inner constants) : n.hasRuntimeContent = true := by
  obtain ⟨hitems, hexports⟩ := h
  cases hexports with
  | nil => exact absurd rfl hitems
  | cons hi _ =>
    rw [Namespace.hasRuntimeContent, anyRuntimeContent, hi.hasRuntimeContent,
      Bool.true_or]

theorem Fills.boundNames (h : Fills n inner constants) :
    (Decl.namespace_ n).boundNames = [inner] := by
  obtain ⟨-, -⟩ := h
  rfl

/-- The code of a namespace, which may be a property of another. -/
theorem Fills.lowerNamespace (h : Fills n inner constants) (parent : Option String) :
    (lowerNamespace ctx parent n).Yields fun code =>
      ∃ body, IsBody inner constants body ∧ code = lowerNamespaceBody parent inner body := by
  have hcontent := h.hasRuntimeContent
  obtain ⟨-, hexports⟩ := h
  rw [Namespace.hasRuntimeContent] at hcontent
  rw [Lowering.lowerNamespace, hcontent, if_neg (by decide)]
  exact (lowerItems_constants ctx hexports).map fun body hbody => ⟨body.flatten, hbody, rfl⟩

/-- The code of a block, whichever way its name is written. -/
theorem Spells.lowerNamespace {outer : String} {block : Block} (h : Spells outer n inner block) :
    (lowerNamespace ctx none n).Yields fun code => IsCodeOf outer inner code block := by
  cases h with
  | dotted hname h =>
    rw [Lowering.lowerNamespace, h.hasRuntimeContent, if_neg (by decide), hname]
    refine (h.lowerNamespace ctx _).map fun code hcode => ?_
    obtain ⟨body, hbody, rfl⟩ := hcode
    exact ⟨body, hbody, rfl⟩
  | @nested name span declSpan n inner constants hname h =>
    have hcontent : (Decl.namespace_ n).isTypeOnly = false := by
      rw [Decl.isTypeOnly, h.hasRuntimeContent]
      obtain ⟨-, -⟩ := h
      rfl
    have hitems : anyRuntimeContent [.exportDecl span declSpan (.namespace_ n)] = true := by
      rw [anyRuntimeContent, Item.hasRuntimeContent, hcontent]
      rfl
    rw [Lowering.lowerNamespace, hitems, if_neg (by decide), hname]
    have hitem : (lowerItem ctx (.namespace_ outer)
        (.exportDecl span declSpan (.namespace_ n))).Yields fun code =>
          ∃ body, IsBody inner constants body ∧ code =
            lowerNamespaceBody none inner body ++ [exported outer inner (.ident inner)] := by
      rw [lowerItem, lowerDecl]
      refine (h.lowerNamespace ctx none).map fun code hcode => ?_
      obtain ⟨body, hbody, rfl⟩ := hcode
      refine ⟨body, hbody, ?_⟩
      rw [exportedDeclaration_namespace hcontent, h.boundNames]
      rfl
    have hrest : (lowerItems ctx (.namespace_ outer) []).Yields (· = []) := .pure rfl
    rw [lowerItems]
    refine Lower.Yields.map (hitem.bind fun first hfirst => hrest.map fun rest hrest => ?_)
      (Q := fun code => ∃ body, IsBody inner constants body ∧ code.flatten =
        lowerNamespaceBody none inner body ++ [exported outer inner (.ident inner)]) ?_
    · obtain ⟨body, hbody, rfl⟩ := hfirst
      exact ⟨body, hbody, by rw [hrest, List.flatten_singleton]⟩
    · rintro code ⟨body, hbody, hcode⟩
      exact ⟨body, hbody, congrArg (lowerNamespaceBody none outer) hcode⟩

end

end Namespaces

end TypeStrip
