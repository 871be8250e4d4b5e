import TypeStrip.Lowering.Transpile
import TypeStrip.Proofs.Namespaces.Blocks
import TypeStrip.Proofs.Namespaces.Running

/-!
What is left of several blocks of one namespace inside another. A dotted name goes on with the object
that is there. A namespace that is written inside a block of the outer one starts with a new object,
which replaces the one before, since the variable of the inner namespace is new in every block.
-/
namespace TypeStrip.Namespaces
open Lowering Code

/-! ### Constants -/

def extend {β : Type} (value : Literal → β) (f : String → β) (constants : List (String × Literal)) :
    String → β :=
  constants.foldl (fun f c => Function.update f c.1 (value c.2)) f

section
variable {β : Type} {value : Literal → β} {f : String → β} {constants : List (String × Literal)}

theorem extend_append (value : Literal → β) (f : String → β)
    (constants constants' : List (String × Literal)) :
    extend value f (constants ++ constants') = extend value (extend value f constants) constants' :=
  List.foldl_append

theorem extend_of_notMem {name : String} (h : name ∉ constants.map Prod.fst) :
    extend value f constants name = f name := by
  induction constants generalizing f with
  | nil => rfl
  | cons c constants ih =>
    obtain ⟨hne, hrest⟩ := not_or.1 (mt List.mem_cons.2 h)
    exact (ih hrest).trans (Function.update_of_ne hne ..)

theorem extend_of_mem {c : String × Literal} (hc : c ∈ constants)
    (h : (constants.map Prod.fst).Nodup) : extend value f constants c.1 = value c.2 := by
  induction constants generalizing f with
  | nil => cases hc
  | cons c' constants ih =>
    obtain ⟨hnew, hrest⟩ := List.nodup_cons.1 h
    rcases List.mem_cons.1 hc with rfl | hc
    · exact (extend_of_notMem hnew).trans (Function.update_self ..)
    · exact ih hc hrest

end

def withVariables (scope : Scope) (constants : List (String × Literal)) : Scope :=
  extend (fun value => some (.literal value)) scope constants

def withExports (properties : Properties) (constants : List (String × Literal)) : Properties :=
  extend .literal properties constants

theorem withVariables_append (scope : Scope) (constants constants' : List (String × Literal)) :
    withVariables scope (constants ++ constants') =
      withVariables (withVariables scope constants) constants' :=
  extend_append ..

theorem withExports_append (properties : Properties)
    (constants constants' : List (String × Literal)) :
    withExports properties (constants ++ constants') =
      withExports (withExports properties constants) constants' :=
  extend_append ..

/-! ### What is inside a block -/

section
variable {scope : Scope} {outer : List Scope} {objects : Nat → Properties} {next : Nat}
  {object : String} {address : Nat} {constants : List (String × Literal)}

theorem declareAll_constants (kind : VarKind) (hd : (constants.map Prod.fst).Nodup)
    (h : ∀ c ∈ constants, scope c.1 = some .undefined) :
    declareAll ⟨scope :: outer, objects, next⟩ kind
        (constants.map fun c => .mk (.ident c.1) (some (.literal c.2))) =
      some ⟨withVariables scope constants :: outer, objects, next⟩ := by
  induction constants generalizing scope with
  | nil => rfl
  | cons c constants ih =>
    obtain ⟨hnew, hd⟩ := List.nodup_cons.1 hd
    obtain ⟨hc, h⟩ := List.forall_mem_cons.1 h
    have hdeclare : State.declare ⟨scope :: outer, objects, next⟩ kind c.1 (.literal c.2) =
        some ⟨Function.update scope c.1 (some (.literal c.2)) :: outer, objects, next⟩ :=
      if_pos (.inr hc)
    rw [List.map_cons, declareAll, evaluate, Option.bind_some, hdeclare, Option.bind_some]
    refine ih hd fun c' hc' => ?_
    have hne : c'.1 ≠ c.1 := fun he => hnew (he ▸ List.mem_map_of_mem hc')
    rw [Function.update_of_ne hne]
    exact h c' hc'

theorem run_exports (hobject : scope object = some (.object address))
    (h : ∀ c ∈ constants, scope c.1 = some (.literal c.2)) :
    run ⟨scope :: outer, objects, next⟩
        (constants.map fun c => exported object c.1 (.ident c.1)) =
      some ⟨scope :: outer,
        Function.update objects address (withExports (objects address) constants), next⟩ := by
  induction constants generalizing objects with
  | nil =>
    rw [withExports, extend, List.foldl_nil, Function.update_eq_self]
    rfl
  | cons c constants ih =>
    obtain ⟨hc, h⟩ := List.forall_mem_cons.1 h
    rw [List.map_cons, run, step_exported hobject hc, Option.bind_some, ih h, Function.update_idem,
      Function.update_self]
    rfl

/-- Constants that are exported together. -/
theorem run_constants (kind : VarKind) (hobject : scope object = some (.object address))
    (hne : object ∉ constants.map Prod.fst) (hd : (constants.map Prod.fst).Nodup)
    (h : ∀ c ∈ constants, scope c.1 = some .undefined) :
    run ⟨scope :: outer, objects, next⟩ (constantsCode object kind constants) =
      some ⟨withVariables scope constants :: outer,
        Function.update objects address (withExports (objects address) constants), next⟩ := by
  rw [constantsCode, run, step, declareAll_constants kind hd h, Option.bind_some]
  exact run_exports ((extend_of_notMem hne).trans hobject) fun c hc => extend_of_mem hc hd

/-- The code inside a block exports all constants of the block, by induction on the items of it. -/
theorem run_body {body : List Code.Stmt} (hbody : IsBody object constants body)
    (hobject : scope object = some (.object address)) (hne : object ∉ constants.map Prod.fst)
    (hd : (constants.map Prod.fst).Nodup) (h : ∀ c ∈ constants, scope c.1 = some .undefined) :
    run ⟨scope :: outer, objects, next⟩ body = some ⟨withVariables scope constants :: outer,
      Function.update objects address (withExports (objects address) constants), next⟩ := by
  induction hbody generalizing scope objects with
  | nil =>
    rw [run, withExports, extend, List.foldl_nil, Function.update_eq_self]
    rfl
  | @cons kind constants rest body _ ih =>
    rw [List.map_append] at hne hd
    obtain ⟨hne, hneRest⟩ := not_or.1 (mt List.mem_append.2 hne)
    obtain ⟨hd, hdRest, hdisjoint⟩ := List.nodup_append.1 hd
    obtain ⟨h, hrest⟩ := List.forall_mem_append.1 h
    have hfresh : ∀ c ∈ rest, withVariables scope constants c.1 = some .undefined := by
      intro c hc
      have hnew : c.1 ∉ constants.map Prod.fst := fun hmem =>
        hdisjoint _ hmem _ (List.mem_map_of_mem hc) rfl
      exact (extend_of_notMem hnew).trans (hrest c hc)
    have hobject' : withVariables scope constants object = some (.object address) :=
      (extend_of_notMem hne).trans hobject
    rw [run_append, run_constants kind hobject hne hd h, Option.bind_some,
      ih hobject' hneRest hdRest hfresh, Function.update_idem,
      Function.update_self, withVariables_append, withExports_append]

end

/-! ### Blocks -/

/-- What the object of the inner namespace has as the property of an object: nothing yet, or the
given properties. -/
def HasInner (objects : Nat → Properties) (next address : Nat) (inner : String) :
    Option Properties → Prop
  | none => objects address inner = .undefined
  | some properties => ∃ address' < next, address ≠ address' ∧
    objects address inner = .object address' ∧ objects address' = properties

def Block.after (properties : Option Properties) (block : Block) : Properties :=
  withExports (if block.isDotted then properties.getD noProperties else noProperties)
    block.constants

/-- The names of the constants in a block are different, and none is that of the namespace. -/
structure Block.IsProper (inner : String) (block : Block) : Prop where
  nodup : (block.constants.map Prod.fst).Nodup
  ne_inner : inner ∉ block.constants.map Prod.fst

/-- The assignments of exports declare nothing. -/
theorem declaredNames_exported (object : String) (constants : List (String × Literal)) :
    declaredNames (constants.map fun c => exported object c.1 (.ident c.1)) = [] := by
  rw [declaredNames, List.flatMap_map]
  exact List.flatMap_eq_nil_iff.2 fun _ _ => rfl

theorem declaredNames_body {inner : String} {constants : List (String × Literal)}
    {body : List Code.Stmt} (h : IsBody inner constants body) :
    declaredNames body = constants.map Prod.fst := by
  induction h with
  | nil => rfl
  | @cons kind constants rest body _ ih =>
    have hvars : (Code.Stmt.vars kind (constants.map fun c =>
        .mk (.ident c.1) (some (.literal c.2)))).declaredNames = constants.map Prod.fst := by
      rw [Code.Stmt.declaredNames, List.flatMap_map, List.map_eq_flatMap]
      rfl
    have hexports := declaredNames_exported inner constants
    rw [declaredNames] at ih hexports ⊢
    rw [constantsCode, List.cons_append, List.flatMap_cons, List.flatMap_append, hvars, hexports,
      ih, List.map_append, List.nil_append]

/-- The function of a namespace is called with an object, and exports the constants to it. -/
theorem step_fill {m : State} {outer : List Scope} {objects : Nat → Properties} {next address : Nat}
    {inner : String} {block : Block} {body : List Code.Stmt} {argument : Code.Expr}
    (hbody : IsBody inner block.constants body) (hproper : block.IsProper inner)
    (hargument : evaluate m argument = some (.object address, ⟨outer, objects, next⟩)) :
    step m (.scope inner body argument) = some ⟨outer, Function.update objects address
      (withExports (objects address) block.constants), next⟩ := by
  refine step_scope hargument (run_body hbody (Function.update_self ..) hproper.ne_inner
    hproper.nodup fun c hc => ?_)
  have hmem : c.1 ∈ block.constants.map Prod.fst := List.mem_map_of_mem hc
  have hne : c.1 ≠ inner := fun he => hproper.ne_inner (he ▸ hmem)
  rw [Function.update_of_ne hne, hoisted, declaredNames_body hbody, if_pos hmem]

section
variable {scope : Scope} {scopes : List Scope} {objects : Nat → Properties} {next address : Nat}
  {outer inner : String} {block : Block} {body : List Code.Stmt} {properties : Option Properties}

/-- An empty variable changes nothing. -/
theorem run_emptyVariable (m : State) (name : String) (s : Code.Stmt) :
    run m [emptyVariable name, s] = step m s :=
  Option.bind_fun_some _

/-- A block with a dotted name goes on with the object that is there. -/
theorem run_dotted (hbody : IsBody inner block.constants body) (hproper : block.IsProper inner)
    (houter : scope outer = some (.object address)) (hinner : scope inner = some .undefined)
    (hlt : address < next) (h : HasInner objects next address inner properties) :
    ∃ scope' objects' next', next ≤ next' ∧
      run ⟨scope :: scopes, objects, next⟩ (lowerNamespaceBody (some outer) inner body) =
        some ⟨scope' :: scopes, objects', next'⟩ ∧
      HasInner objects' next' address inner
        (some (withExports (properties.getD noProperties) block.constants)) := by
  cases properties with
  | none =>
    have hnext : next ≠ address := Nat.ne_of_gt hlt
    have hargument : evaluate ⟨scope :: scopes, objects, next⟩ (.assign (.ident inner) .assign
        (orEmptyObject (.member (.ident outer) inner))) = _ :=
      evaluate_assign (evaluate_new_property houter hnext.symm h) hinner
    refine ⟨_, _, next + 1, Nat.le_succ _,
      (run_emptyVariable ..).trans (step_fill hbody hproper hargument), next, Nat.lt_succ_self _,
      hnext.symm, ?_, ?_⟩
    · rw [Function.update_of_ne hnext.symm, Function.update_self, Function.update_self]
    · rw [Function.update_self, Function.update_of_ne hnext, Function.update_self]
      rfl
  | some properties =>
    obtain ⟨address', hlt', hne, hobject, rfl⟩ := h
    have hargument : evaluate ⟨scope :: scopes, objects, next⟩ (.assign (.ident inner) .assign
        (orEmptyObject (.member (.ident outer) inner))) = _ :=
      evaluate_assign (evaluate_old_property houter hobject) hinner
    refine ⟨_, _, next, Nat.le_refl _,
      (run_emptyVariable ..).trans (step_fill hbody hproper hargument), address', hlt', hne, ?_, ?_⟩
    · rw [Function.update_of_ne hne]
      exact hobject
    · rw [Function.update_self]
      rfl

/-- A block inside a block starts with a new object. -/
theorem run_nested (hbody : IsBody inner block.constants body) (hproper : block.IsProper inner)
    (hne : outer ≠ inner) (houter : scope outer = some (.object address))
    (hinner : scope inner = some .undefined) (hlt : address < next) :
    ∃ scope' objects' next', next ≤ next' ∧
      run ⟨scope :: scopes, objects, next⟩ (lowerNamespaceBody none inner body ++
          [exported outer inner (.ident inner)]) = some ⟨scope' :: scopes, objects', next'⟩ ∧
      HasInner objects' next' address inner (some (withExports noProperties block.constants)) := by
  let scope' := Function.update scope inner (some (.object next))
  let objects' := Function.update objects next (withExports noProperties block.constants)
  have hrun : run ⟨scope :: scopes, objects, next⟩ (lowerNamespaceBody none inner body) =
      some ⟨scope' :: scopes, objects', next + 1⟩ := by
    rw [lowerNamespaceBody, run_emptyVariable, step_fill hbody hproper (evaluate_new_variable hinner),
      Function.update_self, Function.update_idem]
  have houter' : scope' outer = some (.object address) :=
    (Function.update_of_ne hne ..).trans houter
  have hinner' : scope' inner = some (.object next) := Function.update_self ..
  have hnext : next ≠ address := Nat.ne_of_gt hlt
  refine ⟨scope', Function.update objects' address
      (Function.update (objects' address) inner (.object next)),
    next + 1, Nat.le_succ _, ?_, next, Nat.lt_succ_self _, hnext.symm, ?_, ?_⟩
  · rw [run_append, hrun, Option.bind_some, run, step_exported houter' hinner']
    rfl
  · rw [Function.update_self, Function.update_self]
  · rw [Function.update_of_ne hnext]
    exact Function.update_self ..

/-- What is inside a block of the outer namespace changes the object of the inner one. -/
theorem run_inside (scopes : List Scope) (hbody : IsBody inner block.constants body)
    (hproper : block.IsProper inner) (hne : outer ≠ inner)
    (houter : scope outer = some (.object address)) (hinner : scope inner = some .undefined)
    (hlt : address < next) (h : HasInner objects next address inner properties) :
    ∃ scope' objects' next', next ≤ next' ∧
      run ⟨scope :: scopes, objects, next⟩ (insideCode outer inner block.isDotted body) =
        some ⟨scope' :: scopes, objects', next'⟩ ∧
      HasInner objects' next' address inner (some (block.after properties)) := by
  rw [insideCode, Block.after]
  split
  · exact run_dotted hbody hproper houter hinner hlt h
  · exact run_nested hbody hproper hne houter hinner hlt

end

/-- What a state at the top of a file has as the inner namespace: nothing yet, or an object with the
given properties. -/
def Holds (outer inner : String) (properties : Option Properties) (m : State) : Prop :=
  ∃ scope objects next, m = ⟨[scope], objects, next⟩ ∧
    (scope outer = some .undefined ∧ properties = none ∨
      ∃ address < next, scope outer = some (.object address) ∧
        HasInner objects next address inner properties)

section
variable {m : State} {outer inner : String} {block : Block} {body : List Code.Stmt}
  {properties : Option Properties}

/-- The object of the outer namespace is taken, or made by the first block. -/
theorem Holds.evaluate (h : Holds outer inner properties m) :
    ∃ scope objects next, ∃ address < next,
      evaluate m (orEmptyObject (.ident outer)) =
        some (.object address, ⟨[scope], objects, next⟩) ∧
      scope outer = some (.object address) ∧ HasInner objects next address inner properties := by
  obtain ⟨scope, objects, next, rfl, ⟨hscope, rfl⟩ | ⟨address, hlt, hscope, h⟩⟩ := h
  · refine ⟨_, _, next + 1, next, Nat.lt_succ_self _, evaluate_new_variable hscope,
      Function.update_self .., ?_⟩
    rw [HasInner, Function.update_self]
    rfl
  · exact ⟨scope, objects, next, address, hlt, evaluate_old_variable hscope, hscope, h⟩

theorem declaredNames_insideCode (outer inner : String) (isDotted : Bool) (body : List Code.Stmt) :
    declaredNames (insideCode outer inner isDotted body) = [inner] := by
  cases isDotted <;> rfl

/-- One block changes the object of the inner namespace. -/
theorem Holds.run_block (h : Holds outer inner properties m) (hne : outer ≠ inner)
    (hbody : IsBody inner block.constants body) (hproper : block.IsProper inner) :
    ∃ m', run m (blockCode outer inner block.isDotted body) = some m' ∧
      Holds outer inner (some (block.after properties)) m' := by
  obtain ⟨scope, objects, next, address, hlt, hargument, hscope, h⟩ := h.evaluate
  let inside := insideCode outer inner block.isDotted body
  have houter : Function.update (hoisted inside) outer (some (.object address)) outer =
      some (.object address) := Function.update_self ..
  have hinner : Function.update (hoisted inside) outer (some (.object address)) inner =
      some .undefined := by
    rw [Function.update_of_ne hne.symm, hoisted, declaredNames_insideCode,
      if_pos (List.mem_singleton.2 rfl)]
  obtain ⟨scope', objects', next', hnext, hrun, h'⟩ :=
    run_inside [scope] hbody hproper hne houter hinner hlt h
  refine ⟨⟨[scope], objects', next'⟩, (run_emptyVariable ..).trans (step_scope hargument hrun),
    scope, objects', next', rfl, .inr ⟨address, ?_, hscope, h'⟩⟩
  exact Nat.lt_of_lt_of_le hlt hnext

/-- All blocks in turn change the object of the inner namespace, by induction on them. -/
theorem Holds.run_blocks {codes : List (List Code.Stmt)} {blocks : List Block} (hne : outer ≠ inner)
    (hcodes : List.Forall₂ (IsCodeOf outer inner) codes blocks)
    (hproper : ∀ block ∈ blocks, block.IsProper inner) (h : Holds outer inner properties m) :
    ∃ m', run m codes.flatten = some m' ∧ Holds outer inner
      (blocks.foldl (fun properties block => some (block.after properties)) properties) m' := by
  induction hcodes generalizing m properties with
  | nil => exact ⟨m, rfl, h⟩
  | cons hcode _ ih =>
    obtain ⟨hfirst, hrest⟩ := List.forall_mem_cons.1 hproper
    obtain ⟨body, hbody, rfl⟩ := hcode
    obtain ⟨m₁, hrun₁, h₁⟩ := h.run_block hne hbody hfirst
    obtain ⟨m₂, hrun₂, h₂⟩ := ih hrest h₁
    refine ⟨m₂, ?_, h₂⟩
    rw [List.flatten_cons, run_append, hrun₁]
    exact hrun₂

end

/-! ### Files -/

def State.propertiesAt (m : State) (outer inner : String) : Option Properties :=
  ((m.lookup outer).bind (m.read inner)).bind fun
    | .object address => some (m.objects address)
    | _ => none

theorem Holds.propertiesAt {m : State} {outer inner : String} {properties : Properties}
    (h : Holds outer inner (some properties) m) :
    m.propertiesAt outer inner = some properties := by
  obtain ⟨scope, objects, next, rfl, ⟨-, h⟩ | ⟨address, -, hscope, address', -, -, hobject, h⟩⟩ := h
  · cases h
  · rw [State.propertiesAt, State.lookup_of_scope hscope, Option.bind_some, State.read]
    dsimp only
    rw [hobject, ← h]
    rfl

/-- Blocks with dotted names add to the object that is there. -/
theorem foldl_after_dotted {rest : List Block} (h : ∀ block ∈ rest, block.isDotted = true)
    (properties : Properties) :
    rest.foldl (fun properties block => some (block.after properties)) (some properties) =
      some (withExports properties (rest.flatMap Block.constants)) := by
  induction rest generalizing properties with
  | nil => rfl
  | cons block rest ih =>
    obtain ⟨hblock, h⟩ := List.forall_mem_cons.1 h
    rw [List.foldl_cons, Block.after, if_pos hblock, ih h, List.flatMap_cons, withExports_append]
    rfl

/-- Only the blocks from the last one on count that does not have a dotted name. -/
theorem foldl_after {before rest : List Block} {block : Block}
    (hblock : block.isDotted = false ∨ before = [])
    (hrest : ∀ block ∈ rest, block.isDotted = true) :
    (before ++ block :: rest).foldl (fun properties block => some (block.after properties)) none =
      some (withExports noProperties ((block :: rest).flatMap Block.constants)) := by
  have hfirst : block.after (before.foldl (fun properties block => some (block.after properties))
      none) = withExports noProperties block.constants := by
    rw [Block.after]
    rcases hblock with h | rfl
    · rw [h, if_neg Bool.false_ne_true]
    · rw [List.foldl_nil, Option.getD_none, ite_self]
  rw [List.foldl_append, List.foldl_cons, hfirst, foldl_after_dotted hrest, List.flatMap_cons,
    withExports_append]

section
variable {p : Program} {options : CompilerOptions} {outer inner : String}

theorem lowerItems_blocks (ctx : Context) (dest : Destination) {items : List Item}
    {blocks : List Block} (h : List.Forall₂ (IsBlockOf outer inner) items blocks) :
    (lowerItems ctx dest items).Yields fun codes =>
      List.Forall₂ (IsCodeOf outer inner) codes blocks := by
  induction h with
  | nil => exact .pure .nil
  | cons hi _ ih =>
    obtain ⟨hspells⟩ := hi
    rw [lowerItems, lowerItem, lowerStmt, lowerDecl]
    exact (hspells.lowerNamespace ctx).bind fun code hcode => ih.map fun codes hcodes =>
      .cons hcode hcodes

/-- The outer namespace is a variable of the file. -/
theorem outer_mem_declaredNames {codes : List (List Code.Stmt)} {blocks : List Block}
    (h : List.Forall₂ (IsCodeOf outer inner) codes blocks) (hblocks : blocks ≠ []) :
    outer ∈ declaredNames codes.flatten := by
  cases h with
  | nil => exact absurd rfl hblocks
  | cons hcode _ =>
    obtain ⟨body, -, rfl⟩ := hcode
    rw [List.flatten_cons, declaredNames, List.flatMap_append]
    exact List.mem_append_left _ List.mem_cons_self

theorem isModule_of_blocks {blocks : List Block}
    (h : List.Forall₂ (IsBlockOf outer inner) p.items blocks) : p.isModule = false := by
  rw [Program.isModule]
  generalize p.items = items at h
  induction h with
  | nil => rfl
  | cons hi _ ih =>
    obtain ⟨-⟩ := hi
    exact ih

/-- Blocks of one namespace inside another, which are all that a file has. The inner namespace ends
with the exports of the last block that does not have a dotted name, and of the blocks after it. If
no block after the first is of that kind, then these are the exports of all blocks. -/
theorem propertiesAt_of_blocks {before rest : List Block} {block : Block}
    (hitems : List.Forall₂ (IsBlockOf outer inner) p.items (before ++ block :: rest))
    (hne : outer ≠ inner) (hproper : ∀ b ∈ before ++ block :: rest, b.IsProper inner)
    (hblock : block.isDotted = false ∨ before = [])
    (hrest : ∀ b ∈ rest, b.isDotted = true) :
    ∃ m, runFile (lowerProgram options p) = some m ∧ m.propertiesAt outer inner =
      some (withExports noProperties ((block :: rest).flatMap Block.constants)) := by
  let ctx := contextOf options p
  have hcodes := lowerItems_blocks ctx ctx.destination hitems []
  let codes := ((lowerItems ctx ctx.destination p.items).run []).1
  have hcode : lowerProgram options p = codes.flatten := by
    rw [lowerProgram, prologue, isModule_of_blocks hitems, if_neg Bool.false_ne_true]
    rfl
  have hdeclared : outer ∈ declaredNames codes.flatten :=
    outer_mem_declaredNames hcodes (List.append_ne_nil_of_right_ne_nil _ (List.cons_ne_nil _ _))
  have hstart : Holds outer inner none ⟨[hoisted codes.flatten], fun _ => noProperties, 0⟩ :=
    ⟨_, _, _, rfl, .inl ⟨if_pos hdeclared, rfl⟩⟩
  obtain ⟨m, hrun, hm⟩ := hstart.run_blocks hne hcodes hproper
  rw [foldl_after hblock hrest] at hm
  exact ⟨m, hcode ▸ hrun, hm.propertiesAt⟩

end

example : (Grammar.parseModule ("namespace A.B\x7bexport const x='1'\x7d" ++
      "namespace A\x7bexport namespace B\x7bexport const y='2'\x7d\x7d") 0).toOption.bind (fun p =>
        (runFile (lowerProgram {} p)).bind fun m => (m.propertiesAt "A" "B").map fun b =>
          (b "x", b "y")) =
      some (.undefined, .literal (.string "2")) := by
  decide +kernel

end TypeStrip.Namespaces
