import TypeStrip.Grammar.Program
import TypeStrip.Proofs.Progress.Moves

/-! Every rule of the grammar passes a token when it gives a value. -/
namespace TypeStrip.Grammar
open TypeStrip.Token (Kind)

structure InnerConsumes (g : Inner) : Prop where
  assign : Consumes g.assign
  unary : Consumes g.unary
  stmt : Consumes g.stmt
  type : Consumes g.type

variable {g : Inner} {t : Tape} {α β : Type}

/-! ### Names, keys and patterns -/

theorem consumes_identifier : Consumes identifier := fun t => .first (consumes_expect _ t)

theorem consumes_anyName : Consumes anyName := fun _ =>
  .get (.ite (fun h => .first (.take (passable_of_atName h).2)) fun _ => .complainFound _)

theorem consumes_key : Consumes (key g) := by
  refine fun t => .get ?_
  split
  · exact .takeKind ‹_› (by decide)
  · exact .takeKind ‹_› (by decide)
  · exact .skipKind ‹_› (by decide)
  · exact .ite (fun _ => .first (consumes_anyName t)) fun _ => .complain _

theorem consumes_arrayPattern (pattern : Parser Pattern) : Consumes (arrayPattern g pattern) :=
  fun _ => .later fun _ t => Consumes.afterToken t

theorem consumes_objectPattern (pattern : Parser Pattern) : Consumes (objectPattern g pattern) :=
  fun _ => .later fun _ t => Consumes.afterToken t

theorem consumes_patternField (pattern : Parser Pattern) : Consumes (patternField g pattern) :=
  fun t => .first (consumes_key t)

theorem consumes_patternUpTo (fuel : Nat) : Consumes (patternUpTo g fuel) := by
  cases fuel with
  | zero => exact fun _ => .complain _
  | succ fuel =>
    refine fun t => .get ?_
    split
    · exact .first (consumes_identifier t)
    · exact consumes_arrayPattern _ t
    · exact consumes_objectPattern _ t
    · exact .complainFound _

theorem consumes_pattern : Consumes (pattern g) := fun t => .get (consumes_patternUpTo _ t)

/-! ### Types -/

theorem Cursor.kind_of_atIndexSignature {c : Cursor} (h : c.atIndexSignature = true) :
    c.current.kind ≠ .eof :=
  kind_of_at_ (Bool.and_eq_true_iff.1 (Bool.and_eq_true_iff.1 h).1).1

theorem consumes_typeArguments : Consumes (typeArguments g) := Consumes.afterToken

theorem consumes_typeParamPattern : Consumes (typeParamPattern g) := by
  refine fun t => .get ?_
  split
  · exact .first (consumes_pattern.discard t)
  · exact .first (consumes_pattern.discard t)
  · exact .ite (fun _ => .takeKind ‹_› (by decide)) fun _ => .complain _
  · exact .ite (fun _ => .takeKind ‹_› (by decide)) fun _ => .complain _
  · exact .complain _

theorem consumes_signature : Consumes (signature g) := fun _ => .later fun _ t => Consumes.afterToken t

theorem consumes_functionType (start : Span) : Consumes (functionType g start) := fun _ =>
  .later fun _ t => Consumes.afterToken t

theorem consumes_typeMember : Consumes (typeMember g) := by
  refine fun _ => .later fun _ t => .get (.when fun t => .get (.ite (fun h => ?_) fun _ => ?_))
  · exact .first (.skip (Cursor.kind_of_atIndexSignature h))
  · refine .get (.when fun t => .get (.ite (fun _ => ?_) fun _ => ?_))
    · exact .first (consumes_signature t)
    · exact .later fun _ t => .first (consumes_key t)

theorem consumes_typeMembers : Consumes (typeMembers g) := Consumes.afterToken

theorem consumes_mappedType : Consumes (mappedType g) := fun _ =>
  .later fun _ t => Consumes.afterToken t

theorem consumes_tupleElement (hg : InnerConsumes g) : Consumes (tupleElement g) := by
  have rest (t : Tape) : MovesAt t (fun _ => True) (do
      let t ← g.type
      discard <| accept .question
      return t) := .first (hg.type t)
  refine fun _ => .later fun _ t => .get (.ite (fun _ => ?_) fun _ => rest t)
  exact .later fun _ _ => .later fun _ _ => .later fun _ t => rest t

theorem consumes_typeReference : Consumes (typeReference g) := fun _ =>
  .later fun _ t => .first (consumes_identifier t)

theorem consumes_primaryType : Consumes (primaryType g) := by
  refine fun t => .get ?_
  dsimp only
  split
  · split
    · exact .ite (fun _ => consumes_typeReference t) fun _ => .skipKind ‹_› (by decide)
    · exact consumes_typeReference t
  · exact .skipKind ‹_› (by decide)
  · exact .skipKind ‹_› (by decide)
  · exact .skipKind ‹_› (by decide)
  · exact .skipKind ‹_› (by decide)
  · exact .skipKind ‹_› (by decide)
  · exact .skipKind ‹_› (by decide)
  · exact .skipKind ‹_› (by decide)
  · exact .skipKind ‹_› (by decide)
  · exact .skipKind ‹_› (by decide)
  · exact .skipKind ‹_› (by decide)
  · exact .ite (fun _ => .skipKind ‹_› (by decide)) fun _ => .complainFound _
  · exact .skipKind ‹_› (by decide)
  · exact .skipKind ‹_› (by decide)
  · refine .bind (Moves.attempt consumes_mappedType t) fun a? t h => ?_
    cases a? with
    | none => exact .first (consumes_typeMembers t)
    | some a => exact absurd rfl h
  · exact .complainFound _

theorem consumes_postfixType : Consumes (postfixType g) := fun _ =>
  .later fun _ t => .first (consumes_primaryType t)

theorem consumes_typeOperatorUpTo (fuel : Nat) : Consumes (typeOperatorUpTo g fuel) := by
  cases fuel with
  | zero => exact fun _ => .complain _
  | succ fuel =>
    refine fun _ => .later fun _ t => .get (.ite (fun h => ?_) fun _ => consumes_postfixType t)
    have hk := Cursor.kind_of_at_ (Bool.and_eq_true_iff.1 h).1
    split
    · exact .first (.skip hk)
    · exact .first (.skip hk)
    · exact .first (.skip hk)
    · exact .first (.skip hk)
    · exact consumes_postfixType t

theorem consumes_typeOperator : Consumes (typeOperator g) := fun t =>
  .get (consumes_typeOperatorUpTo _ t)

theorem Consumes.operatorChain {operator : Kind} {operand : Parser TypeExpr}
    (h : Consumes operand) (make : Span → List TypeExpr → TypeExpr) :
    Consumes (operatorChain operator operand make) := fun _ =>
  .later fun _ _ => .later fun _ t => .first (h t)

theorem consumes_unionType : Consumes (unionType g) :=
  (consumes_typeOperator.operatorChain _).operatorChain _

theorem consumes_typeBody : Consumes (typeBody g) := by
  refine fun _ => .later fun _ t => .get (.when fun t => ?_)
  refine .accept fun t => ?_
  refine .get (.ite (fun _ => consumes_functionType _ t) fun _ => ?_)
  refine .get (.ite (fun _ => ?_) fun _ => .first (consumes_unionType t))
  refine .bind (Moves.attempt (consumes_functionType _) t) fun a? t h => ?_
  cases a? with
  | none => exact .first (consumes_unionType t)
  | some a => exact absurd rfl h

/-! ### Parameters, blocks and functions -/

theorem moves_propertyWord : Moves (·.isSome) propertyWord := by
  refine fun t => .get (.ite (fun _ => .pure nofun) fun h => .first (.skip ?_))
  rw [Bool.not_eq_true', Bool.not_eq_false] at h
  exact Cursor.kind_of_at_ (Bool.and_eq_true_iff.1 (Bool.and_eq_true_iff.1 h).1).1

theorem consumes_param : Consumes (param g) := by
  refine fun _ => .later fun _ _ => .later fun _ t => .get (.ite (fun h => ?_) fun _ => ?_)
  · exact .first (.skip (Cursor.kind_of_at_ h))
  · exact .first (consumes_pattern t)

theorem consumes_params : Consumes (params g) := Consumes.afterToken

theorem consumes_block : Consumes (block g) := fun _ => .later fun _ t => Consumes.afterToken t

theorem consumes_function (isAsync isDeclare mayLackBody : Bool) :
    Consumes (function g isAsync isDeclare mayLackBody) := Consumes.afterToken

/-! ### Classes -/

theorem consumes_keyedMember (start : Span) (mods : Modifiers) : Consumes (keyedMember g start mods) :=
  fun _ => .later fun _ t => .first (consumes_key t)

theorem consumes_classMember (isDeclare : Bool) : Consumes (classMember g isDeclare) := by
  refine fun _ => .later fun _ _ => .later fun mods t => .get (.check ?_)
  refine .ite (fun h => ?_) fun _ => .ite (fun h => ?_) fun _ => consumes_keyedMember _ _ t
  · exact .first (.skip (Cursor.kind_of_atIndexSignature h))
  · exact .first (.skip (Cursor.kind_of_atWord (Bool.and_eq_true_iff.1 h).1))

theorem consumes_classRest (heritage : Parser Expr) (isAbstract isDeclare : Bool) :
    Consumes (classRest g heritage isAbstract isDeclare) := Consumes.afterToken

/-! ### Expressions -/

theorem consumes_expression (hg : InnerConsumes g) : Consumes (expression g) := fun t =>
  .first (hg.assign t)

theorem consumes_spreadable (hg : InnerConsumes g) : Consumes (spreadable g) := by
  refine fun _ => .later fun _ _ => .accept fun t => ?_
  exact hg.assign t

theorem consumes_arguments : Consumes (arguments g) := Consumes.afterToken

theorem consumes_keyedProperty : Consumes (keyedProperty g) := fun _ =>
  .later fun _ t => .first (consumes_key t)

theorem consumes_indexed : Consumes (indexed g) := Consumes.afterToken

theorem consumes_callTypeArguments : Consumes (callTypeArguments g) := fun t =>
  .first (consumes_typeArguments t)

theorem consumes_primary (heritage : Parser Expr) : Consumes (primary g heritage) := by
  refine fun t => .get ?_
  dsimp only
  split
  · exact .skipKind ‹_› (by decide)
  · exact .skipKind ‹_› (by decide)
  · exact .skipKind ‹_› (by decide)
  · exact .skipKind ‹_› (by decide)
  · exact .skipKind ‹_› (by decide)
  · exact .skipKind ‹_› (by decide)
  · exact .takeKind ‹_› (by decide)
  · exact .skipKind ‹_› (by decide)
  · exact .skipKind ‹_› (by decide)
  · exact .skipKind ‹_› (by decide)
  · exact .first (consumes_function _ _ _ t)
  · exact .first (consumes_classRest _ _ _ t)
  · exact .ite (fun _ => .skipKind ‹_› (by decide)) fun _ => .complainFound _
  · exact .first (Consumes.afterToken t)
  · exact .first (Consumes.afterToken t)
  · exact .first (Consumes.afterToken t)
  · exact .complain _
  · exact .complain _
  · exact .complainFound _

theorem moves_link (start : Span) (allowCall : Bool) (e : Expr) :
    Moves (·.isSome) (link g start allowCall e) := by
  refine fun t => .get ?_
  split
  · exact .skipKind ‹_› (by decide)
  · exact .skipKind ‹_› (by decide)
  · exact .first (consumes_indexed t)
  · exact .ite (fun _ => .pure nofun) fun _ => .first (consumes_arguments t)
  · refine .ite (fun _ => .pure nofun) fun _ => ?_
    refine .bind (Moves.attempt consumes_callTypeArguments t) fun a? t h => ?_
    cases a? with
    | none => exact .pure nofun
    | some a => exact absurd rfl h
  · exact .ite (fun _ => .pure nofun) fun _ => .skipKind ‹_› (by decide)
  · exact .complain _
  · exact .pure nofun

theorem consumes_newExpression (callee : Parser Expr) : Consumes (newExpression g callee) := fun _ =>
  .later fun _ t => Consumes.afterToken t

theorem consumes_leftHandSideUpTo (fuel : Nat) (allowCall : Bool) :
    Consumes (leftHandSideUpTo g fuel allowCall) := by
  cases fuel with
  | zero => exact fun _ => .complain _
  | succ fuel =>
    refine fun t => .get (.ite (fun _ => ?_) fun _ => ?_)
    · exact .first (consumes_newExpression _ t)
    · exact .first (consumes_primary _ t)

theorem consumes_leftHandSide : Consumes (leftHandSide g) := fun t =>
  .get (consumes_leftHandSideUpTo _ _ t)

theorem consumes_postfixExpr : Consumes (postfixExpr g) := fun t => .first (consumes_leftHandSide t)

theorem consumes_unaryBody : Consumes (unaryBody g) := by
  refine fun t => .get ?_
  dsimp only
  split
  · exact .first (.skip (passable_of_some ⟨rfl, rfl⟩ ‹_›).2)
  · refine .accept fun t => ?_
    refine .accept fun t => ?_
    exact consumes_postfixExpr t

theorem consumes_binaryUpTo (hg : InnerConsumes g) (fuel power : Nat) :
    Consumes (binaryUpTo g fuel power) := by
  cases fuel with
  | zero => exact fun _ => .complain _
  | succ fuel => exact fun t => .first (hg.unary t)

theorem consumes_conditional (hg : InnerConsumes g) : Consumes (conditional g) := fun t =>
  .get (.first (consumes_binaryUpTo hg _ _ t))

theorem consumes_arrowHead : Consumes (arrowHead g) := fun _ =>
  .later fun _ t => .first (consumes_params t)

theorem moves_arrow? : Moves (·.isSome) (arrow? g) := by
  refine fun t => .get (.ite (fun _ => ?_) fun _ => .ite (fun _ => .pure nofun) fun _ => ?_)
  · exact .when fun t => .first (consumes_identifier t)
  · have hhead (b : Bool) : Consumes (do
        if b then skip
        arrowHead g) := fun t => .when fun t => consumes_arrowHead t
    refine .bind (Moves.attempt (hhead _) t) fun a? t h => ?_
    cases a? with
    | none => exact .pure nofun
    | some a => exact absurd rfl h

theorem consumes_yieldExpression : Consumes (yieldExpression g) := fun _ =>
  .later fun _ t => Consumes.afterToken t

theorem consumes_assignBody (hg : InnerConsumes g) : Consumes (assignBody g) := by
  refine fun t => .bind (moves_arrow? t) fun a? t h => ?_
  cases a? with
  | some a => exact absurd rfl h
  | none =>
    exact .get (.ite (fun _ => consumes_yieldExpression t) fun _ =>
      .first (consumes_conditional hg t))

/-! ### Declarations -/

theorem consumes_declarators : Consumes (declarators g) := by
  refine fun t => .get ?_
  split
  · exact .first (.skip (passable_of_some ⟨rfl, rfl⟩ ‹_›).2)
  · exact .complain _

theorem consumes_varDeclaration (isDeclare : Bool) : Consumes (varDeclaration g isDeclare) := fun t =>
  .first (consumes_declarators t)

theorem consumes_interfaceRest : Consumes (interfaceRest g) := fun t =>
  .first (consumes_expectWord _ t)

theorem consumes_aliasRest : Consumes (aliasRest g) := fun t => .first (consumes_expectWord _ t)

theorem consumes_enumMember : Consumes (enumMember g) := by
  refine fun _ => .later fun _ t => .get (.ite (fun h => ?_) fun _ => .ite (fun _ => ?_) fun _ => ?_)
  · exact .first (.take (Cursor.kind_of_at_ h))
  · exact .first (consumes_anyName.map t)
  · exact .first (.complain _)

theorem consumes_enumRest (isConst isDeclare : Bool) : Consumes (enumRest g isConst isDeclare) :=
  Consumes.afterToken

theorem consumes_globalRest (item : Parser Item) : Consumes (globalRest item) := fun t =>
  .first (consumes_identifier t)

theorem consumes_declarationBody (item : Parser Item) (isDeclare : Bool) :
    Consumes (declarationBody g item isDeclare) := by
  have word {word : String} {t : Tape} (hk : t.current.kind = .identifier) :
      MovesAt t (fun _ => True) (wordDeclaration g item isDeclare word) := by
    unfold wordDeclaration
    split
    · exact .skipKind hk (by decide)
    · exact .skipKind hk (by decide)
    · exact consumes_interfaceRest t
    · exact consumes_aliasRest t
    · exact .skipKind hk (by decide)
    · exact .skipKind hk (by decide)
    · exact consumes_globalRest item t
    · exact .complain _
  refine fun t => .get ?_
  split
  · exact .first (consumes_function _ _ _ t)
  · exact .first (consumes_classRest _ _ _ t)
  · exact consumes_enumRest _ _ t
  · exact .ite (fun _ => .skipKind ‹_› (by decide)) fun _ => .complainFound _
  · exact word ‹_›
  · exact .complainFound _

theorem consumes_declaration (item : Parser Item) : Consumes (declaration g item) := by
  refine fun _ => .acceptWord fun t => ?_
  exact consumes_declarationBody item false t

/-! ### Items -/

theorem consumes_exportName : Consumes exportName := fun t =>
  .get (.ite (fun h => .first (.take (Cursor.kind_of_at_ h))) fun _ => consumes_anyName t)

theorem consumes_namedImport : Consumes namedImport := fun _ =>
  .later fun _ t => .first (consumes_exportName t)

theorem consumes_exportSpecifier : Consumes exportSpecifier := fun _ =>
  .later fun _ t => .first (consumes_exportName t)

theorem consumes_importDecl : Consumes (importDecl g) := Consumes.afterToken

theorem consumes_exportItem (item : Parser Item) : Consumes (exportItem g item) := fun _ =>
  .later fun _ t => Consumes.afterToken t

theorem consumes_itemUpTo (hg : InnerConsumes g) (fuel : Nat) : Consumes (itemUpTo g fuel) := by
  cases fuel with
  | zero => exact fun _ => .complain _
  | succ fuel =>
    refine fun t => .get (.ite (fun _ => .first (consumes_importDecl t)) fun _ => ?_)
    exact .ite (fun _ => consumes_exportItem _ t) fun _ => .first (hg.stmt t)

theorem consumes_item (hg : InnerConsumes g) : Consumes (item g) := fun t =>
  .get (consumes_itemUpTo hg _ t)

/-! ### Statements -/

theorem consumes_switchCase (hasDefault : Bool) : Consumes (switchCase g hasDefault) := by
  refine fun t => .get (.ite (fun h => ?_) fun _ => .ite (fun h => ?_) fun _ => ?_)
  · exact .first (.skip (Cursor.kind_of_at_ h))
  · exact .check (.first (.skip (Cursor.kind_of_at_ h)))
  · exact .first (.complain _)

theorem consumes_otherStatement (hg : InnerConsumes g) (start : Span) :
    Consumes (otherStatement g start) := by
  refine fun t => .get (.ite (fun _ => ?_) fun _ => .ite (fun _ => ?_) fun _ => ?_)
  · exact .first (consumes_declaration _ t)
  · exact .first (consumes_identifier t)
  · exact .first (consumes_expression hg t)

theorem consumes_stmtBody (hg : InnerConsumes g) : Consumes (stmtBody g) := by
  refine fun t => .get ?_
  dsimp only
  split
  · exact .first (consumes_block t)
  · exact .skipKind ‹_› (by decide)
  · exact .first (consumes_varDeclaration _ t)
  · exact .first (consumes_varDeclaration _ t)
  · exact .ite (fun _ => consumes_otherStatement hg _ t) fun _ => .first (consumes_varDeclaration _ t)
  · exact Consumes.afterToken t
  · exact Consumes.afterToken t
  · exact Consumes.afterToken t
  · exact Consumes.afterToken t
  · exact Consumes.afterToken t
  · exact .skipKind ‹_› (by decide)
  · exact .skipKind ‹_› (by decide)
  · exact Consumes.afterToken t
  · exact Consumes.afterToken t
  · exact Consumes.afterToken t
  · exact .skipKind ‹_› (by decide)
  · exact .complain _
  · exact .ite (fun _ => .first (consumes_importDecl t)) fun _ => consumes_otherStatement hg _ t
  · exact .complain _
  · exact consumes_otherStatement hg _ t

/-! ### Levels -/

theorem innerConsumes_outward (hg : InnerConsumes g) : InnerConsumes g.outward where
  assign := (consumes_assignBody hg).nested
  unary := consumes_unaryBody.nested
  stmt := (consumes_stmtBody hg).nested
  type := consumes_typeBody.nested

/-- Every level of the grammar passes a token with every value, by induction on the number of
levels. -/
theorem innerConsumes_levels (substitution : List Token → Except ParseError Expr) (n : Nat) :
    InnerConsumes (levels substitution n) := by
  induction n with
  | zero => exact ⟨fun _ => .complain _, fun _ => .complain _, fun _ => .complain _, fun _ => .complain _⟩
  | succ n ih => exact innerConsumes_outward ih

end TypeStrip.Grammar
