import TypeStrip.Proofs.Progress.Rules

/-!
The loops of the grammar. Every round of a loop passes a token, so a loop ends by itself and never
because its rounds are counted.
-/
namespace TypeStrip.Grammar
open TypeStrip.Token (Kind)

/-- The rounds of the loops in the grammar: the parsers that it runs again and again, each as long as
it gives something. -/
inductive Round (g : Inner) : {α : Type} → Parser (Option α) → Prop where
  | arrayElements (fuel : Nat) : Round g (arrayElement g (patternUpTo g fuel))
  | objectFields (fuel : Nat) : Round g (objectField g (patternUpTo g fuel))
  | typeArguments : Round g (after .comma g.type)
  | variance : Round g varianceWord
  | typeParams : Round g (untilStep .gt (withComma .gt (typeParam g)))
  | signatureParams : Round g (untilStep .rParen (withComma .rParen (signatureParam g)))
  | typeMembers : Round g (untilStep .rBrace (listedMember g))
  | qualifiers : Round g (after .dot anyName)
  | tupleElements : Round g (untilStep .rBracket (withComma .rBracket (tupleElement g)))
  | brackets (start : Span) (t : TypeExpr) : Round g (bracketedType g start t)
  | intersection : Round g (after .amp (typeOperator g))
  | union : Round g (after .pipe (operatorChain .amp (typeOperator g) .intersection))
  | propertyWords : Round g propertyWord
  | params : Round g (untilStep .rParen (withComma .rParen (param g)))
  | statements : Round g (untilStep .rBrace g.stmt)
  | modifiers (m : Modifiers) : Round g (withModifier m)
  | classMembers (isDeclare : Bool) : Round g (untilStep .rBrace (bodyMember g isDeclare))
  | sequence : Round g (after .comma g.assign)
  | arguments : Round g (untilStep .rParen (withComma .rParen (spreadable g)))
  | elements : Round g (untilStep .rBracket (literalElement g))
  | properties : Round g (untilStep .rBrace (withComma .rBrace (property g)))
  | links (start : Span) (allowCall : Bool) (e : Expr) : Round g (link g start allowCall e)
  | operators (fuel power : Nat) (left : Expr) :
    Round g (binaryStep g (binaryUpTo g fuel) power left)
  | declarators : Round g (after .comma (declarator g))
  | enumMembers : Round g (untilStep .rBrace (withComma .rBrace (enumMember g)))
  | namespaceItems : Round g (untilStep .rBrace (item g))
  | exportedItems (fuel : Nat) : Round g (untilStep .rBrace (itemUpTo g fuel))
  | importNames : Round g (untilStep .rBrace (withComma .rBrace namedImport))
  | exportNames : Round g (untilStep .rBrace (withComma .rBrace exportSpecifier))
  | clauseStatements : Round g (clauseStmt g)
  | clauses (found : List Case) : Round g (withCase g found)

variable {g : Inner} {t t' : Tape} {α : Type} {p : Parser α} {closer : Kind}

/-! ### Rounds of lists -/

theorem Consumes.untilStep (hp : Consumes p) : Moves (·.isSome) (untilStep closer p) := fun t =>
  .get (.ite (fun _ => .pure nofun) fun _ => .first (hp t))

theorem Consumes.withComma (hp : Consumes p) : Consumes (withComma closer p) := fun t => .first (hp t)

theorem Consumes.listed (hp : Consumes p) :
    Moves (·.isSome) (Grammar.untilStep closer (Grammar.withComma closer p)) :=
  hp.withComma.untilStep

/-! ### Rounds with bodies of their own -/

theorem moves_arrayElement {pattern : Parser Pattern} (hp : Consumes pattern) :
    Moves (·.isSome) (arrayElement g pattern) := by
  refine fun t => .get (.ite (fun _ => .pure nofun) fun _ => ?_)
  refine .accept fun t => ?_
  exact .first (hp t)

theorem moves_objectField (pattern : Parser Pattern) : Moves (·.isSome) (objectField g pattern) :=
  fun t => .get (.ite (fun _ => .pure nofun) fun _ => .first (consumes_patternField pattern t))

theorem moves_varianceWord : Moves (·.isSome) varianceWord := by
  refine fun t => .get (.ite (fun h => ?_) fun _ => .pure nofun)
  have hat := (Bool.and_eq_true_iff.1 h).1
  rw [Bool.or_eq_true, Bool.or_eq_true] at hat
  obtain (hconst | hin) | hout := hat
  · exact .first (.skip (Cursor.kind_of_at_ hconst))
  · exact .first (.skip (Cursor.kind_of_at_ hin))
  · exact .first (.skip (Cursor.kind_of_atWord hout))

theorem consumes_typeParam : Consumes (typeParam g) := fun _ =>
  .later fun _ t => .first (consumes_identifier t)

theorem consumes_signatureParam : Consumes (signatureParam g) := fun _ =>
  .later fun _ t => .first (consumes_typeParamPattern t)

theorem consumes_listedMember : Consumes (listedMember g) := fun t => .first (consumes_typeMember t)

theorem moves_bracketedType (start : Span) (u : TypeExpr) :
    Moves (·.isSome) (bracketedType g start u) := by
  refine fun t => .get (.ite (fun _ => .pure nofun) fun h => .first (.skip ?_))
  rw [Bool.not_eq_true, Bool.or_eq_false_iff, Bool.not_eq_false'] at h
  exact Cursor.kind_of_at_ h.1

theorem moves_withModifier (m : Modifiers) : Moves (·.isSome) (withModifier m) := by
  refine fun t => .get (.ite (fun h => ?_) fun _ => .pure nofun)
  have hword : t.cursor.at_ .identifier = true := by
    simp only [Cursor.atMemberWord, Bool.and_eq_true] at h
    exact h.1.1.1
  exact .first (.take (Cursor.kind_of_at_ hword))

theorem consumes_bodyMember (isDeclare : Bool) : Consumes (bodyMember g isDeclare) := by
  refine fun _ => .accept fun t => ?_
  exact .first ((consumes_classMember isDeclare).withIn true t)

theorem consumes_literalElement (hg : InnerConsumes g) : Consumes (literalElement g) := by
  refine fun _ => .accept fun t => ?_
  exact (consumes_spreadable hg).withComma t

theorem consumes_property : Consumes (property g) := by
  refine fun _ => .accept fun t => ?_
  exact consumes_keyedProperty t

/-- The mark of the end is no operator. -/
theorem ne_eof_of_bindingPower {c : Cursor} {allowIn : Bool} (h : bindingPower c allowIn ≠ 0) :
    c.current.kind ≠ .eof := by
  intro he
  rw [bindingPower, he] at h
  exact h rfl

theorem moves_binaryStep (operand : Nat → Parser Expr) (power : Nat) (left : Expr) :
    Moves (·.isSome) (binaryStep g operand power left) := by
  refine fun t => .get <| .inAllowed <| .ite (fun _ => .pure nofun) fun h => ?_
  have hk : t.current.kind ≠ .eof := by
    rw [Bool.or_eq_true, decide_eq_true_eq, not_or] at h
    exact ne_eof_of_bindingPower h.1
  refine .ite (fun _ => .first (.skip hk)) fun _ => ?_
  split
  · exact .complain _
  · exact .first (.skip hk)

theorem moves_clauseStmt (hg : InnerConsumes g) : Moves (·.isSome) (clauseStmt g) := fun t =>
  .get (.ite (fun _ => .pure nofun) fun _ => .first (hg.stmt t))

theorem moves_withCase (found : List Case) : Moves (·.isSome) (withCase g found) := fun t =>
  .get (.ite (fun _ => .pure nofun) fun _ => .first (consumes_switchCase _ t))

/-! ### All rounds -/

/-- Every round of a loop passes a token if the loop goes on. -/
theorem moves_round (hg : InnerConsumes g) {step : Parser (Option α)} (h : Round g step) :
    Moves (·.isSome) step := by
  cases h with
  | arrayElements fuel => exact moves_arrayElement (consumes_patternUpTo fuel)
  | objectFields fuel => exact moves_objectField _
  | typeArguments => exact moves_after _ _
  | variance => exact moves_varianceWord
  | typeParams => exact consumes_typeParam.listed
  | signatureParams => exact consumes_signatureParam.listed
  | typeMembers => exact consumes_listedMember.untilStep
  | qualifiers => exact moves_after _ _
  | tupleElements => exact (consumes_tupleElement hg).listed
  | brackets start u => exact moves_bracketedType start u
  | intersection => exact moves_after _ _
  | union => exact moves_after _ _
  | propertyWords => exact moves_propertyWord
  | params => exact consumes_param.listed
  | statements => exact hg.stmt.untilStep
  | modifiers m => exact moves_withModifier m
  | classMembers isDeclare => exact (consumes_bodyMember isDeclare).untilStep
  | sequence => exact moves_after _ _
  | arguments => exact (consumes_spreadable hg).listed
  | elements => exact (consumes_literalElement hg).untilStep
  | properties => exact consumes_property.listed
  | links start allowCall e => exact moves_link start allowCall e
  | operators fuel power left => exact moves_binaryStep _ power left
  | declarators => exact moves_after _ _
  | enumMembers => exact consumes_enumMember.listed
  | namespaceItems => exact (consumes_item hg).untilStep
  | exportedItems fuel => exact (consumes_itemUpTo hg fuel).untilStep
  | importNames => exact consumes_namedImport.listed
  | exportNames => exact consumes_exportSpecifier.listed
  | clauseStatements => exact moves_clauseStmt hg
  | clauses found => exact moves_withCase found

end TypeStrip.Grammar
