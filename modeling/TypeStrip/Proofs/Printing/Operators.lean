import TypeStrip.Lowering.Module
import TypeStrip.Proofs.Lexing.Words

/-!
Operator expressions: literals and names joined by operators, accesses to members and calls. Their
lowering neither depends on the target nor makes temporaries.
-/
namespace TypeStrip

structure Number.ReadsBack (x : Float) : Prop where
  finite : ∃ m q, Number.decode x = .finite false m q
  parse : Number.parse? (Number.text x) = some x

def Expr.isPlace : Expr → Bool
  | .ident .. | .member .. | .index .. => true
  | _ => false

/-- Operator expressions of at most the given height; a literal or name alone has height zero. An
array may have holes. The comparison `<` is left out, for it could open type arguments. -/
inductive Expr.OperatorForm : Nat → Expr → Prop where
  | number {n : Nat} {s : Span} {x : Float} (h : Number.ReadsBack x) :
    OperatorForm n (.literal s (.number x))
  | string {n : Nat} {s : Span} (value : String) : OperatorForm n (.literal s (.string value))
  | boolean {n : Nat} {s : Span} (value : Bool) : OperatorForm n (.literal s (.boolean value))
  | null {n : Nat} {s : Span} : OperatorForm n (.literal s .null)
  | ident {n : Nat} {s : Span} {name : String} (h : Token.IsIdentifier name) :
    OperatorForm n (.ident s name)
  | this {n : Nat} {s : Span} : OperatorForm n (.this s)
  | binary {n : Nat} {s : Span} {a b : Expr} {op : BinaryOp} (hop : op ≠ .lt)
    (ha : OperatorForm n a) (hb : OperatorForm n b) : OperatorForm (n + 1) (.binary s a op b)
  | unary {n : Nat} {s : Span} {op : UnaryOp} {a : Expr}
    (hop : op.isUpdate = true → a.isPlace = true) (ha : OperatorForm n a) :
    OperatorForm (n + 1) (.unary s op a)
  | await {n : Nat} {s : Span} {a : Expr} (ha : OperatorForm n a) : OperatorForm (n + 1) (.await s a)
  | assign {n : Nat} {s : Span} {a b : Expr} {op : AssignOp} (hplace : a.isPlace = true)
    (ha : OperatorForm n a) (hb : OperatorForm n b) : OperatorForm (n + 1) (.assign s a op b)
  | conditional {n : Nat} {s : Span} {a b c : Expr} (ha : OperatorForm n a) (hb : OperatorForm n b)
    (hc : OperatorForm n c) : OperatorForm (n + 1) (.conditional s a b c)
  | member {n : Nat} {s : Span} {a : Expr} {name : Name} (hname : Text.isWord name.text = true)
    (ha : OperatorForm n a) : OperatorForm (n + 1) (.member s a name)
  | optionalMember {n : Nat} {s : Span} {a : Expr} {name : Name}
    (hname : Text.isWord name.text = true) (ha : OperatorForm n a) :
    OperatorForm (n + 1) (.optionalMember s a name)
  | index {n : Nat} {s : Span} {a i : Expr} (ha : OperatorForm n a) (hi : OperatorForm n i) :
    OperatorForm (n + 1) (.index s a i)
  | optionalIndex {n : Nat} {s : Span} {a i : Expr} (ha : OperatorForm n a)
    (hi : OperatorForm n i) : OperatorForm (n + 1) (.optionalIndex s a i)
  | call {n : Nat} {s : Span} {f : Expr} {args : List Expr} (hf : OperatorForm n f)
    (hargs : ∀ e ∈ args, OperatorForm n e) : OperatorForm (n + 1) (.call s f [] args)
  | optionalCall {n : Nat} {s : Span} {f : Expr} {args : List Expr} (hf : OperatorForm n f)
    (hargs : ∀ e ∈ args, OperatorForm n e) : OperatorForm (n + 1) (.optionalCall s f [] args)
  | array {n : Nat} {s : Span} {es : List Expr}
    (hes : ∀ e ∈ es, e ≠ .omitted → OperatorForm n e) : OperatorForm (n + 1) (.array s es)
  | sequence {n : Nat} {s : Span} {es : List Expr} (htwo : 2 ≤ es.length)
    (hes : ∀ e ∈ es, OperatorForm n e) : OperatorForm (n + 1) (.sequence s es)

mutual

/-- An expression without its parentheses and without the places in the source. Functions, classes
and objects, which no operator expression contains, are left as they are. -/
def Expr.bare : Expr → Expr
  | .literal _ value => .literal default value
  | .ident _ name => .ident default name
  | .this _ => .this default
  | .super _ => .super default
  | .binary _ a op b => .binary default a.bare op b.bare
  | .unary _ op a => .unary default op a.bare
  | .assign _ a op b => .assign default a.bare op b.bare
  | .call _ f typeArgs args => .call default f.bare typeArgs (Expr.bareAll args)
  | .optionalCall _ f typeArgs args => .optionalCall default f.bare typeArgs (Expr.bareAll args)
  | .new _ f typeArgs args => .new default f.bare typeArgs (Expr.bareAll args)
  | .member _ a name => .member default a.bare ⟨default, name.text⟩
  | .optionalMember _ a name => .optionalMember default a.bare ⟨default, name.text⟩
  | .index _ a i => .index default a.bare i.bare
  | .optionalIndex _ a i => .optionalIndex default a.bare i.bare
  | .array _ es => .array default (Expr.bareAll es)
  | .conditional _ a b c => .conditional default a.bare b.bare c.bare
  | .await _ a => .await default a.bare
  | .paren _ a => a.bare
  | .sequence _ es => .sequence default (Expr.bareAll es)
  | .spread _ a => .spread default a.bare
  | e => e

def Expr.bareAll : List Expr → List Expr
  | [] => []
  | e :: es => e.bare :: Expr.bareAll es

end

theorem Expr.bare_paren (s : Span) (a : Expr) : (paren s a).bare = a.bare := by rw [Expr.bare]

mutual

def Expr.code : Expr → Code.Expr
  | .literal _ value => .literal value
  | .ident _ name => .ident name
  | .this _ => .this
  | .binary _ a op b => .binary a.code op b.code
  | .unary _ op a => .unary op a.code
  | .assign _ a op b => .assign a.code op b.code
  | .call _ f _ args => .call f.code (Expr.codes args)
  | .optionalCall _ f _ args => .optionalCall f.code (Expr.codes args)
  | .member _ a name => .member (Lowering.accessed a a.code) name.text
  | .optionalMember _ a name => .optionalMember (Lowering.accessed a a.code) name.text
  | .index _ a i => .index (Lowering.accessed a a.code) i.code
  | .optionalIndex _ a i => .optionalIndex (Lowering.accessed a a.code) i.code
  | .array _ es => .array (Expr.codes es)
  | .conditional _ a b c => .conditional a.code b.code c.code
  | .await _ a => .await a.code
  | .sequence _ es => .sequence (Expr.codes es)
  | _ => .omitted

def Expr.codes : List Expr → List Code.Expr
  | [] => []
  | e :: es => e.code :: Expr.codes es

end

namespace Lowering

variable {ctx : Context} {n : Nat}

theorem lowerExprs_eq_codes {es : List Expr} (h : ∀ e ∈ es, lowerExpr ctx e = pure e.code) :
    lowerExprs ctx es = pure (Expr.codes es) := by
  induction es with
  | nil => rfl
  | cons e es ih =>
    obtain ⟨he, hes⟩ := List.forall_mem_cons.1 h
    rw [lowerExprs, he, ih hes, Expr.codes]
    rfl

/-- An operator expression is lowered on its own, whatever the target. -/
theorem lowerExpr_eq_code {e : Expr} (h : e.OperatorForm n) : lowerExpr ctx e = pure e.code := by
  induction h with
  | number | string | boolean | null | ident | this => rw [lowerExpr, Expr.code]
  | binary _ _ _ iha ihb => simp only [lowerExpr, Expr.code, iha, ihb, pure_bind]
  | unary _ _ iha => simp only [lowerExpr, Expr.code, iha, pure_bind]
  | await _ iha => simp only [lowerExpr, Expr.code, iha, pure_bind]
  | assign _ _ _ iha ihb => simp only [lowerExpr, Expr.code, iha, ihb, pure_bind]
  | conditional _ _ _ iha ihb ihc => simp only [lowerExpr, Expr.code, iha, ihb, ihc, pure_bind]
  | member _ _ iha => simp only [lowerExpr, Expr.code, iha, pure_bind]
  | optionalMember _ _ iha => simp only [lowerExpr, Expr.code, iha, pure_bind]
  | index _ _ iha ihi => simp only [lowerExpr, Expr.code, iha, ihi, pure_bind]
  | optionalIndex _ _ iha ihi => simp only [lowerExpr, Expr.code, iha, ihi, pure_bind]
  | call _ _ ihf ihargs =>
    simp only [lowerExpr, Expr.code, ihf, lowerExprs_eq_codes ihargs, pure_bind]
  | optionalCall _ _ ihf ihargs =>
    simp only [lowerExpr, Expr.code, ihf, lowerExprs_eq_codes ihargs, pure_bind]
  | @array _ _ es _ ihes =>
    have hall : ∀ e ∈ es, lowerExpr ctx e = pure e.code := fun e he => by
      by_cases ho : e = .omitted
      · subst ho
        rfl
      · exact ihes e he ho
    simp only [lowerExpr, Expr.code, lowerExprs_eq_codes hall, pure_bind]
  | sequence _ _ ihes => simp only [lowerExpr, Expr.code, lowerExprs_eq_codes ihes, pure_bind]

end Lowering

end TypeStrip
