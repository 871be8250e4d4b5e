import TypeStrip.Lowering.Shape
import TypeStrip.Proofs.Erasure.Sites

/-!
Where the lowering looks at the form of an expression and not only at what it is lowered to. A
type-only wrapper may hide that form there, and everywhere else it makes no difference.
-/
namespace TypeStrip
open Lowering

def Expr.isCall : Expr → Bool
  | .call .. | .optionalCall .. => true
  | _ => false

/-- The target of an assignment, if the expression is one, is no value of a shorthand. -/
def Expr.fallback? : Expr → Option Expr
  | .assign _ _ _ fallback => some fallback
  | _ => none

namespace Lowering

def MemberScope.afterConstant (scope : MemberScope) (key : String) :
    Option Constant → MemberScope
  | some value => scope.after key (.known value)
  | none => ⟨scope.known, none, some key⟩

def SameConstants (r : Reduction) (scope : MemberScope) : List Member → Prop
  | .field _ k _ init _ :: ms =>
    scope.constant? (init.map (Expr.reduce r)) = scope.constant? init ∧
      SameConstants r (scope.afterConstant (k.staticName?.getD "") (scope.constant? init)) ms
  | _ => True

/-- A constructor that declares properties calls that of the extended class at the same place
when parts are left out. -/
def SameSuperCall (r : Reduction) : Member → Prop
  | .constructor _ (.mk _ _ params _ (.block _ stmts) _ _ _) =>
    params.any Param.isProperty = true →
      (stmts.map (Stmt.reduce r)).findIdx? isSuperCall = stmts.findIdx? isSuperCall
  | _ => True

end Lowering

namespace Site
variable (r : Reduction)

/-- The form of a site that its lowering looks at is the same when parts are left out. -/
def Unmasked : Site → Prop
  | .expr (.member _ a _) | .expr (.optionalMember _ a _) | .expr (.index _ a _)
  | .expr (.optionalIndex _ a _) => swallowsDot (a.reduce r) = swallowsDot a
  | .expr (.new _ f _ _) => (f.reduce r).isCall = f.isCall
  | .cls (.mk _ _ (some _) _ _ ms _ _) => ∀ m ∈ ms, SameSuperCall r m
  | .decl (.enumeration _ ms _ _) => SameConstants r {} ms
  | _ => True

def PlainShorthand : Site → Prop
  | .expr (.object _ ps) => ∀ k v, .pair k v true ∈ ps →
    (v.reduce r).fallback? = v.fallback?.map (Expr.reduce r) ∧
      isVariableOf (k.reduce r) (v.reduce r) = isVariableOf k v
  | _ => True

/-! ### Sites that are lowered -/

/-- The sites of a property that are lowered. Of the value of a shorthand that is an assignment, the
target is not. -/
def liveProperty : Property → List Site
  | .pair k v true => .key k :: ofExprs [v.fallback?.getD v]
  | p => ofProperty p

def liveMember : Member → List Site
  | .constructor _ (.mk name tps ps ret (.block s stmts) isAsync isGenerator isDeclare) =>
    [.function (.mk name tps ps ret (.block s stmts) isAsync isGenerator isDeclare)]
  | .method _ k _ f _ => if f.body.isPresent then [.key k, .function f] else []
  | .field _ k _ (some e) m => if m.isAbstract || m.isDeclare then [] else .key k :: ofExprs [e]
  | _ => []

def liveEnumMembers : List Member → List Site
  | .field _ _ _ init _ :: ms => ofExpr? init ++ liveEnumMembers ms
  | _ => []

def liveNamespace : Namespace → List Site
  | .block (.ident _) items isDeclare =>
    if isDeclare || !anyRuntimeContent items then [] else items.map .item
  | .dotted (.ident _) _ inner isDeclare =>
    if isDeclare || !inner.hasRuntimeContent then [] else liveNamespace inner
  | _ => []

def live : Site → List Site
  | .decl (.namespace_ n) => liveNamespace n
  | .decl (.enumeration _ ms _ isDeclare) => if isDeclare then [] else liveEnumMembers ms
  | .decl d => if d.isTypeOnly then [] else ofDeclParts d
  | .cls (.mk _ _ base _ _ members _ _) => ofExpr? base ++ members.flatMap liveMember
  | .expr (.object _ ps) => ps.flatMap liveProperty
  | s => s.children

inductive Clear (P : Site → Prop) : Site → Prop
  | mk {s : Site} (here : P s) (inside : ∀ t ∈ s.live, Clear P t) : Clear P s

end Site
end TypeStrip
