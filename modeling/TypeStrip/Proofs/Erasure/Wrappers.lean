import TypeStrip.Proofs.Erasure.Types
import TypeStrip.Proofs.Grammar.Levels

/-! The type-only wrappers around expressions leave no trace in the code of a module. -/
namespace TypeStrip
open Lowering Grammar

def Reduction.unwrapping : Reduction := { wrappers := true }

/-- A module with the wrapped expressions in place of the casts, `satisfies` expressions and
non-null assertions around them. -/
def Program.unwrapped (p : Program) : Program := p.reduce .unwrapping

/-- A module in which no wrapper hides the form of an expression that its lowering looks at: an
integer whose member is accessed, a call that is constructed, the first call of `super` in front of
the properties of parameters, or a value of an enum member that is known beforehand. -/
def Program.Unmasked (p : Program) : Prop :=
  ∀ i ∈ p.items, Site.Clear (Site.Unmasked .unwrapping) (.item i)

/-! ### Shorthands -/

theorem Property.IsSound.shorthand {r : Reduction} {k : Key} {v : Expr}
    (h : (Property.pair k v true).IsSound) :
    (v.reduce r).fallback? = v.fallback?.map (Expr.reduce r) ∧
      isVariableOf (k.reduce r) (v.reduce r) = isVariableOf k v := by
  cases v with
  | ident s n => cases k <;> exact ⟨rfl, rfl⟩
  | assign s a op b => cases k <;> exact ⟨rfl, rfl⟩
  | _ => cases k <;> cases h

namespace Site

theorem IsSound.plainShorthand {r : Reduction} {s : Site} (h : s.IsSound) : s.PlainShorthand r := by
  cases s with
  | expr e =>
    cases e with
    | object s ps => exact fun k v hm => (h _ hm).shorthand
    | _ => trivial
  | _ => trivial

/-- Sites that were read hide nothing if no wrapper does. -/
theorem Clear.kept {r : Reduction} {s : Site} (hc : Clear (Unmasked r) s) (hd : s.Deep) :
    Clear (Kept r) s := by
  induction hc with
  | @mk s here inside ih =>
    obtain ⟨hs, hd⟩ := deep_iff.1 hd
    have hlive : ∀ t ∈ s.live, t.Deep := forall_live hd fun _ a _ _ ha t ht =>
      (deep_iff.1 ha).2 t (mem_ofExprs_cons a ht)
    exact .mk ⟨here, hs.plainShorthand⟩ fun t ht => ih t ht (hlive t ht)

end Site

/-! ### Modules -/

/-- A site that holds and has one site inside it. -/
private theorem Site.Clear.around {P : Site → Prop} {s t : Site} (hs : P s) (hl : s.live = [t])
    (ht : Clear P t) : Clear P s :=
  .mk hs fun _ hu => List.mem_singleton.1 (hl ▸ hu) ▸ ht

end TypeStrip
