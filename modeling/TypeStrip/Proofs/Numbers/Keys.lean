import TypeStrip.Proofs.Numbers.Integers
import TypeStrip.Syntax.Names

/-!
Integers as property keys. A key below `10^21` is written as an integer of 64 bits, the nearest one
where it is none itself; so two keys have one name exactly if they are equal, or if both lie beyond
the same end of the 64-bit integers.
-/
namespace TypeStrip

variable {x y : Float} {i j : Int}

def clamp64 (i : Int) : Int := max (-2 ^ 63) (min (2 ^ 63 - 1) i)

theorem clamp64_eq_iff :
    clamp64 i = clamp64 j ↔
      i = j ∨ (2 ^ 63 - 1 ≤ i ∧ 2 ^ 63 - 1 ≤ j) ∨ (i ≤ -2 ^ 63 ∧ j ≤ -2 ^ 63) := by
  unfold clamp64
  omega

theorem clamp64_eq_self (h : i.natAbs ≤ 2 ^ 53) : clamp64 i = i := by
  unfold clamp64
  omega

/-- The name of an integer key. -/
theorem Key.staticName?_integer (h : Number.IsInt x i) (hi : i.natAbs < 10 ^ 21) :
    (Key.number x).staticName? = some (toString (clamp64 i)) := by
  obtain ⟨htruncate, hinteger⟩ := h.truncate?_eq
  have hsmall : i.natAbs < Nat.pow 10 21 := hi
  show some (Number.keyText x) = _
  rw [Number.keyText, htruncate]
  simp only [hinteger, hsmall, decide_true, Bool.and_self, if_true]
  rfl

/-- Two integer keys below `10^21` have different names, unless they are equal or beyond the same end
of the 64-bit integers, and a key of at most `2^53` has its decimal text as name. -/
theorem Key.staticName?_integers (hx : Number.IsInt x i) (hy : Number.IsInt y j)
    (hi : i.natAbs < 10 ^ 21) (hj : j.natAbs < 10 ^ 21) :
    ((Key.number x).staticName? = (Key.number y).staticName? ↔
        i = j ∨ (2 ^ 63 - 1 ≤ i ∧ 2 ^ 63 - 1 ≤ j) ∨ (i ≤ -2 ^ 63 ∧ j ≤ -2 ^ 63)) ∧
      (i.natAbs ≤ 2 ^ 53 → (Key.number x).staticName? = some (toString i)) := by
  rw [staticName?_integer hx hi, staticName?_integer hy hj]
  refine ⟨?_, fun h => by rw [clamp64_eq_self h]⟩
  rw [← clamp64_eq_iff, Option.some.injEq]
  exact ⟨fun h => Int.repr_injective h, congrArg toString⟩

/-- Two different keys of one name. -/
example : (Key.number 1e19).staticName? = (Key.number 2e19).staticName? := by decide +kernel

end TypeStrip
