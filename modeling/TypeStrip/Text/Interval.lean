/-! Sets of code points written as ascending closed intervals. -/
namespace TypeStrip.Text

/-- Membership of `n` in a list of closed intervals in ascending order: the search stops at
the first interval that starts above `n`. -/
def within : List (Nat × Nat) → Nat → Bool
  | [], _ => false
  | (low, high) :: rest, n => if n < low then false else n ≤ high || within rest n

end TypeStrip.Text
