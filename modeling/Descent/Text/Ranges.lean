/-! Sets of code points as closed ranges in increasing order. -/
namespace Descent.Text

/-- Membership in a list of ranges; the search stops at the first range that begins past `n`. -/
def covers : List (Nat × Nat) → Nat → Bool
  | [], _ => false
  | (low, high) :: rest, n =>
    if n < low then false else if n ≤ high then true else covers rest n

end Descent.Text
