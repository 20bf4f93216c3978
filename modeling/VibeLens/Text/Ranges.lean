set_option autoImplicit false

/-!
Membership in an increasing table of closed ranges of code points.
-/

namespace VibeLens.Text

/-- The table is increasing, so the search stops at the first range that starts above `n`. -/
def inRanges : List (Nat × Nat) → Nat → Bool
  | [], _ => false
  | (lo, hi) :: rest, n => if n < lo then false else if n ≤ hi then true else inRanges rest n

end VibeLens.Text
