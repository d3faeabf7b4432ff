/-!
# Code point ranges

A property of characters is a list of ranges of code points, in ascending order. A property with
many ranges is written as the lengths of its runs: from code point zero on, they are by turns runs
of characters without the property and with it.
-/

namespace Redline

/-- Membership in an ascending list of closed ranges. -/
def inRanges : List (Nat × Nat) → Nat → Bool
  | [], _ => false
  | (lo, hi) :: rest, n =>
    if n < lo then false
    else if n ≤ hi then true
    else inRanges rest n

/-- Membership by the lengths of runs, by turns outside and inside. -/
def inRuns : List Nat → Nat → Bool
  | outside :: inside :: rest, n =>
    if n < outside then false
    else if n < outside + inside then true
    else inRuns rest (n - (outside + inside))
  | _, _ => false

end Redline
