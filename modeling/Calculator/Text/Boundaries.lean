/-!
# Calculator.Text.Boundaries

Sets of code points given by their boundaries: the ascending list of the points at which
membership changes, beginning outside the set. A point belongs to the set exactly when an odd
number of boundaries lie at or below it.
-/

namespace Calculator
namespace Boundaries

/-- The number of entries of an ascending array that are at most `n`, by bisection between `lo`
and `hi`; `fuel` halvings are enough once `2 ^ fuel` exceeds the width. -/
def countUpTo (bounds : Array Nat) (n : Nat) : Nat → Nat → Nat → Nat
  | 0, lo, _ => lo
  | fuel + 1, lo, hi =>
    if lo < hi then
      let middle := (lo + hi) / 2
      match bounds[middle]? with
      | none => countUpTo bounds n fuel lo middle
      | some b =>
        if b ≤ n then countUpTo bounds n fuel (middle + 1) hi
        else countUpTo bounds n fuel lo middle
    else lo

/-- Membership in the set that the boundaries describe. -/
def contains (bounds : Array Nat) (n : Nat) : Bool :=
  countUpTo bounds n (bounds.size.log2 + 1) 0 bounds.size % 2 == 1

end Boundaries
end Calculator
