/-
Sets of code points as flip tables.

A property of characters holds on long runs of code points.  A flip table lists, in
increasing order, the code points at which the property changes, starting from `false` at
zero.  A code point has the property when an odd number of flips lie at or below it.
-/
import SourceView.Bisect

namespace SourceView.Text

/-- A set of code points, by the sorted code points at which membership changes. -/
structure FlipTable where
  flips : Array Nat

/-- Whether `code` is in the set. -/
def FlipTable.contains (t : FlipTable) (code : Nat) : Bool :=
  bisect t.flips code % 2 == 1

end SourceView.Text
