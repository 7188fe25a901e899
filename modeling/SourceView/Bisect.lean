/-
Counting by binary search.

In an array whose entries increase, the entries at or below a bound come first, so a binary
search finds how many there are.
-/

namespace SourceView

/-- Narrows `[lo, hi)` to the number of entries at or below `bound`.  Entries before `lo`
are at or below it, entries from `hi` on are above it; `fuel` bounds the halvings. -/
def bisectIn (xs : Array Nat) (bound : Nat) : (fuel lo hi : Nat) → Nat
  | 0, lo, _ => lo
  | fuel + 1, lo, hi =>
    if lo < hi then
      let mid := (lo + hi) / 2
      if xs.getD mid 0 ≤ bound then bisectIn xs bound fuel (mid + 1) hi
      else bisectIn xs bound fuel lo mid
    else lo

/-- The number of entries of the increasing array `xs` at or below `bound`. -/
def bisect (xs : Array Nat) (bound : Nat) : Nat :=
  bisectIn xs bound (xs.size.log2 + 1) 0 xs.size

end SourceView
