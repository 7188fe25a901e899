/-
Slices by offsets.

Offsets are integers.  An offset past the end means the end, a negative one counts back
from the end, and a slice whose end does not lie after its start is empty, so every pair of
offsets names some slice.
-/

namespace SourceView.Text

/-- The position that `offset` names in a sequence of `size` items. -/
def position (size : Nat) (offset : Int) : Nat :=
  if offset < 0 then (offset + size).toNat else min offset.toNat size

/-- The items of `xs` from offset `start` up to offset `stop`. -/
def slice (xs : List α) (start stop : Int) : List α :=
  if 0 ≤ start ∧ 0 ≤ stop then (xs.drop start.toNat).take (stop.toNat - start.toNat)
  else
    let lo := position xs.length start
    (xs.drop lo).take (position xs.length stop - lo)

/-- The items of `xs` from offset `start` on. -/
def sliceFrom (xs : List α) (start : Int) : List α :=
  if 0 ≤ start then xs.drop start.toNat else xs.drop (position xs.length start)

@[simp] theorem slice_ofNat (xs : List α) (start stop : Nat) :
    slice xs (start : Int) (stop : Int) = (xs.drop start).take (stop - start) := by
  simp [slice]

@[simp] theorem sliceFrom_ofNat (xs : List α) (start : Nat) :
    sliceFrom xs (start : Int) = xs.drop start := by
  simp [sliceFrom]

/-- The parts of `cs` between the occurrences of `sep`: one more than there are of those. -/
def splitOn [DecidableEq α] (sep : α) : List α → List (List α)
  | [] => [[]]
  | c :: rest =>
    if c = sep then [] :: splitOn sep rest
    else match splitOn sep rest with
      | [] => [[c]]
      | part :: parts => (c :: part) :: parts

/-- Whether `needle` begins `text`. -/
def startsWith (text needle : List Char) : Bool :=
  needle.isPrefixOf text

/-- The number of characters of `text` before the first occurrence of `needle`. -/
def findIndex? (needle : List Char) : List Char → Option Nat
  | [] => if needle.isEmpty then some 0 else none
  | c :: rest =>
    if needle.isPrefixOf (c :: rest) then some 0
    else (findIndex? needle rest).map (· + 1)

/-- Whether `part` occurs in `text`. -/
def isInfixOf (part text : List Char) : Bool :=
  (findIndex? part text).isSome

end SourceView.Text
