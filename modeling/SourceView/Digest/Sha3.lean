/-
The third family of secure hashes.

The state is a square of five by five lanes, each a word of 64 bits.  A block of the padded
message is mixed into the first lanes and the state is permuted, one block after another;
the digest is the start of the last state.  What a longer digest gains a block loses: the
digest twice and a block together fill the state.
-/
import SourceView.Digest.Word

namespace SourceView.Digest.Sha3

/-! ### The permutation -/

/-- The lanes of the state, row after row. -/
abbrev State := Array Nat

/-- The lane at a place; places count around the square. -/
def lane (s : State) (x y : Nat) : Nat :=
  s.getD (x % 5 + 5 * (y % 5)) 0

/-- The state with a given lane at every place. -/
def ofLanes (f : (x y : Nat) → Nat) : State :=
  ((List.range 25).map fun i => f (i % 5) (i / 5)).toArray

/-- How far each lane is rotated, row after row. -/
def amounts : State := #[
  0, 1, 62, 28, 27,
  36, 44, 6, 55, 20,
  3, 10, 43, 25, 39,
  41, 45, 15, 21, 8,
  18, 2, 61, 56, 14]

/-- The constants of the rounds. -/
def constants : List Nat := [
  0x0000000000000001, 0x0000000000008082, 0x800000000000808A, 0x8000000080008000,
  0x000000000000808B, 0x0000000080000001, 0x8000000080008081, 0x8000000000008009,
  0x000000000000008A, 0x0000000000000088, 0x0000000080008009, 0x000000008000000A,
  0x000000008000808B, 0x800000000000008B, 0x8000000000008089, 0x8000000000008003,
  0x8000000000008002, 0x8000000000000080, 0x000000000000800A, 0x800000008000000A,
  0x8000000080008081, 0x8000000000008080, 0x0000000080000001, 0x8000000080008008]

/-- The sums of the columns. -/
def columns (s : State) : State :=
  ((List.range 5).map fun x => (List.range 5).foldl (fun sum y => sum ^^^ lane s x y) 0).toArray

/-- Adds to every lane the columns on both sides of it. -/
def spread (s : State) : State :=
  let sums := columns s
  let sum (x : Nat) : Nat := sums.getD (x % 5) 0
  ofLanes fun x y => lane s x y ^^^ sum (x + 4) ^^^ rotateLeft 64 1 (sum (x + 1))

/-- Rotates every lane and moves it: the lane at `x` of row `y` goes to `y` of row
`2 * x + 3 * y`. -/
def scatter (s : State) : State :=
  ofLanes fun x y => rotateLeft 64 (lane amounts (x + 3 * y) x) (lane s (x + 3 * y) x)

/-- Mixes every lane with the two after it in its row. -/
def mixRows (s : State) : State :=
  ofLanes fun x y => lane s x y ^^^ (complement 64 (lane s (x + 1) y) &&& lane s (x + 2) y)

/-- One round with its constant. -/
def round (s : State) (constant : Nat) : State :=
  let mixed := mixRows (scatter (spread s))
  mixed.setIfInBounds 0 (lane mixed 0 0 ^^^ constant)

/-- The permutation of the state. -/
def permute (s : State) : State :=
  constants.foldl round s

/-! ### Messages -/

/-- A message padded to whole blocks: two bits that tell the family, and a one at both ends of
what is filled up. -/
def padded (blockBytes : Nat) (message : List Nat) : List Nat :=
  let missing := blockBytes - message.length % blockBytes
  message ++ (if missing = 1 then [0x86]
    else 0x06 :: List.replicate (missing - 2) 0 ++ [0x80])

/-- Works a block into the state. -/
def absorb (s : State) (block : List Nat) : State :=
  let words := ((chunks 8 block).map ofBytesLow).toArray
  permute (ofLanes fun x y => lane s x y ^^^ words.getD (x + 5 * y) 0)

/-- The digest of a message, of `size` bytes. -/
def digest (size : Nat) (message : List Nat) : List Nat :=
  let blockBytes := 200 - 2 * size
  let last := (chunks blockBytes (padded blockBytes message)).foldl absorb (ofLanes fun _ _ => 0)
  (last.toList.flatMap (toBytesLow 8)).take size

end SourceView.Digest.Sha3
