/-
The second digest of the Blake family.

It has a member for wide words and one for narrow words.  A state of eight words starts from
that of the secure hash of the same width, with the size of the digest mixed in.  A block is
worked in by rounds over sixteen words, which also take in how many bytes have been read and
whether the block is the last one.
-/
import SourceView.Digest.Sha2

namespace SourceView.Digest.Blake2

/-- The family members' parameters: the width of a word, the first state, how far words are
rotated, and the number of rounds. -/
structure Variant where
  width : Nat
  initial : List Nat
  amounts : Nat × Nat × Nat × Nat
  rounds : Nat

/-- The member of wide words. -/
def wide : Variant :=
  { width := 64, initial := Sha2.sha512.initial, amounts := (32, 24, 16, 63), rounds := 12 }

/-- The member of narrow words. -/
def narrow : Variant :=
  { width := 32, initial := Sha2.sha256.initial, amounts := (16, 12, 8, 7), rounds := 10 }

/-- The orders in which the rounds take the words of a block. -/
def orders : List (List Nat) := [
  [0, 1, 2, 3, 4, 5, 6, 7, 8, 9, 10, 11, 12, 13, 14, 15],
  [14, 10, 4, 8, 9, 15, 13, 6, 1, 12, 0, 2, 11, 7, 5, 3],
  [11, 8, 12, 0, 5, 2, 15, 13, 10, 14, 3, 6, 7, 1, 9, 4],
  [7, 9, 3, 1, 13, 12, 11, 14, 2, 6, 5, 10, 4, 0, 15, 8],
  [9, 0, 5, 7, 2, 4, 10, 15, 14, 1, 11, 12, 6, 8, 3, 13],
  [2, 12, 6, 10, 0, 11, 8, 3, 4, 13, 7, 5, 15, 14, 1, 9],
  [12, 5, 1, 15, 14, 13, 4, 10, 0, 7, 6, 3, 9, 2, 8, 11],
  [13, 11, 7, 14, 12, 1, 3, 9, 5, 0, 15, 4, 8, 6, 2, 10],
  [6, 15, 14, 9, 11, 3, 0, 8, 12, 2, 13, 7, 1, 4, 10, 5],
  [10, 2, 8, 4, 7, 6, 1, 5, 15, 11, 9, 14, 3, 12, 13, 0]]

/-- The places of four words that are mixed at a time: the columns of a square, then its
diagonals. -/
def places : List (Nat × Nat × Nat × Nat) := [
  (0, 4, 8, 12), (1, 5, 9, 13), (2, 6, 10, 14), (3, 7, 11, 15),
  (0, 5, 10, 15), (1, 6, 11, 12), (2, 7, 8, 13), (3, 4, 9, 14)]

namespace Variant

/-- Mixes the words at four places with two words of the block. -/
def mix (v : Variant) (s : Array Nat) (place : Nat × Nat × Nat × Nat) (x y : Nat) : Array Nat :=
  let (i, j, k, l) := place
  let (first, second, third, fourth) := v.amounts
  let at' (i : Nat) : Nat := s.getD i 0
  let a := wrap v.width (at' i + at' j + x)
  let d := rotateRight v.width first (at' l ^^^ a)
  let c := wrap v.width (at' k + d)
  let b := rotateRight v.width second (at' j ^^^ c)
  let a := wrap v.width (a + b + y)
  let d := rotateRight v.width third (d ^^^ a)
  let c := wrap v.width (c + d)
  let b := rotateRight v.width fourth (b ^^^ c)
  (((s.setIfInBounds i a).setIfInBounds j b).setIfInBounds k c).setIfInBounds l d

/-- One round by its place. -/
def round (v : Variant) (words : Array Nat) (s : Array Nat) (place : Nat) : Array Nat :=
  let order := (orders.getD (place % 10) []).toArray
  let word (i : Nat) : Nat := words.getD (order.getD i 0) 0
  ((List.range 8).zip places).foldl
    (fun s (i, place) => v.mix s place (word (2 * i)) (word (2 * i + 1))) s

/-- Works a block into the state; `count` bytes have been read with it. -/
def compress (v : Variant) (state : List Nat) (block : List Nat) (count : Nat) (last : Bool) :
    List Nat :=
  let wordBytes := v.width / 8
  let filled := block ++ List.replicate (16 * wordBytes - block.length) 0
  let words := ((chunks wordBytes filled).map ofBytesLow).toArray
  let marks := [0, 0, 0, 0, wrap v.width count, count >>> v.width,
    if last then complement v.width 0 else 0, 0]
  let start := (state ++ List.zipWith (· ^^^ ·) v.initial marks).toArray
  let mixed := ((List.range v.rounds).foldl (v.round words) start).toList
  List.zipWith (· ^^^ ·) state (List.zipWith (· ^^^ ·) mixed (mixed.drop 8))

/-- Works blocks into the state after `count` bytes. -/
def absorb (v : Variant) (state : List Nat) (count : Nat) : List (List Nat) → List Nat
  | [] => state
  | block :: blocks =>
    let count := count + block.length
    v.absorb (v.compress state block count blocks.isEmpty) count blocks

/-- The digest of a message, as long as the state. -/
def digest (v : Variant) (message : List Nat) : List Nat :=
  let parameters := 0x01010000 + v.width
  let start := List.zipWith (· ^^^ ·) v.initial (parameters :: List.replicate 7 0)
  let blocks := if message.isEmpty then [[]] else chunks (2 * v.width) message
  (v.absorb start 0 blocks).flatMap (toBytesLow (v.width / 8))

end Variant

end SourceView.Digest.Blake2
