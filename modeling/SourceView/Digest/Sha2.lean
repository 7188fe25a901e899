/-
The second family of secure hashes.

Its members differ in the width of a word and in how far words are rotated.  Their constants
are not chosen: they are the leading bits of the fractions of the roots of the first primes,
cube roots for the rounds and square roots for the first state.
-/
import SourceView.Digest.Word

namespace SourceView.Digest.Sha2

/-! ### Constants -/

/-- The first eighty primes. -/
def primes : List Nat := [
  2, 3, 5, 7, 11, 13, 17, 19, 23, 29, 31, 37, 41, 43, 47, 53, 59, 61, 67, 71, 73, 79, 83, 89, 97,
  101, 103, 107, 109, 113, 127, 131, 137, 139, 149, 151, 157, 163, 167, 173, 179, 181, 191, 193,
  197, 199, 211, 223, 227, 229, 233, 239, 241, 251, 257, 263, 269, 271, 277, 281, 283, 293, 307,
  311, 313, 317, 331, 337, 347, 349, 353, 359, 367, 373, 379, 383, 389, 397, 401, 409]

/-- The greatest number whose power does not exceed `n`, by its bits from the highest on;
`found` holds those that are known. -/
def rootFrom (degree n : Nat) : (bits found : Nat) → Nat
  | 0, found => found
  | bits + 1, found =>
    let next := found + (1 <<< bits)
    rootFrom degree n bits (if Nat.pow next degree ≤ n then next else found)

/-- The first bits of the fraction of a root of `n`. -/
def rootFraction (degree bits n : Nat) : Nat :=
  rootFrom degree (n <<< (degree * bits)) (bits + 8) 0 % (1 <<< bits)

/-- The family members' parameters: the width of a word, three amounts for each of the four
mixing functions, the constants of the rounds, the first state, and how many bytes of the
last state are the digest. -/
structure Variant where
  width : Nat
  big0 : Nat × Nat × Nat
  big1 : Nat × Nat × Nat
  small0 : Nat × Nat × Nat
  small1 : Nat × Nat × Nat
  constants : List Nat
  initial : List Nat
  size : Nat

/-- The member of narrow words with a given first state and size. -/
def narrow (initial : List Nat) (size : Nat) : Variant :=
  { width := 32, big0 := (2, 13, 22), big1 := (6, 11, 25), small0 := (7, 18, 3)
    small1 := (17, 19, 10), constants := (primes.take 64).map (rootFraction 3 32), initial, size }

/-- The member of wide words with a given first state and size. -/
def wide (initial : List Nat) (size : Nat) : Variant :=
  { width := 64, big0 := (28, 34, 39), big1 := (14, 18, 41), small0 := (1, 8, 7)
    small1 := (19, 61, 6), constants := primes.map (rootFraction 3 64), initial, size }

/-- The digest of 256 bits. -/
def sha256 : Variant := narrow ((primes.take 8).map (rootFraction 2 32)) 32

/-- The digest of 224 bits. -/
def sha224 : Variant :=
  narrow (((primes.drop 8).take 8).map fun p => wrap 32 (rootFraction 2 64 p)) 28

/-- The digest of 512 bits. -/
def sha512 : Variant := wide ((primes.take 8).map (rootFraction 2 64)) 64

/-- The digest of 384 bits. -/
def sha384 : Variant := wide (((primes.drop 8).take 8).map (rootFraction 2 64)) 48

/-! ### Rounds -/

/-- The words of the state. -/
structure State where
  a : Nat
  b : Nat
  c : Nat
  d : Nat
  e : Nat
  f : Nat
  g : Nat
  h : Nat

namespace State

/-- The state of eight words; missing ones are zero. -/
def ofList (words : List Nat) : State :=
  let at' (i : Nat) : Nat := words.getD i 0
  ⟨at' 0, at' 1, at' 2, at' 3, at' 4, at' 5, at' 6, at' 7⟩

/-- The words of a state. -/
def toList (s : State) : List Nat :=
  [s.a, s.b, s.c, s.d, s.e, s.f, s.g, s.h]

end State

namespace Variant

/-- A word mixed with three of its rotations. -/
def big (v : Variant) (amounts : Nat × Nat × Nat) (x : Nat) : Nat :=
  rotateRight v.width amounts.1 x ^^^ rotateRight v.width amounts.2.1 x
    ^^^ rotateRight v.width amounts.2.2 x

/-- A word mixed with two of its rotations and a shift. -/
def small (v : Variant) (amounts : Nat × Nat × Nat) (x : Nat) : Nat :=
  rotateRight v.width amounts.1 x ^^^ rotateRight v.width amounts.2.1 x ^^^ (x >>> amounts.2.2)

/-- The words of the rounds: those of the block, and each later one from four before it. -/
def schedule (v : Variant) (block : List Nat) : Array Nat :=
  (List.range (v.constants.length - 16)).foldl
    (fun words i =>
      words.push (wrap v.width (v.small v.small1 (words.getD (i + 14) 0) + words.getD (i + 9) 0
        + v.small v.small0 (words.getD (i + 1) 0) + words.getD i 0)))
    ((chunks (v.width / 8) block).map ofBytes).toArray

/-- One round with its constant and its word. -/
def round (v : Variant) (s : State) (constant word : Nat) : State :=
  let choice := (s.e &&& s.f) ^^^ (complement v.width s.e &&& s.g)
  let majority := (s.a &&& s.b) ^^^ (s.a &&& s.c) ^^^ (s.b &&& s.c)
  let first := s.h + v.big v.big1 s.e + choice + constant + word
  let second := v.big v.big0 s.a + majority
  ⟨wrap v.width (first + second), s.a, s.b, s.c, wrap v.width (s.d + first), s.e, s.f, s.g⟩

/-- Works a block into the state. -/
def compress (v : Variant) (state : State) (block : List Nat) : State :=
  let rounds := (v.constants.zip (v.schedule block).toList).foldl
    (fun s (constant, word) => v.round s constant word) state
  State.ofList (List.zipWith (fun x y => wrap v.width (x + y)) state.toList rounds.toList)

/-- The digest of a message. -/
def digest (v : Variant) (message : List Nat) : List Nat :=
  let blocks := chunks (2 * v.width) (pad (2 * v.width) (v.width / 4) id message)
  let last := blocks.foldl v.compress (State.ofList v.initial)
  (last.toList.flatMap (toBytes (v.width / 8))).take v.size

end Variant

/-! ### Shorter digests of wide words -/

/-- The member of wide words with a digest of `size` bytes.  Its first state is the digest of
its own name by a member that starts like the one of 512 bits with half of the bits turned. -/
def shortened (name : String) (size : Nat) : Variant :=
  let turned := wide (sha512.initial.map (· ^^^ 0xA5A5A5A5A5A5A5A5)) 64
  wide ((chunks 8 (turned.digest (textBytes name))).map ofBytes) size

/-- The digest of 224 bits by wide words. -/
def sha512t224 : Variant := shortened "SHA-512/224" 28

/-- The digest of 256 bits by wide words. -/
def sha512t256 : Variant := shortened "SHA-512/256" 32

end SourceView.Digest.Sha2
