/-
The third of the ShangMi digests, of 256 bits.
-/
import SourceView.Digest.Word

namespace SourceView.Digest.Sm3

/-- The words of the state. -/
structure State where
  a : Nat
  b : Nat
  c : Nat
  d : Nat
  e : Nat
  f : Nat
  g : Nat
  h : Nat

namespace State

/-- The words of a state. -/
def toList (s : State) : List Nat :=
  [s.a, s.b, s.c, s.d, s.e, s.f, s.g, s.h]

end State

/-- The first state. -/
def initial : State :=
  ⟨0x7380166F, 0x4914B2B9, 0x172442D7, 0xDA8A0600, 0xA96F30BC, 0x163138AA, 0xE38DEE4D, 0xB0FB0E4E⟩

/-- A word mixed with two of its rotations. -/
def spread (first second x : Nat) : Nat :=
  x ^^^ rotateLeft 32 first x ^^^ rotateLeft 32 second x

/-- The words of the rounds: those of the block, and each later one from five before it. -/
def schedule (block : List Nat) : Array Nat :=
  (List.range 52).foldl
    (fun words i =>
      let at' (k : Nat) : Nat := words.getD (i + k) 0
      words.push (spread 15 23 (at' 0 ^^^ at' 7 ^^^ rotateLeft 32 15 (at' 13))
        ^^^ rotateLeft 32 7 (at' 3) ^^^ at' 10))
    ((chunks 4 block).map ofBytes).toArray

/-- One round with its place. -/
def round (words : Array Nat) (s : State) (place : Nat) : State :=
  let early := place < 16
  let constant := if early then 0x79CC4519 else 0x7A879D8A
  let turned := rotateLeft 32 12 s.a
  let first := rotateLeft 32 7
    (wrap 32 (turned + s.e + rotateLeft 32 (place % 32) constant))
  let second := first ^^^ turned
  let ff := if early then s.a ^^^ s.b ^^^ s.c
    else (s.a &&& s.b) ||| (s.a &&& s.c) ||| (s.b &&& s.c)
  let gg := if early then s.e ^^^ s.f ^^^ s.g else (s.e &&& s.f) ||| (complement 32 s.e &&& s.g)
  let word := words.getD place 0
  let low := wrap 32 (ff + s.d + second + (word ^^^ words.getD (place + 4) 0))
  let high := wrap 32 (gg + s.h + first + word)
  ⟨low, s.a, rotateLeft 32 9 s.b, s.c, spread 9 17 high, s.e, rotateLeft 32 19 s.f, s.g⟩

/-- Works a block into the state. -/
def compress (s : State) (block : List Nat) : State :=
  let t := (List.range 64).foldl (round (schedule block)) s
  ⟨s.a ^^^ t.a, s.b ^^^ t.b, s.c ^^^ t.c, s.d ^^^ t.d, s.e ^^^ t.e, s.f ^^^ t.f, s.g ^^^ t.g,
    s.h ^^^ t.h⟩

/-- The digest of a message. -/
def digest (message : List Nat) : List Nat :=
  ((chunks 64 (pad 64 8 id message)).foldl compress initial).toList.flatMap (toBytes 4)

end SourceView.Digest.Sm3
