/-
The first secure hash.
-/
import SourceView.Digest.Word

namespace SourceView.Digest.Sha1

/-- The words of the state. -/
structure State where
  a : Nat
  b : Nat
  c : Nat
  d : Nat
  e : Nat

/-- The first state. -/
def initial : State := ⟨0x67452301, 0xEFCDAB89, 0x98BADCFE, 0x10325476, 0xC3D2E1F0⟩

/-- The words of the rounds: those of the block, and each later one from four before it. -/
def schedule (block : List Nat) : List Nat :=
  ((List.range 64).foldl
    (fun words i =>
      words.push (rotateLeft 32 1 (words.getD (i + 13) 0 ^^^ words.getD (i + 8) 0
        ^^^ words.getD (i + 2) 0 ^^^ words.getD i 0)))
    ((chunks 4 block).map ofBytes).toArray).toList

/-- What a round adds by its place: a mix of three words and a constant. -/
def mix (s : State) (place : Nat) : Nat :=
  if place < 20 then ((s.b &&& s.c) ||| (complement 32 s.b &&& s.d)) + 0x5A827999
  else if place < 40 then (s.b ^^^ s.c ^^^ s.d) + 0x6ED9EBA1
  else if place < 60 then ((s.b &&& s.c) ||| (s.b &&& s.d) ||| (s.c &&& s.d)) + 0x8F1BBCDC
  else (s.b ^^^ s.c ^^^ s.d) + 0xCA62C1D6

/-- One round with its place and its word. -/
def round (s : State) (place word : Nat) : State :=
  ⟨wrap 32 (rotateLeft 32 5 s.a + mix s place + s.e + word), s.a, rotateLeft 32 30 s.b, s.c, s.d⟩

/-- Works a block into the state. -/
def compress (s : State) (block : List Nat) : State :=
  let t := ((List.range 80).zip (schedule block)).foldl
    (fun s (place, word) => round s place word) s
  ⟨wrap 32 (s.a + t.a), wrap 32 (s.b + t.b), wrap 32 (s.c + t.c), wrap 32 (s.d + t.d),
    wrap 32 (s.e + t.e)⟩

/-- The digest of a message. -/
def digest (message : List Nat) : List Nat :=
  let last := (chunks 64 (pad 64 8 id message)).foldl compress initial
  [last.a, last.b, last.c, last.d, last.e].flatMap (toBytes 4)

end SourceView.Digest.Sha1
