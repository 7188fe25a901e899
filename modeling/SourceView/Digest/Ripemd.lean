/-
A message digest of 160 bits, worked out along two lines.

Two lines of eighty rounds work on a block apart from each other and are joined at its end.
They differ in the order of the words, in how far words are rotated, in the constants, and in
that one goes through the mixing functions backwards.  The lowest byte of a word comes first.
-/
import SourceView.Digest.Word

namespace SourceView.Digest.Ripemd

/-- The words of the state. -/
structure State where
  a : Nat
  b : Nat
  c : Nat
  d : Nat
  e : Nat

/-- The first state. -/
def initial : State := ⟨0x67452301, 0xEFCDAB89, 0x98BADCFE, 0x10325476, 0xC3D2E1F0⟩

/-- The parameters of one of sixteen rounds: which word of the block it takes and how far it
rotates. -/
structure Step where
  word : Nat
  amount : Nat

/-- Sixteen rounds with one mixing function and one constant. -/
structure Phase where
  mixing : Nat
  constant : Nat
  steps : List Step

/-- The phase of given words and amounts. -/
def phase (mixing constant : Nat) (words amounts : List Nat) : Phase :=
  ⟨mixing, constant, List.zipWith Step.mk words amounts⟩

/-- The phases of the left line. -/
def left : List Phase := [
  phase 0 0x00000000 [0, 1, 2, 3, 4, 5, 6, 7, 8, 9, 10, 11, 12, 13, 14, 15]
    [11, 14, 15, 12, 5, 8, 7, 9, 11, 13, 14, 15, 6, 7, 9, 8],
  phase 1 0x5A827999 [7, 4, 13, 1, 10, 6, 15, 3, 12, 0, 9, 5, 2, 14, 11, 8]
    [7, 6, 8, 13, 11, 9, 7, 15, 7, 12, 15, 9, 11, 7, 13, 12],
  phase 2 0x6ED9EBA1 [3, 10, 14, 4, 9, 15, 8, 1, 2, 7, 0, 6, 13, 11, 5, 12]
    [11, 13, 6, 7, 14, 9, 13, 15, 14, 8, 13, 6, 5, 12, 7, 5],
  phase 3 0x8F1BBCDC [1, 9, 11, 10, 0, 8, 12, 4, 13, 3, 7, 15, 14, 5, 6, 2]
    [11, 12, 14, 15, 14, 15, 9, 8, 9, 14, 5, 6, 8, 6, 5, 12],
  phase 4 0xA953FD4E [4, 0, 5, 9, 7, 12, 2, 10, 14, 1, 3, 8, 11, 6, 15, 13]
    [9, 15, 5, 11, 6, 8, 13, 12, 5, 12, 13, 14, 11, 8, 5, 6]]

/-- The phases of the right line. -/
def right : List Phase := [
  phase 4 0x50A28BE6 [5, 14, 7, 0, 9, 2, 11, 4, 13, 6, 15, 8, 1, 10, 3, 12]
    [8, 9, 9, 11, 13, 15, 15, 5, 7, 7, 8, 11, 14, 14, 12, 6],
  phase 3 0x5C4DD124 [6, 11, 3, 7, 0, 13, 5, 10, 14, 15, 8, 12, 4, 9, 1, 2]
    [9, 13, 15, 7, 12, 8, 9, 11, 7, 7, 12, 7, 6, 15, 13, 11],
  phase 2 0x6D703EF3 [15, 5, 1, 3, 7, 14, 6, 9, 11, 8, 12, 2, 10, 0, 4, 13]
    [9, 7, 15, 11, 8, 6, 6, 14, 12, 13, 5, 14, 13, 13, 7, 5],
  phase 1 0x7A6D76E9 [8, 6, 4, 1, 3, 11, 15, 0, 5, 12, 2, 13, 9, 7, 10, 14]
    [15, 5, 8, 11, 14, 14, 6, 14, 6, 9, 12, 9, 12, 5, 15, 8],
  phase 0 0x00000000 [12, 15, 10, 4, 1, 5, 8, 7, 6, 2, 13, 14, 0, 3, 9, 11]
    [8, 5, 12, 9, 12, 5, 14, 6, 8, 13, 6, 5, 15, 13, 11, 11]]

/-- One of the five mixing functions. -/
def mix (mixing : Nat) (b c d : Nat) : Nat :=
  match mixing with
  | 0 => b ^^^ c ^^^ d
  | 1 => (b &&& c) ||| (complement 32 b &&& d)
  | 2 => (b ||| complement 32 c) ^^^ d
  | 3 => (b &&& d) ||| (c &&& complement 32 d)
  | _ => b ^^^ (c ||| complement 32 d)

/-- One round of a phase. -/
def round (block : Array Nat) (p : Phase) (s : State) (step : Step) : State :=
  let sum := wrap 32 (s.a + mix p.mixing s.b s.c s.d + block.getD step.word 0 + p.constant)
  ⟨s.e, wrap 32 (rotateLeft 32 step.amount sum + s.e), s.b, rotateLeft 32 10 s.c, s.d⟩

/-- A line of rounds. -/
def line (block : Array Nat) (phases : List Phase) (s : State) : State :=
  phases.foldl (fun s p => p.steps.foldl (round block p) s) s

/-- Works a block into the state. -/
def compress (s : State) (block : List Nat) : State :=
  let words := ((chunks 4 block).map ofBytesLow).toArray
  let l := line words left s
  let r := line words right s
  ⟨wrap 32 (s.b + l.c + r.d), wrap 32 (s.c + l.d + r.e), wrap 32 (s.d + l.e + r.a),
    wrap 32 (s.e + l.a + r.b), wrap 32 (s.a + l.b + r.c)⟩

/-- The digest of a message. -/
def digest (message : List Nat) : List Nat :=
  let last := (chunks 64 (pad 64 8 List.reverse message)).foldl compress initial
  [last.a, last.b, last.c, last.d, last.e].flatMap (toBytesLow 4)

end SourceView.Digest.Ripemd
