/-
The fifth message digest.

Unlike the secure hashes it takes the lowest byte of a word first.
-/
import SourceView.Digest.Word

namespace SourceView.Digest.Md5

/-- The constants of the rounds: the leading bits of the sines of one, two, three and so
on. -/
def sines : List Nat := [
  3614090360, 3905402710, 606105819, 3250441966, 4118548399, 1200080426, 2821735955, 4249261313,
  1770035416, 2336552879, 4294925233, 2304563134, 1804603682, 4254626195, 2792965006, 1236535329,
  4129170786, 3225465664, 643717713, 3921069994, 3593408605, 38016083, 3634488961, 3889429448,
  568446438, 3275163606, 4107603335, 1163531501, 2850285829, 4243563512, 1735328473, 2368359562,
  4294588738, 2272392833, 1839030562, 4259657740, 2763975236, 1272893353, 4139469664, 3200236656,
  681279174, 3936430074, 3572445317, 76029189, 3654602809, 3873151461, 530742520, 3299628645,
  4096336452, 1126891415, 2878612391, 4237533241, 1700485571, 2399980690, 4293915773, 2240044497,
  1873313359, 4264355552, 2734768916, 1309151649, 4149444226, 3174756917, 718787259, 3951481745]

/-- How far each round rotates, by its quarter and its place in a group of four. -/
def amounts : List (List Nat) :=
  [[7, 12, 17, 22], [5, 9, 14, 20], [4, 11, 16, 23], [6, 10, 15, 21]]

/-- The words of the state. -/
structure State where
  a : Nat
  b : Nat
  c : Nat
  d : Nat

/-- The first state. -/
def initial : State := ⟨0x67452301, 0xEFCDAB89, 0x98BADCFE, 0x10325476⟩

/-- What a round mixes, and the place of the word of the block that it takes. -/
def mix (s : State) (place : Nat) : Nat × Nat :=
  if place < 16 then ((s.b &&& s.c) ||| (complement 32 s.b &&& s.d), place)
  else if place < 32 then ((s.d &&& s.b) ||| (complement 32 s.d &&& s.c), (5 * place + 1) % 16)
  else if place < 48 then (s.b ^^^ s.c ^^^ s.d, (3 * place + 5) % 16)
  else (s.c ^^^ (s.b ||| complement 32 s.d), 7 * place % 16)

/-- One round with its place and its constant. -/
def round (block : Array Nat) (s : State) (place constant : Nat) : State :=
  let (mixed, word) := mix s place
  let amount := (amounts.getD (place / 16) []).getD (place % 4) 0
  let sum := wrap 32 (s.a + mixed + constant + block.getD word 0)
  ⟨s.d, wrap 32 (s.b + rotateLeft 32 amount sum), s.b, s.c⟩

/-- Works a block into the state. -/
def compress (s : State) (block : List Nat) : State :=
  let words := ((chunks 4 block).map ofBytesLow).toArray
  let t := ((List.range 64).zip sines).foldl
    (fun s (place, constant) => round words s place constant) s
  ⟨wrap 32 (s.a + t.a), wrap 32 (s.b + t.b), wrap 32 (s.c + t.c), wrap 32 (s.d + t.d)⟩

/-- The digest of a message. -/
def digest (message : List Nat) : List Nat :=
  let last := (chunks 64 (pad 64 8 List.reverse message)).foldl compress initial
  [last.a, last.b, last.c, last.d].flatMap (toBytesLow 4)

end SourceView.Digest.Md5
