/-
Words and blocks of a digest.

A digest works on words of a fixed number of bits, held as natural numbers below that power
of two.  The message is padded to whole blocks: a single bit, zeros, and the length of the
message in bits.  One block after another is then worked into a state.
-/
import SourceView.Text.Quoted

namespace SourceView.Digest

/-- The remainder of `n` that fits in a word. -/
def wrap (width n : Nat) : Nat :=
  n % (1 <<< width)

/-- A word rotated to the right. -/
def rotateRight (width n x : Nat) : Nat :=
  wrap width ((x >>> n) ||| (x <<< (width - n)))

/-- A word rotated to the left. -/
def rotateLeft (width n x : Nat) : Nat :=
  rotateRight width (width - n) x

/-- A word with every bit turned. -/
def complement (width x : Nat) : Nat :=
  (1 <<< width) - 1 - x

/-- The number that bytes spell, the highest first. -/
def ofBytes (bytes : List Nat) : Nat :=
  bytes.foldl (fun n b => n * 256 + b) 0

/-- The `count` bytes of a number, the highest first. -/
def toBytes : (count n : Nat) → List Nat
  | 0, _ => []
  | count + 1, n => (n >>> (8 * count)) % 256 :: toBytes count n

/-- The number that bytes spell, the lowest first. -/
def ofBytesLow (bytes : List Nat) : Nat :=
  ofBytes bytes.reverse

/-- The `count` bytes of a number, the lowest first. -/
def toBytesLow (count n : Nat) : List Nat :=
  (toBytes count n).reverse

/-- The parts of a list of a given size, the last one perhaps smaller; `turns` bounds their
number. -/
def chunksWithin (size : Nat) : (turns : Nat) → List Nat → List (List Nat)
  | 0, _ => []
  | turns + 1, xs => if xs.isEmpty then [] else xs.take size :: chunksWithin size turns (xs.drop size)

/-- The parts of a list of a given size. -/
def chunks (size : Nat) (xs : List Nat) : List (List Nat) :=
  chunksWithin size xs.length xs

/-- A message padded to whole blocks.  The length takes `lengthBytes` bytes, in the order
that `order` puts them in. -/
def pad (blockBytes lengthBytes : Nat) (order : List Nat → List Nat) (message : List Nat) :
    List Nat :=
  let used := message.length + 1 + lengthBytes
  let zeros := (blockBytes - used % blockBytes) % blockBytes
  message ++ 0x80 :: List.replicate zeros 0 ++ order (toBytes lengthBytes (8 * message.length))

/-- Bytes in hexadecimal digits. -/
def hex (bytes : List Nat) : List Char :=
  bytes.flatMap (Text.hexDigits 2)

/-- The bytes of a text. -/
def textBytes (s : String) : List Nat :=
  s.toUTF8.toList.map UInt8.toNat

end SourceView.Digest
