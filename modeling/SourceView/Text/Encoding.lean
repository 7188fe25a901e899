/-
The bytes of texts.

UTF-8 has bytes for every character, and for nothing else.  A text of the program is a row of code
points, and one half of a surrogate pair may stand in it on its own: that is a code point without
being a character.  A text with such a half has no bytes, and what needs its bytes fails there.

The texts that this library analyzes are rows of characters.  They have bytes, all of them.
-/
namespace SourceView

/-- A code point: a character, or one of the 2048 halves of surrogate pairs. -/
inductive CodePoint where
  | char (c : Char)
  | surrogate (half : Fin 2048)
deriving DecidableEq

/-- The failure to encode a text: where the first half of a surrogate pair stands on its own. -/
structure Unencodable where
  position : Nat
deriving DecidableEq

namespace Text

/-- The code points of a text of characters. -/
def codePoints (text : String) : List CodePoint :=
  text.toList.map .char

/-- The bytes of a text whose first code point stands at `position`. -/
def encodeFrom (position : Nat) : List CodePoint → Except Unencodable (List Nat)
  | [] => .ok []
  | .char c :: rest => do
    let bytes ← encodeFrom (position + 1) rest
    return (String.utf8EncodeChar c).map UInt8.toNat ++ bytes
  | .surrogate _ :: _ => .error ⟨position⟩

/-- The bytes of a text, all of it. -/
def encode (codes : List CodePoint) : Except Unencodable (List Nat) :=
  encodeFrom 0 codes

end Text

end SourceView
