/-
Blanks: the characters that separate words.

They are the separators of the character standard together with the control characters
that act as one, from tab to carriage return and from the file separator to the unit
separator.  The zero-width space and the byte order mark are none of them.
-/

namespace SourceView.Text

/-- Whether `c` separates words. -/
def isBlank (c : Char) : Bool :=
  let n := c.toNat
  (9 ≤ n && n ≤ 13) || (28 ≤ n && n ≤ 32) || n == 0x85 || n == 0xA0 || n == 0x1680
    || (0x2000 ≤ n && n ≤ 0x200A) || n == 0x2028 || n == 0x2029 || n == 0x202F
    || n == 0x205F || n == 0x3000

/-- The words of `cs`; `word` holds the characters of the word that is being read, the last
one first. -/
def wordsFrom (word : List Char) : List Char → List (List Char)
  | [] => if word.isEmpty then [] else [word.reverse]
  | c :: rest =>
    if isBlank c then
      if word.isEmpty then wordsFrom [] rest else word.reverse :: wordsFrom [] rest
    else wordsFrom (c :: word) rest

/-- The maximal runs of characters without a blank, in order. -/
def words (cs : List Char) : List (List Char) :=
  wordsFrom [] cs

/-- The words of `cs` with one space between neighbours. -/
def normalizeSpaceChars (cs : List Char) : List Char :=
  [' '].intercalate (words cs)

/-- The words of `s` with one space between neighbours. -/
def normalizeSpace (s : String) : String :=
  String.ofList (normalizeSpaceChars s.toList)

/-- `cs` without the blanks at its two ends. -/
def stripChars (cs : List Char) : List Char :=
  ((cs.dropWhile isBlank).reverse.dropWhile isBlank).reverse

/-- `s` without the blanks at its two ends. -/
def strip (s : String) : String :=
  String.ofList (stripChars s.toList)

end SourceView.Text
