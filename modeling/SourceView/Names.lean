/-
Names as texts.

A lexer asks of one character whether it may begin or go on a name.  The same questions can
be asked of a text: whether it spells a piece of a name.  For a text of one character the
answers agree with those of the lexers; the empty text is a piece only where a mark of a
tag's name could be left out.
-/
import SourceView.Markup.Lexer
import SourceView.Script.Lexer
import SourceView.Stylesheet.Lexer

namespace SourceView

namespace Text

/-- Whether the text is letters. -/
def isLetters (cs : List Char) : Bool :=
  !cs.isEmpty && cs.all isLetter

/-- Whether the text is letters and numerals. -/
def isAlphanumerics (cs : List Char) : Bool :=
  !cs.isEmpty && cs.all isAlphanumeric

/-- Whether the text comes after all of ASCII in the order of texts. -/
def isBeyondAscii : List Char → Bool
  | [] => false
  | c :: rest => 127 < c.toNat || (c.toNat == 127 && !rest.isEmpty)

end Text

namespace Markup

/-- Whether the text may begin the name of a tag. -/
def beginsName (cs : List Char) : Bool :=
  !cs.isEmpty && cs.all isNameStart

/-- Whether the text may go on the name of a tag. -/
def goesOnName (cs : List Char) : Bool :=
  Text.isAlphanumerics cs || Text.isInfixOf cs "-_:.".toList

end Markup

namespace Stylesheet

/-- Whether the text may begin a name. -/
def beginsName (cs : List Char) : Bool :=
  Text.isLetters cs || cs == ['_'] || (Text.isBeyondAscii cs && Text.isIdentifier cs)

/-- Whether the text may go on a name. -/
def goesOnName (cs : List Char) : Bool :=
  !cs.isEmpty
    && (Text.isAlphanumerics cs || Text.isInfixOf cs "-_".toList
      || (Text.isBeyondAscii cs && Text.isIdentifier cs))

end Stylesheet

namespace Script

/-- Whether the text may begin an identifier. -/
def beginsName (cs : List Char) : Bool :=
  !cs.isEmpty
    && (Text.isLetters cs || Text.isInfixOf cs "_$".toList
      || (Text.isBeyondAscii cs && Text.isIdentifier cs))

/-- Whether the text may go on an identifier. -/
def goesOnName (cs : List Char) : Bool :=
  !cs.isEmpty
    && (Text.isAlphanumerics cs || Text.isInfixOf cs "_$".toList
      || (Text.isBeyondAscii cs && cs.all Text.isIdentifierContinue))

/-- Whether the text may go on the name of a tag. -/
def goesOnTagName (cs : List Char) : Bool :=
  Text.isAlphanumerics cs || Text.isInfixOf cs "-_:.".toList

end Script

end SourceView
