/-
Whitespace as the lexers see it.

Spaces are the space, tab, form feed, vertical tab, no-break space and byte order mark.  A
run of them is one token.  A line break is a line feed, a carriage return, or the two of
them in the other order, and is one token each.
-/
import SourceView.Lexing.Run

namespace SourceView.Lexing

/-- Whether `c` is a space within a line. -/
def isSpace (c : Char) : Bool :=
  c == ' ' || c == '\t' || c == '\x0c' || c == '\x0b' || c == '\u00a0' || c == '\ufeff'

/-- Whether `c` breaks a line. -/
def isLineBreak (c : Char) : Bool :=
  c == '\n' || c == '\r'

/-- Spaces and line breaks. -/
def isWhitespace (c : Char) : Bool :=
  isSpace c || isLineBreak c

/-- The run of spaces or the line break that begins with the character `c` at an offset. -/
def whitespaceAt? (w : Window) (pos : Nat) (c : Char) : Option Emission :=
  if isSpace c then
    some { kind := .whitespace, start := pos, stop := w.skipWhile isSpace (pos + 1), style := "space" }
  else if c == '\n' then some { kind := .newline, start := pos, stop := pos + 1 }
  else if c == '\r' then
    some { kind := .newline, start := pos
           stop := if w.at? (pos + 1) == some '\n' then pos + 2 else pos + 1 }
  else none

end SourceView.Lexing
