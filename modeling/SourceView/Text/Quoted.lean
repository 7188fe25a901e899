/-
Quoted texts, as messages show them.

A text stands between apostrophes, or between quotation marks when it holds an apostrophe
and no quotation mark.  The chosen mark and the backslash are escaped; tab, line feed and
carriage return have letters of their own; any other character that is not printable is
written by its code point in two, four or eight hexadecimal digits.
-/
import SourceView.Text.Printable

namespace SourceView.Text

/-- The lower-case hexadecimal digit for `n < 16`. -/
def hexDigit (n : Nat) : Char :=
  (Nat.digitChar n)

/-- `n` in exactly `width` hexadecimal digits, the highest first. -/
def hexDigits : (width n : Nat) → List Char
  | 0, _ => []
  | width + 1, n => hexDigits width (n / 16) ++ [hexDigit (n % 16)]

/-- One character as it stands between two `mark`s. -/
def quoteChar (mark c : Char) : List Char :=
  if c = mark ∨ c = '\\' then ['\\', c]
  else if c = '\t' then ['\\', 't']
  else if c = '\n' then ['\\', 'n']
  else if c = '\r' then ['\\', 'r']
  else if isPrintable c then [c]
  else if c.toNat < 0x100 then '\\' :: 'x' :: hexDigits 2 c.toNat
  else if c.toNat < 0x10000 then '\\' :: 'u' :: hexDigits 4 c.toNat
  else '\\' :: 'U' :: hexDigits 8 c.toNat

/-- The mark that encloses `cs`. -/
def quoteMark (cs : List Char) : Char :=
  if cs.contains '\'' && !cs.contains '"' then '"' else '\''

/-- `cs` between its marks. -/
def quotedChars (cs : List Char) : List Char :=
  let mark := quoteMark cs
  mark :: cs.flatMap (quoteChar mark) ++ [mark]

/-- `s` between its marks. -/
def quoted (s : String) : String :=
  String.ofList (quotedChars s.toList)

end SourceView.Text
