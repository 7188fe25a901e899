/-
Literals and delimited regions, which all languages read alike.

A delimited region runs from its opener to the first closer after it, or to the end of the
window when there is none.  A quoted literal ends at its quote; a backslash takes the
character after it along, whatever that is.  A literal of one line also ends, unfinished,
before a line break.
-/
import SourceView.Lexing.Whitespace

namespace SourceView.Lexing

/-- A region from an opener of `opener` characters at an offset to `closer`. -/
def delimitedAt (kind : TokenKind) (style what : String) (opener : Nat) (closer : List Char)
    (w : Window) (pos : Nat) : Emission × List Fault :=
  match w.find? closer (pos + opener) with
  | some close => ({ kind, start := pos, stop := close + closer.length, style }, [])
  | none =>
    ({ kind, start := pos, stop := w.stop, style },
      [⟨.unclosed what (String.ofList closer), pos, (w.stop : Nat)⟩])

/-- Where a literal ends whose characters are read from offset `pos` on, `left` of them at most,
and whether its closing quote is the last of them.  A backslash may step behind the end of the
window; the literal ends there all the same. -/
def literalEnd (quote : Char) (multiline : Bool) (w : Window) : (left pos : Nat) → Nat × Bool
  | 0, pos => (min pos w.stop, false)
  | left + 1, pos =>
    match w.at? pos with
    | none => (min pos w.stop, false)
    | some c =>
      if c == '\\' then literalEnd quote multiline w left (pos + 2)
      else if c == quote then (pos + 1, true)
      else if !multiline && isLineBreak c then (min pos w.stop, false)
      else literalEnd quote multiline w left (pos + 1)

/-- The literal that the quote at an offset opens. -/
def quotedAt (kind : TokenKind) (style what : String) (multiline : Bool) (quote : Char)
    (w : Window) (pos : Nat) : Emission × List Fault :=
  let (stop, closed) := literalEnd quote multiline w (w.stop - (pos + 1)) (pos + 1)
  if closed then ({ kind, start := pos, stop, style }, [])
  else
    ({ kind := .error, start := pos, stop, style := "error" },
      [⟨.unclosedLiteral what quote, pos, (stop : Nat)⟩])

end SourceView.Lexing
