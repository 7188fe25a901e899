/-
Highlighted text.

The tokens of a text cut it into segments: the tokens themselves, each with its style, and
the text between them without one.  A token that begins before the last one ended is passed
over, so the segments cover the text once.  A segment with a style becomes a span.

A document is its segments one after another.  In lines, a segment is cut at its line
breaks and each piece gets a span of its own, so every line is complete in itself; a line
with nothing on it is shown by a placeholder.
-/
import SourceView.Config
import SourceView.Token
import SourceView.Highlight.Escape

namespace SourceView.Highlight

/-- A piece of the text and its style, which is empty if it has none. -/
structure Segment where
  text : List Char
  style : String := ""

/-- The style that a token is shown in; whitespace is shown as plain text. -/
def shownStyle (t : Token) : String :=
  if t.kind.isTrivia then "" else t.style

/-- The segments of `source` from offset `pos` on, by tokens none of which stands for
others. -/
def segmentsFrom (source : List Char) (pos : Int) : List Token → List Segment
  | [] => if pos < source.length then [{ text := Text.sliceFrom source pos }] else []
  | t :: ts =>
    if t.start < pos then segmentsFrom source pos ts
    else
      (if pos < t.start then [{ text := Text.slice source pos t.start }] else [])
        ++ { text := Text.slice source t.start t.stop, style := shownStyle t }
          :: segmentsFrom source t.stop ts

/-- The segments of `source`. -/
def segments (source : List Char) (tokens : List Token) : List Segment :=
  segmentsFrom source 0 (Token.flatten tokens)

/-- A text in a style: a span, or only escaped if there is no style. -/
def renderChars (config : Config) (style : String) (text : List Char) : List Char :=
  let escaped := escapeChars config.markWhitespace config.classPrefix.toList text
  if style.isEmpty then escaped
  else openTag (spanClassChars config.classPrefix.toList style.toList) ++ escaped ++ closeTag

/-- The whole of `source`, highlighted. -/
def document (config : Config) (source : String) (tokens : List Token) : String :=
  String.ofList ((segments source.toList tokens).flatMap fun s => renderChars config s.style s.text)

/-- The pieces of a segment between its line breaks. -/
def Segment.pieces (config : Config) (s : Segment) : List (List Char) :=
  (Text.splitOn '\n' s.text).map fun piece =>
    if piece.isEmpty then [] else renderChars config s.style piece

/-- The lines of a text from those of its two parts: the last one of the first part and the
first one of the second are one line. -/
def joinLines : List (List Char) → List (List Char) → List (List Char)
  | [], ys => ys
  | xs, [] => xs
  | [x], y :: ys => (x ++ y) :: ys
  | x :: xs, ys => x :: joinLines xs ys

/-- The lines of `source`, each highlighted by itself. -/
def lines (config : Config) (source : String) (tokens : List Token) : List String :=
  let joined := (segments source.toList tokens).foldr (fun s rest => joinLines (s.pieces config) rest)
    [[]]
  joined.map fun line => if line.isEmpty then config.emptyLine else String.ofList line

end SourceView.Highlight
