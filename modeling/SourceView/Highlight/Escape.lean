/-
Escaping.

Source text goes into markup with its five special characters written as entities.  On
request every maximal run of spaces, and every maximal run of tabs, is put into a marker
span, so that a style sheet can make it visible.
-/

namespace SourceView.Highlight

/-- A character as it is written in markup. -/
def escapeChar : Char → List Char
  | '&' => "&amp;".toList
  | '<' => "&lt;".toList
  | '>' => "&gt;".toList
  | '"' => "&quot;".toList
  | '\'' => "&#x27;".toList
  | c => [c]

/-- Characters as they are written in markup. -/
def escape (cs : List Char) : List Char :=
  cs.flatMap escapeChar

/-- The tag that opens a span of a given class. -/
def openTag (cls : List Char) : List Char :=
  "<span class=\"".toList ++ cls ++ "\">".toList

/-- The tag that closes a span. -/
def closeTag : List Char :=
  "</span>".toList

/-- Whether runs of `c` are marked. -/
def isMarked (c : Char) : Bool :=
  c == ' ' || c == '\t'

/-- The tag that opens the marker of a run of `c`. -/
def markTag (classPrefix : List Char) (c : Char) : List Char :=
  openTag (escape (classPrefix ++ (if c = '\t' then "-tab" else "-space").toList))

/-- The tag that closes the marker of the run that is open, if one is. -/
def closeMark (run : Option Char) : List Char :=
  if run.isSome then closeTag else []

/-- Escapes characters and marks runs; `run` is the character of the run that is open. -/
def markFrom (classPrefix : List Char) (run : Option Char) : List Char → List Char
  | [] => closeMark run
  | c :: rest =>
    if isMarked c then
      (if run = some c then [c] else closeMark run ++ markTag classPrefix c ++ [c])
        ++ markFrom classPrefix (some c) rest
    else closeMark run ++ escapeChar c ++ markFrom classPrefix none rest

/-- Characters as they are written in markup, with marked runs if `mark` asks for them. -/
def escapeChars (mark : Bool) (classPrefix : List Char) (cs : List Char) : List Char :=
  if mark then markFrom classPrefix none cs else escape cs

/-- A text as it is written in markup. -/
def escapeText (mark : Bool) (classPrefix text : String) : String :=
  String.ofList (escapeChars mark classPrefix.toList text.toList)

/-- The class of a span of a given style: the class that all spans have, and one of its
own. -/
def spanClassChars (classPrefix style : List Char) : List Char :=
  escape (classPrefix ++ ' ' :: classPrefix ++ '-' :: style)

/-- The class of a span of a given style. -/
def spanClass (classPrefix style : String) : String :=
  String.ofList (spanClassChars classPrefix.toList style.toList)

end SourceView.Highlight
