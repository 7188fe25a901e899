/-
Faults: what is wrong with a source text.

No fault stops an analysis.  A lexer or a grammar that meets something unfinished or out of
place recovers on the spot and notes a fault: its cause and the span of the text at fault.
A diagnostic is a fault in the form that callers get: worded, and with the line and the
column of its start.
-/
import SourceView.LineIndex
import SourceView.Text.Quoted

namespace SourceView

/-- The cause of a fault. -/
inductive Anomaly where
  /-- A comment, declaration, group or the like whose end is missing. -/
  | unclosed (what closer : String)
  /-- A literal without its closing quote. -/
  | unclosedLiteral (what : String) (quote : Char)
  /-- A template literal without its closing backtick. -/
  | unclosedTemplate
  /-- A start tag, by the name written in it, without its `>`. -/
  | unclosedStartTag (name : String)
  /-- An end tag, by the name written in it, without its `>`. -/
  | unclosedEndTag (name : String)
  /-- An element without its end tag. -/
  | unclosedElement (name : String)
  /-- The end tag of an enclosing element where another one was due. -/
  | mismatchedTag (expected found : String)
  /-- A closing delimiter that nothing open waits for. -/
  | unexpectedDelimiter (text : String)
  /-- An end tag that no open element waits for. -/
  | unexpectedEndTag (name : String)
  /-- A container past the nesting limit. -/
  | tooDeep
  /-- A remark of a rule's own. -/
  | remark (text : String)
deriving DecidableEq

namespace Anomaly

/-- The wording of a cause. -/
def message : Anomaly → String
  | unclosed what closer => s!"Unclosed {what}: expected '" ++ closer ++ "'"
  | unclosedLiteral what quote => s!"Unclosed {what}: expected " ++ quote.toString
  | unclosedTemplate => "Unclosed template literal: expected '\x60'"
  | unclosedStartTag name => s!"Unclosed tag <{name}>: expected '>'"
  | unclosedEndTag name => s!"Unclosed tag </{name}>: expected '>'"
  | unclosedElement name => s!"Unclosed element <{name}>: expected </{name}>"
  | mismatchedTag expected found =>
    s!"Mismatched closing tag: expected </{expected}> but found </{found}>"
  | unexpectedDelimiter text => "Unexpected closing '" ++ text ++ "'"
  | unexpectedEndTag name => s!"Unexpected closing tag </{name}>"
  | tooDeep => "Nesting too deep: contents not analyzed"
  | remark text => text

end Anomaly

/-- A cause and the span of the text at fault. -/
structure Fault where
  cause : Anomaly
  start : Int
  stop : Int
deriving DecidableEq

/-- Who found a fault: a lexer or a grammar. -/
inductive FaultOrigin where
  | lexical | structural
deriving DecidableEq

namespace FaultOrigin

/-- The origin as a category of diagnostics. -/
def category : FaultOrigin → String
  | lexical => "lexical"
  | structural => "structural"

/-- The name of the class of a diagnostic. -/
def className : FaultOrigin → String
  | lexical => "LexError"
  | structural => "ParseError"

end FaultOrigin

/-- A worded fault, with the line and column of its start when they are known. -/
structure Diagnostic where
  origin : FaultOrigin
  message : String
  start : Int
  stop : Int
  line : Option Int := none
  column : Option Int := none
deriving DecidableEq

namespace Diagnostic

/-- The line and column as far as they are known, before the message. -/
def text (d : Diagnostic) : String :=
  match d.line, d.column with
  | none, _ => d.message
  | some line, none => s!"{line} " ++ d.message
  | some line, some column => s!"{line}:{column} " ++ d.message

/-- The diagnostic as a short text that shows what it is. -/
def describe (d : Diagnostic) : String :=
  s!"{d.origin.className}({Text.quoted d.message}, start={d.start}, end={d.stop})"

/-- Diagnostics are the same when they say the same of the same span; the line and column
follow from the span. -/
def same (d e : Diagnostic) : Bool :=
  d.origin == e.origin && d.message == e.message && d.start == e.start && d.stop == e.stop

end Diagnostic

/-- The diagnostic of a fault of the text that `lines` indexes. -/
def Fault.diagnostic (origin : FaultOrigin) (lines : LineIndex) (f : Fault) : Diagnostic :=
  { origin, message := f.cause.message, start := f.start, stop := f.stop
    line := some (lines.lineOf f.start), column := some (lines.columnOf f.start) }

end SourceView
