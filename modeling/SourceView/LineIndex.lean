/-
Lines and columns of a source text.

Offsets count characters from zero; lines and columns count from one.  A line break is the
line feed alone, so the carriage return before one belongs to the line it ends.  Offsets
outside the text are accepted: they name the nearest position of the text.
-/
import SourceView.Bisect

namespace SourceView

/-- The offsets at which the lines of a text begin, and the length of the text. -/
structure LineIndex where
  starts : Array Nat
  length : Nat

namespace LineIndex

/-- The offsets just past the line feeds of `cs`, whose first character is at `offset`. -/
def breaksFrom (offset : Nat) : List Char → List Nat
  | [] => []
  | c :: rest =>
    if c = '\n' then (offset + 1) :: breaksFrom (offset + 1) rest
    else breaksFrom (offset + 1) rest

/-- The index of a text given by its characters. -/
def ofChars (cs : List Char) : LineIndex :=
  ⟨(0 :: breaksFrom 0 cs).toArray, cs.length⟩

/-- The index of a text. -/
def ofSource (source : String) : LineIndex :=
  ofChars source.toList

/-- The number of lines; a final line feed opens one more, empty, line. -/
def lineCount (lines : LineIndex) : Nat :=
  lines.starts.size

/-- The line that holds `offset`. -/
def lineOf (lines : LineIndex) (offset : Int) : Nat :=
  if offset ≤ 0 then 1 else bisect lines.starts offset.toNat

/-- `offset`, moved to the nearest end of the text when it lies outside. -/
def clamp (lines : LineIndex) (offset : Int) : Nat :=
  min offset.toNat lines.length

/-- The column of `offset` within its line. -/
def columnOf (lines : LineIndex) (offset : Int) : Nat :=
  let offset := lines.clamp offset
  offset - lines.starts.getD (lines.lineOf offset - 1) 0 + 1

/-- A request for a line that the text does not have. -/
structure OutOfRange where
  line : Int
  count : Nat

/-- The wording of the failure. -/
def OutOfRange.message (e : OutOfRange) : String :=
  s!"line {e.line} out of range 1..{e.count}"

/-- The offset at which line `line` begins. -/
def lineStart (lines : LineIndex) (line : Int) : Except OutOfRange Nat :=
  if line < 1 ∨ (lines.lineCount : Int) < line then .error ⟨line, lines.lineCount⟩
  else .ok (lines.starts.getD (line.toNat - 1) 0)

/-- The index as a short text. -/
def describe (lines : LineIndex) : String :=
  s!"LineIndex(lines={lines.lineCount}, length={lines.length})"

end LineIndex

/-- The place of a span in a text: its offsets, the line and column of its start, the line
of its last character and the column just past that. -/
structure SourceLocation where
  line : Nat
  column : Nat
  offset : Int
  endOffset : Int
  endLine : Nat
  endColumn : Nat

/-- The start of the place, line before column. -/
def SourceLocation.describe (l : SourceLocation) : String :=
  s!"{l.line}:{l.column}"

/-- The place of the span from `start` up to `stop`. -/
def LineIndex.location (lines : LineIndex) (start stop : Int) : SourceLocation :=
  { line := lines.lineOf start
    column := lines.columnOf start
    offset := start
    endOffset := stop
    endLine := lines.lineOf (max start (stop - 1))
    endColumn := lines.columnOf stop }

end SourceView
