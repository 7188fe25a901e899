/-
Putting highlighted text together piece by piece.

A builder holds the parts written so far and whether a span is open.  At most one is open
at a time: opening another closes it, and so does building.
-/

namespace SourceView.Highlight

/-- The parts written so far, the last one first, and the class of the span that is open. -/
structure SpanBuilder where
  parts : List String := []
  opened : Option String := none

namespace SpanBuilder

/-- Writes markup; an empty text is no part. -/
def append (b : SpanBuilder) (text : String) : SpanBuilder :=
  if text.isEmpty then b else { b with parts := text :: b.parts }

/-- Closes the span that is open. -/
def closeSpan (b : SpanBuilder) : SpanBuilder :=
  if b.opened.isSome then ⟨"</span>" :: b.parts, none⟩ else b

/-- Opens a span of the given class. -/
def openSpan (b : SpanBuilder) (cls : String) : SpanBuilder :=
  ⟨("<span class=\"" ++ cls ++ "\">") :: b.closeSpan.parts, some cls⟩

/-- The markup written so far, with no span left open, and the builder that holds it. -/
def build (b : SpanBuilder) : String × SpanBuilder :=
  let b := b.closeSpan
  (String.join b.parts.reverse, b)

/-- The builder with nothing written. -/
def clear (_ : SpanBuilder) : SpanBuilder := {}

/-- The number of parts. -/
def size (b : SpanBuilder) : Nat :=
  b.parts.length

end SpanBuilder

end SourceView.Highlight
