/-
Settings of an analysis.
-/

namespace SourceView

/-- What a caller may choose about an analysis. -/
structure Config where
  /-- Class of every marked piece; the piece's style is added to it after a hyphen. -/
  classPrefix : String := "cp-token"
  /-- Put runs of spaces and runs of tabs into marker spans of their own. -/
  markWhitespace : Bool := true
  /-- What stands for a line that would be empty. -/
  emptyLine : String := "<br>"
  /-- Offer comments over several lines as fold regions. -/
  foldComments : Bool := true
  /-- Analyze the bodies of script and style elements in their own language. -/
  embeddedLanguages : Bool := true
  /-- Let start tags and end of input end the elements whose end tag may be left out. -/
  impliedEndTags : Bool := true
deriving DecidableEq

/-- The settings that hold when a caller chooses nothing. -/
def Config.default : Config := {}

end SourceView
