/-
Fold regions.

A region is a range of lines that an editor may collapse: its first line stays visible with
a marker, the lines after it up to its last are hidden.  Regions are told apart by their
lines; the kind says what was folded and takes no part in a comparison.

Between two runs an editor keeps what its user has collapsed.  The difference of two lists
of regions says which regions are still there.
-/
import SourceView.Tree.Node

namespace SourceView

/-- A range of lines that may be collapsed. -/
structure FoldRegion where
  startLine : Int
  endLine : Int
  kind : FoldKind := .block
deriving DecidableEq

namespace FoldRegion

/-- The lines of a region: that of the marker and the last one hidden. -/
def lines (r : FoldRegion) : Int × Int :=
  (r.startLine, r.endLine)

/-- How many lines collapsing the region hides. -/
def hiddenCount (r : FoldRegion) : Int :=
  r.endLine - r.startLine

/-- Whether two regions have the same lines. -/
def sameLines (r s : FoldRegion) : Bool :=
  r.lines == s.lines

/-- The order of regions: by the first line, then by the last. -/
def before (r s : FoldRegion) : Bool :=
  decide (r.startLine < s.startLine ∨ (r.startLine = s.startLine ∧ r.endLine ≤ s.endLine))

/-- The regions in order; those with the same lines stay as they were. -/
def sorted (regions : List FoldRegion) : List FoldRegion :=
  regions.mergeSort before

/-- How many ranges of lines the regions have between them. -/
def distinctCount (regions : List FoldRegion) : Nat :=
  (regions.map lines).eraseDups.length

end FoldRegion

/-- What became of the regions of an earlier run. -/
structure FoldDiff where
  /-- Regions of the later run whose lines were there before. -/
  kept : List FoldRegion := []
  /-- Regions of the later run whose lines are new. -/
  added : List FoldRegion := []
  /-- Regions of the earlier run whose lines are gone. -/
  removed : List FoldRegion := []

namespace FoldDiff

/-- Whether any region came or went. -/
def changed (d : FoldDiff) : Bool :=
  !d.added.isEmpty || !d.removed.isEmpty

/-- The difference from the regions of one run to those of a later one. -/
def between (previous current : List FoldRegion) : FoldDiff :=
  { kept := current.filter fun r => previous.any r.sameLines
    added := current.filter fun r => !previous.any r.sameLines
    removed := previous.filter fun r => !current.any r.sameLines }

end FoldDiff

end SourceView
