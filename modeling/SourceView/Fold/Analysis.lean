/-
From a tree to its fold regions.

Every node that may be folded and covers enough lines is a candidate.  The line on which a
candidate closes stays visible, so it hides the lines between its first and its last.
Several candidates often begin on one line, as a rule and its block do; one of them wins
the line: of the highest priority, then the longest, then the first one visited.
-/
import SourceView.Config
import SourceView.LineIndex
import SourceView.Fold.Region
import SourceView.Tree.Traversal

namespace SourceView.Fold

/-- A node that could be folded. -/
structure Candidate where
  startLine : Nat
  endLine : Nat
  span : Int
  kind : FoldKind
deriving DecidableEq

/-- The candidate that a node is, if it is one. -/
def candidate? (lines : LineIndex) (config : Config) (node : Node) : Option Candidate :=
  match node.foldKind? with
  | none => none
  | some kind =>
    if node.isComment && !config.foldComments then none
    else
      let startLine := lines.lineOf node.start
      let closeLine := lines.lineOf (max node.start (node.stop - 1))
      if startLine + 1 < closeLine then some ⟨startLine, closeLine - 1, node.stop - node.start, kind⟩
      else none

/-- The candidates of a tree, in the order of a visit. -/
def candidates (lines : LineIndex) (config : Config) (root : Node) : List Candidate :=
  root.visited.filterMap (candidate? lines config)

namespace Candidate

/-- The order in which candidates are considered: by their line, then the longest first. -/
def before (a b : Candidate) : Bool :=
  decide (a.startLine < b.startLine ∨ (a.startLine = b.startLine ∧ b.span ≤ a.span))

/-- The region that a winning candidate becomes. -/
def region (c : Candidate) : FoldRegion :=
  ⟨c.startLine, c.endLine, c.kind⟩

/-- The better of two candidates on a line: the later one only if its priority is higher. -/
def better (best later : Candidate) : Candidate :=
  if later.kind.rank < best.kind.rank then later else best

end Candidate

/-- The winners of the lines of candidates in order; `best` is the winner of its line so
far. -/
def winnersFrom (best : Candidate) : List Candidate → List Candidate
  | [] => [best]
  | c :: cs =>
    if c.startLine = best.startLine then winnersFrom (best.better c) cs
    else best :: winnersFrom c cs

/-- One winner for every line on which candidates in order begin. -/
def winners : List Candidate → List Candidate
  | [] => []
  | c :: cs => winnersFrom c cs

/-- The regions that candidates come down to, by their first lines. -/
def resolve (cs : List Candidate) : List FoldRegion :=
  (winners (cs.mergeSort Candidate.before)).map Candidate.region

/-- The fold regions of a tree over a text. -/
def regions (lines : LineIndex) (config : Config) (root : Node) : List FoldRegion :=
  resolve (candidates lines config root)

end SourceView.Fold
