/-
What a session notes about its work: messages for whoever follows it, and counters for
whoever measures it.
-/
import SourceView.Language
import SourceView.Fault

namespace SourceView

/-! ### Messages -/

/-- The part of the work that a message is about. -/
inductive LogChannel where
  | engine | parsing
deriving DecidableEq

/-- A message. -/
inductive LogEntry where
  /-- A parse in a grammar noted faults. -/
  | parsed (report : Parsing.Report)
  /-- A run was done. -/
  | finished (language : Language) (detail : Detail) (length tokens folds faults : Nat)
  /-- A run found something wrong with its text. -/
  | found (language : Language) (diagnostic : Diagnostic)
  /-- A run was answered with an earlier result. -/
  | answered (language : Language) (detail : Detail)

namespace LogEntry

/-- The part of the work that a message is about. -/
def channel : LogEntry → LogChannel
  | parsed _ => .parsing
  | _ => .engine

/-- The wording of a message. -/
def text : LogEntry → String
  | parsed report => s!"{report.grammar} parse recorded {report.faults} error(s)"
  | finished language detail length tokens folds faults =>
    s!"{language.name} {detail.name} run: {length} chars, {tokens} tokens, {folds} folds, {faults} errors"
  | found language diagnostic => s!"{language.name}: {diagnostic.text}"
  | answered language detail => s!"{language.name} {detail.name} run answered from cache"

end LogEntry

/-- The name of a channel of messages below a root; a name that stands below the root already
stays as it is. -/
def channelName (root name : String) : String :=
  if name = root || (root ++ ".").toList.isPrefixOf name.toList then name
  else root ++ "." ++ name

/-! ### Counters -/

/-- What was done while it was measured. -/
structure Counters where
  runs : Nat := 0
  outlines : Nat := 0
  cacheHits : Nat := 0
  length : Nat := 0
  tokens : Nat := 0
  nodes : Nat := 0
  folds : Nat := 0
  faults : Nat := 0

namespace Counters

/-- Counts a run of the given size. -/
def addRun (c : Counters) (detail : Detail) (length tokens nodes folds faults : Nat) : Counters :=
  { c with
    runs := c.runs + if detail = .rich then 1 else 0
    outlines := c.outlines + if detail = .structural then 1 else 0
    length := c.length + length, tokens := c.tokens + tokens, nodes := c.nodes + nodes
    folds := c.folds + folds, faults := c.faults + faults }

/-- Counts a run that was answered with an earlier result. -/
def addHit (c : Counters) : Counters :=
  { c with cacheHits := c.cacheHits + 1 }

end Counters

end SourceView
