/-
Engines: a language with settings of its own, and how they share a cache.

An engine keeps the settings that it was made with.  Its results may be kept in a cache
that it shares with other engines, under a key of everything that the result depends on:
the text, the language, the degree of detail and the settings.
-/
import SourceView.Analysis
import SourceView.Cache
import SourceView.Record.Fingerprint
import SourceView.Session.Log

namespace SourceView

/-- A language with the settings that its texts are analyzed by. -/
structure Engine where
  language : Language
  config : Config
deriving DecidableEq

/-- The result of a run. -/
inductive Outcome where
  | analysis (a : Analysis)
  | outline (o : Outline)

namespace Outcome

/-- The class of the record of a result. -/
def recordClass : Outcome → RecordClass
  | analysis _ => .analysis
  | outline _ => .outline

/-- The tree of a result. -/
def tree : Outcome → Node
  | analysis a => a.tree
  | outline o => o.tree

/-- The fold regions of a result. -/
def folds : Outcome → List FoldRegion
  | analysis a => a.folds
  | outline o => o.folds

/-- The diagnostics of a result. -/
def diagnostics : Outcome → List Diagnostic
  | analysis a => a.diagnostics
  | outline o => o.diagnostics

end Outcome

/-- The key of a result: the digest of the text, and what else the result depends on. -/
structure ResultKey where
  content : String
  circumstances : String
deriving DecidableEq

namespace Engine

/-- What else a result of the engine depends on, as it stands in its key. -/
def circumstances (e : Engine) (detail : Detail) : String :=
  s!"{e.language.name}:{detail.name}:{e.config.fingerprint}"

/-- The key of a result of the engine, if the text has a digest. -/
def key (e : Engine) (detail : Detail) (source : String) : Except Unencodable ResultKey := do
  let content ← Digest.contentHash (Text.codePoints source)
  return { content, circumstances := e.circumstances detail }

/-- What a pass makes of a text at a degree of detail, and how many tokens count for it. -/
def outcomeOf (e : Engine) (detail : Detail) (source : String) (pass : Pass) : Outcome × Nat :=
  match detail with
  | .rich =>
    let a := pass.analysis e.language e.config source
    (.analysis a, a.tokens.length)
  | .structural => (.outline (pass.outline e.language e.config), pass.lexing.tokens.length)

/-- What is told about a run that was done. -/
def report (e : Engine) (detail : Detail) (length tokens : Nat) (pass : Pass) (outcome : Outcome) :
    List LogEntry :=
  pass.parse.reports.map .parsed
    ++ .finished e.language detail length tokens outcome.folds.length outcome.diagnostics.length
      :: outcome.diagnostics.map (.found e.language)

/-- A run: its result, what is told about it, and what it adds to counters. -/
structure Run where
  outcome : Outcome
  log : List LogEntry
  count : Counters → Counters

/-- The run over a text. -/
def run (e : Engine) (detail : Detail) (source : String) : Run :=
  let chars := source.toList
  let pass := e.language.pass e.config detail chars
  let (outcome, tokens) := e.outcomeOf detail source pass
  { outcome, log := e.report detail chars.length tokens pass outcome
    count := fun c => c.addRun detail chars.length tokens outcome.tree.count outcome.folds.length
      outcome.diagnostics.length }

end Engine

/-- A result and the turn in which it was made. -/
structure Stamped where
  turn : Nat
  outcome : Outcome

/-- The cache that engines share. -/
abbrev ResultCache := Cache ResultKey Stamped

end SourceView
