/-
Settings around the work.

Settings reach a component on two ways.  They may be handed over to it; else it takes those
that are around when it is made.  The lexer of markup is only ever made in the second way.
An engine therefore puts its own settings around all that it does, and afterwards puts back
whatever was there before.
-/
import SourceView.Session.Engine

namespace SourceView

/-- Work with settings around it, which it may look at and replace. -/
abbrev Ambient := StateM Config

namespace Ambient

/-- The settings to go by: those that were handed over, or else those around. -/
def settings : Option Config → Ambient Config
  | some own => pure own
  | none => get

/-- Work with these settings around it.  Those before come back after it. -/
def within (config : Config) (work : Ambient α) : Ambient α := do
  let earlier ← get
  set config
  let result ← work
  set earlier
  return result

/-- What the work gives, and the settings around after it. -/
def perform (work : Ambient α) (config : Config) : α × Config :=
  (StateT.run work config).run

end Ambient

/-- The lexing of a text.  The lexer of markup looks at the settings around for whether it lexes
the bodies of script and style elements. -/
def Language.tokenize (language : Language) (detail : Detail) (source : List Char) :
    Ambient Lexing := do
  let w := Window.upTo source.toArray none
  match language with
  | markup =>
    let config ← Ambient.settings none
    return Markup.lexWithin detail config.embeddedLanguages w 0
  | stylesheet => return Stylesheet.lexWithin detail w 0
  | script => return Script.lexWithin detail w 0

/-- The parse of the tokens of a text. -/
def Language.parse (language : Language) (own : Option Config) (detail : Detail)
    (source : List Char) (tokens : List Token) : Ambient Parsing.Parse := do
  let config ← Ambient.settings own
  return language.grammar.parse
    { tokens, source, detail, config, start := 0, stop := source.length }

/-- The fold regions of a tree. -/
def Fold.analyze (own : Option Config) (lines : LineIndex) (tree : Node) :
    Ambient (List FoldRegion) := do
  let config ← Ambient.settings own
  return Fold.regions lines config tree

namespace Highlight

/-- The highlighted lines of a text. -/
def renderLines (own : Option Config) (source : String) (tokens : List Token) :
    Ambient (List String) := do
  let config ← Ambient.settings own
  return Highlight.lines config source tokens

/-- The highlighted text. -/
def renderDocument (own : Option Config) (source : String) (tokens : List Token) :
    Ambient String := do
  let config ← Ambient.settings own
  return Highlight.document config source tokens

end Highlight

namespace Engine

/-- The result of a run that is done, what is told about it, and what it adds to counters. -/
def finish (e : Engine) (detail : Detail) (length tokens : Nat) (pass : Pass) (outcome : Outcome) :
    Run where
  outcome := outcome
  log := e.report detail length tokens pass outcome
  count := fun c => c.addRun detail length tokens outcome.tree.count outcome.folds.length
    outcome.diagnostics.length

/-- A run among settings. -/
def work (e : Engine) (detail : Detail) (source : String) : Ambient Run := do
  let chars := source.toList
  let (pass, outcome, tokens) ← Ambient.within e.config do
    let lexing ← e.language.tokenize detail chars
    let parse ← e.language.parse (some e.config) detail chars lexing.tokens
    let pass : Pass := { lexing, parse, lines := LineIndex.ofChars chars }
    let folds ← Fold.analyze (some e.config) pass.lines parse.tree
    match detail with
    | .rich =>
      let tokens := Token.flatten lexing.tokens
      let lines ← Highlight.renderLines (some e.config) source tokens
      let analysis : Analysis :=
        { language := e.language, tokens, tree := parse.tree, lines, folds
          diagnostics := pass.diagnostics }
      return (pass, Outcome.analysis analysis, tokens.length)
    | .structural =>
      let outline : Outline :=
        { language := e.language, tree := parse.tree, folds, diagnostics := pass.diagnostics }
      return (pass, Outcome.outline outline, lexing.tokens.length)
  return e.finish detail chars.length tokens pass outcome

/-- The highlighted text, among settings. -/
def highlight (e : Engine) (source : String) : Ambient String := do
  let lexing ← Ambient.within e.config (e.language.tokenize .rich source.toList)
  Highlight.renderDocument (some e.config) source lexing.tokens

/-- The highlighted lines, among settings. -/
def highlightLines (e : Engine) (source : String) : Ambient (List String) := do
  let lexing ← Ambient.within e.config (e.language.tokenize .rich source.toList)
  Highlight.renderLines (some e.config) source lexing.tokens

end Engine

end SourceView
