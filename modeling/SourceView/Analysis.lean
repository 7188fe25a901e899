/-
The analysis of a source text.

There are two, at two costs.  The full analysis classifies every character, builds the whole
tree, highlights the lines and finds the fold regions.  The outline looks at nothing but
nesting, and gives the tree of that and its fold regions; it is cheap enough for every
keystroke.

No text is refused.  Whatever is wrong with it is among the diagnostics, in the order of
the text, those of the lexer before those of the grammar where both point to one place.
-/
import SourceView.Language
import SourceView.Fold.Analysis
import SourceView.Highlight.Render

namespace SourceView

/-- What the lexer and the grammar of a language make of a text. -/
structure Pass where
  lexing : Lexing
  parse : Parsing.Parse
  lines : LineIndex

/-- A pass over a whole text. -/
def Language.pass (language : Language) (config : Config) (detail : Detail) (source : List Char) :
    Pass :=
  let lexing := language.lex detail config.embeddedLanguages source 0 none
  let input : Parsing.Input :=
    { tokens := lexing.tokens, source, detail, config, start := 0, stop := source.length }
  { lexing, parse := language.grammar.parse input, lines := LineIndex.ofChars source }

/-- Diagnostics in the order of the text; those of one place stay in their order. -/
def Diagnostic.inOrder (diagnostics : List Diagnostic) : List Diagnostic :=
  diagnostics.mergeSort fun d e => decide (d.start ≤ e.start)

namespace Pass

/-- What is wrong with the text. -/
def diagnostics (p : Pass) : List Diagnostic :=
  Diagnostic.inOrder
    (p.lexing.faults.map (·.diagnostic .lexical p.lines)
      ++ p.parse.faults.map (·.diagnostic .structural p.lines))

/-- The fold regions of the tree. -/
def folds (p : Pass) (config : Config) : List FoldRegion :=
  Fold.regions p.lines config p.parse.tree

end Pass

/-- The nesting of a text. -/
structure Outline where
  language : Language
  tree : Node
  folds : List FoldRegion := []
  diagnostics : List Diagnostic := []
deriving DecidableEq

/-- The full analysis of a text. -/
structure Analysis where
  language : Language
  /-- The tokens of the text and, in the place of raw text, those of its own language. -/
  tokens : List Token
  tree : Node
  /-- The lines, highlighted. -/
  lines : List String := []
  folds : List FoldRegion := []
  diagnostics : List Diagnostic := []

/-- The highlighted text: its lines with a line break between neighbours. -/
def Analysis.highlighted (a : Analysis) : String :=
  "\n".intercalate a.lines

namespace Pass

/-- The outline that a pass gives. -/
def outline (p : Pass) (language : Language) (config : Config) : Outline :=
  { language, tree := p.parse.tree, folds := p.folds config, diagnostics := p.diagnostics }

/-- The full analysis that a pass gives. -/
def analysis (p : Pass) (language : Language) (config : Config) (source : String) : Analysis :=
  let tokens := Token.flatten p.lexing.tokens
  { language, tokens, tree := p.parse.tree, lines := Highlight.lines config source tokens
    folds := p.folds config, diagnostics := p.diagnostics }

end Pass

namespace Language

/-- The full analysis of a text. -/
def analyze (language : Language) (config : Config) (source : String) : Analysis :=
  (language.pass config .rich source.toList).analysis language config source

/-- The outline of a text. -/
def outline (language : Language) (config : Config) (source : String) : Outline :=
  (language.pass config .structural source.toList).outline language config

/-- The tokens that highlighting goes by. -/
def highlightTokens (language : Language) (config : Config) (source : String) : List Token :=
  (language.lex .rich config.embeddedLanguages source.toList 0 none).tokens

/-- The highlighted text. -/
def highlight (language : Language) (config : Config) (source : String) : String :=
  Highlight.document config source (language.highlightTokens config source)

/-- The highlighted lines. -/
def highlightLines (language : Language) (config : Config) (source : String) : List String :=
  Highlight.lines config source (language.highlightTokens config source)

end Language

end SourceView
