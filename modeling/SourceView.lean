import SourceView.Config
import SourceView.Fault
import SourceView.Token
import SourceView.Text.Identifier
import SourceView.Text.Blank
import SourceView.Text.Lowercase
import SourceView.Stylesheet.Lexer
import SourceView.Markup.Lexer
import SourceView.Tree.Node
import SourceView.Stylesheet.Grammar
import SourceView.Markup.Grammar
import SourceView.Fold.Analysis
import SourceView.Highlight.Render
import SourceView.Highlight.SpanBuilder
import SourceView.Tree.Edit
import SourceView.Json.Reader
import SourceView.Json.Writer
import SourceView.Analysis
import SourceView.Digest.Algorithm
import SourceView.Record.Typed
import SourceView.Record.Fingerprint
import SourceView.Session.Ambient
import SourceView.Session.Step
import SourceView.Parsing.Navigation
import SourceView.Record.EditRule
import SourceView.Names
import SourceView.Proofs.Lexing.Run
import SourceView.Proofs.Lexing.Coverage
import SourceView.Proofs.Parsing.Grammars
import SourceView.Proofs.Parsing.Placement
import SourceView.Proofs.Parsing.Nesting
import SourceView.Proofs.Parsing.Outline
import SourceView.Proofs.Stylesheet.Boundaries
import SourceView.Proofs.Stylesheet.Addresses
import SourceView.Proofs.Stylesheet.Outline
import SourceView.Proofs.Fold.Winners
import SourceView.Proofs.Lines
import SourceView.Proofs.Fold.Candidates
import SourceView.Proofs.Stylesheet.Folds
import SourceView.Proofs.Parsing.ElementOutline
import SourceView.Proofs.Fold.Outline
import SourceView.Proofs.Fold.Passes
import SourceView.Proofs.Lexing.EndTags
import SourceView.Proofs.Lexing.Kept
import SourceView.Proofs.Script.Boundaries
import SourceView.Proofs.Script.Detail
import SourceView.Proofs.Script.Outline
import SourceView.Proofs.Highlight.Reading
import SourceView.Proofs.Highlight.Display
import SourceView.Proofs.Markup.Boundaries
import SourceView.Proofs.Markup.Detail
import SourceView.Proofs.Markup.Outline
import SourceView.Proofs.Session.Sharing
import SourceView.Proofs.Session.Settings
import SourceView.Proofs.Session.Insulation
import SourceView.Proofs.Json.RoundTrip
import SourceView.Proofs.Record.Decoding
import SourceView.Proofs.Record.RoundTrip
import SourceView.Proofs.Lexing.Shift
import SourceView.Proofs.Parsing.Recast
import SourceView.Proofs.Parsing.ElementRecast
import SourceView.Proofs.Stylesheet.Recast
import SourceView.Proofs.Script.Recast
import SourceView.Proofs.Embedding.Shift
import SourceView.Proofs.Embedding.Isolation
import SourceView.Proofs.Parsing.Ledger
import SourceView.Proofs.Stylesheet.Brackets
import SourceView.Proofs.Parsing.ElementLedger
import SourceView.Proofs.Markup.Tags
import SourceView.Proofs.Tree.Walks
import SourceView.Proofs.Parsing.Turns
import SourceView.Proofs.Lexing.Pieces
import SourceView.Proofs.Parsing.Printed
import SourceView.Proofs.Markup.Printing
import SourceView.Proofs.Markup.RoundTrip
import SourceView.Proofs.Stylesheet.Printing
import SourceView.Proofs.Stylesheet.RoundTrip
import SourceView.Proofs.Parsing.Recursion
import SourceView.Proofs.Parsing.Completion
import SourceView.Proofs.Parsing.Shape
import SourceView.Proofs.Fold.Overlap
import SourceView.Proofs.Stylesheet.Draft
import SourceView.Proofs.Stylesheet.Prefix
import SourceView.Proofs.Stylesheet.Locality
import SourceView.Proofs.Stylesheet.Edits
import SourceView.Proofs.Parsing.Trace
import SourceView.Proofs.Parsing.Traced
import SourceView.Proofs.Parsing.Passage
import SourceView.Proofs.Lexing.Solid
import SourceView.Proofs.Embedding.Pass
import SourceView.Proofs.Parsing.Closing
import SourceView.Proofs.Parsing.OutlineNesting
import SourceView.Proofs.Lexing.FaultSpans
import SourceView.Proofs.Diagnostics
import SourceView.Proofs.Script.Balance
import SourceView.Proofs.Markup.VoidElements
import SourceView.Proofs.Script.Covering
import SourceView.Proofs.Parsing.NestingLimit
import SourceView.Proofs.Record.Refusals
import SourceView.Proofs.Lexing.EmptyTokens
import SourceView.Proofs.Fold.Resolution
import SourceView.Proofs.Highlight.Breaks
import SourceView.Proofs.Text.Lowercase
import SourceView.Proofs.Markup.RawText
import SourceView.Proofs.Cache
import SourceView.Proofs.Script.Templates
import SourceView.Proofs.Stylesheet.Lookahead
import SourceView.Proofs.Stylesheet.NestedRules
import SourceView.Proofs.Script.Parameters
import SourceView.Proofs.Script.RegularExpressions
import SourceView.Proofs.Stylesheet.Heads
import SourceView.Proofs.Stylesheet.RuleBlocks
import SourceView.Proofs.Lexing.Returns
import SourceView.Proofs.Lexing.Twins
import SourceView.Proofs.Stylesheet.LineEndings
import SourceView.Proofs.Script.Offsets
import SourceView.Proofs.Script.LineEndings
import SourceView.Proofs.Lexing.LineEndings
import SourceView.Proofs.Stylesheet.Interiors
import SourceView.Proofs.Tree.Rebuilding
import SourceView.Proofs.Text.Quoted
import SourceView.Proofs.Record.Spelling
import SourceView.Proofs.Record.Fingerprints
import SourceView.Proofs.Places
import SourceView.Proofs.Tree.Orders
import SourceView.Proofs.Highlight.Markers
import SourceView.Proofs.Parsing.Backtracking
import SourceView.Proofs.Parsing.Contract
