/-
The languages.

Each language has one lexer and one grammar, and they serve both degrees of detail.
-/
import SourceView.Stylesheet.Lexer
import SourceView.Script.Lexer
import SourceView.Markup.Lexer
import SourceView.Markup.Grammar
import SourceView.Json.Basic

namespace SourceView

/-- A language whose texts can be analyzed. -/
inductive Language where
  | markup | stylesheet | script
deriving DecidableEq

namespace Language

/-- Every language. -/
def all : List Language := [markup, stylesheet, script]

/-- The short name of a language. -/
def name : Language → String
  | markup => "html"
  | stylesheet => "css"
  | script => "js"

/-- The names that callers may give, in lower case. -/
def aliases : List (String × Language) := [
  ("html", markup), ("htm", markup), ("xhtml", markup), ("markup", markup),
  ("css", stylesheet), ("stylesheet", stylesheet),
  ("js", script), ("javascript", script), ("jsx", script), ("mjs", script), ("cjs", script),
  ("script", script)]

/-- The language that a caller names, in any case and with blanks around the name. -/
def ofName? (name : String) : Option Language :=
  aliases.lookup (Text.lower (Text.strip name))

/-- A name, as messages show it, that is no language's. -/
structure Unsupported where
  shown : String
deriving DecidableEq

/-- The wording of the failure. -/
def Unsupported.message (e : Unsupported) : String :=
  s!"Unsupported language: {e.shown}"

/-- The language that a caller names by any value; only texts name one. -/
def ofJson (json : Json) : Except Unsupported Language :=
  match json with
  | .text name => match ofName? name with
    | some language => .ok language
    | none => .error ⟨json.shown⟩
  | _ => .error ⟨json.shown⟩

/-- The lexer's run over the part of `source` from offset `start` up to `stop`. -/
def lex (language : Language) (detail : Detail) (embed : Bool) (source : List Char) (start : Nat)
    (stop : Option Nat) : Lexing :=
  let w := Window.upTo source.toArray stop
  match language with
  | markup => Markup.lexWithin detail embed w start
  | stylesheet => Stylesheet.lexWithin detail w start
  | script => Script.lexWithin detail w start

/-- The grammar. -/
def grammar : Language → Parsing.Grammar Parsing.Rule
  | markup => Markup.grammar
  | stylesheet => Stylesheet.grammar
  | script => Script.grammar

end Language

end SourceView
