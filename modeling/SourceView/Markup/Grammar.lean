/-
The grammar of markup.

A document is elements, comments and character data.  The body of a script or style element
is one token that carries the tokens of its own language; a parse of those with the grammar
of that language gives the body its children.
-/
import SourceView.Stylesheet.Grammar
import SourceView.Script.Grammar

namespace SourceView.Markup

open Parsing

/-- The grammar of the language that a raw text is in. -/
def embeddedGrammar? : String → Option (Grammar Rule)
  | "css" => some Stylesheet.grammar
  | "js" => some Script.grammar
  | _ => none

/-- The body of a raw-text element. -/
def rawText (input : Input) : Production := fun c =>
  match c.acceptKind? .rawText with
  | none => none
  | some (t, c) =>
    let plain : Node × Cursor := (.container t.start t.stop (.rawText t.language) [], c)
    if t.embedded.isEmpty then some plain
    else match embeddedGrammar? t.language with
      | none => some plain
      | some grammar =>
        let parse := grammar.parse
          { input with tokens := t.embedded, start := t.start, stop := t.stop }
        some (.container t.start t.stop (.rawText t.language) parse.tree.children,
          { c with
            faults := parse.faults.reverse ++ c.faults
            reports := parse.reports.reverse ++ c.reports })

/-- The symbols of the grammar. -/
inductive Symbol where
  | document | comment | element | text | rawText
deriving DecidableEq

namespace Symbol

/-- Every symbol. -/
def all : List Symbol := [document, comment, element, text, rawText]

/-- The name of a symbol. -/
def name : Symbol → String
  | document => "document"
  | comment => "comment"
  | element => "element"
  | text => "text"
  | rawText => "raw_text"

/-- What stands outside all elements. -/
def outer : List Symbol := [comment, element, text]

/-- What stands between the tags of an element. -/
def children : List Symbol := [comment, element, rawText, text]

end Symbol

/-- What each symbol reads, given what the symbols inside it read. -/
def derive (input : Input) (self : Symbol → Production) : Symbol → Production
  | .document => document input (choice (Symbol.outer.map self))
  | .comment => comment
  | .element => element input Dialect.markup (choice (Symbol.children.map self)) (choice [])
  | .text => text input
  | .rawText => rawText input

/-- What a symbol reads when symbols stand inside each other at most `height` deep. -/
def readWithin (input : Input) : (height : Nat) → Symbol → Production
  | 0, _ => fun _ => none
  | height + 1, symbol => derive input (readWithin input height) symbol

/-- What a symbol reads.  An element stands inside another past at least one token, so the
height suffices. -/
def read (input : Input) (symbol : Symbol) : Production :=
  readWithin input (3 * input.bound + 1) symbol

/-- The grammar of markup. -/
def grammar : Grammar Rule :=
  { name := "html", start := "document"
    rules := Symbol.all.map fun symbol => (symbol.name, fun input => read input symbol) }

end SourceView.Markup
