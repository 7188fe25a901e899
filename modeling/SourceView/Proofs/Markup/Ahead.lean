/-
The rules of markup, told by the text ahead.

The rules take the characters from the offset to the bound of the run, and name how many of them
their token takes.
-/
import SourceView.Markup.Lexer
import SourceView.Proofs.Stylesheet.Ahead
import SourceView.Proofs.Script.Ahead

namespace SourceView.Markup

open Lexing

/-- Whether a tag name begins at the start of `text`. -/
def startsName (text : List Char) : Bool :=
  text.head?.any isNameStart

/-- What a run over markup needs besides the text: whether bodies are lexed in their own
language and at which detail, and the lower case of the source up to the end of the run. -/
structure Surroundings where
  embed : Bool
  detail : Detail
  lowered : List Char

/-- A piece of markup, if any comes first, the mode after it, and what is wrong. -/
structure Step where
  lexeme : Lexeme
  mode : Mode
  faults : List Fault := []

/-! ### Content -/

/-- The entity at the start of `text`, whose first character is an ampersand. -/
def entity? (text : List Char) : Option Nat :=
  let rest := text.tail
  let terminated (n : Nat) : Option Nat :=
    if (text.drop n).head? == some ';' then some (n + 1) else none
  if rest.head? == some '#' then
    let hex := rest.tail.head? == some 'x' || rest.tail.head? == some 'X'
    let first := if hex then 3 else 2
    let digits := countWhile (if hex then Stylesheet.isHexDigit else Char.isDigit) (text.drop first)
    if digits = 0 then none else terminated (first + digits)
  else
    let name := rest.takeWhile Text.isAlphanumeric
    if entities.contains (String.ofList name) then terminated (1 + name.length) else none

/-- One character of punctuation. -/
def mark (kind : TokenKind) : Lexeme :=
  { kind, length := 1, style := "punctuation" }

/-- A region that is taken whole. -/
def region (kind : TokenKind) (style what : String) (opener : Nat) (closer : List Char)
    (pos : Nat) (text : List Char) : Step :=
  let (lexeme, faults) := delimited kind style what opener closer pos text
  { lexeme, mode := .content, faults }

/-- The next piece of content at an angle bracket. -/
def scanAngle (pos : Nat) (text : List Char) : Step :=
  let rest := text.tail
  if ['!', '-', '-'].isPrefixOf rest then
    region .comment "comment" "comment" 4 ['-', '-', '>'] pos text
  else if ['!', '[', 'C', 'D', 'A', 'T', 'A', '['].isPrefixOf rest then
    region .cdata "cdata" "CDATA section" 9 [']', ']', '>'] pos text
  else if rest.head? == some '!' then region .doctype "doctype" "declaration" 2 ['>'] pos text
  else if rest.head? == some '?' then
    region .processingInstruction "doctype" "processing instruction" 2 ['>'] pos text
  else if rest.head? == some '/' && startsName rest.tail then
    let name := rest.tail.takeWhile isNameChar
    let text := String.ofList name
    { lexeme := { kind := .tagClose, length := 2 + name.length, style := tagStyle text }
      mode := .endTag text pos }
  else if startsName rest then
    let name := rest.takeWhile isNameChar
    let text := String.ofList name
    { lexeme := { kind := .tagOpen, length := 1 + name.length, style := tagStyle text }
      mode := .attributes { name := text, start := pos } }
  else { lexeme := { kind := .text, length := 1, style := "text" }, mode := .content }

/-- The next piece of content that no angle bracket begins. -/
def characterData (c : Char) (rest : List Char) : Lexeme :=
  if c == '&' then
    match entity? (c :: rest) with
    | some n => { kind := .entity, length := n, style := "entity" }
    | none => { kind := .text, length := 1, style := "text" }
  else match whitespace? (c :: rest) with
    | some lexeme => lexeme
    | none =>
      { kind := .text, length := 1 + countWhile (fun c => !isTextStop c) rest, style := "text" }

/-- The next piece of content.  What a structural run steps over is one piece of text, which it
does not keep. -/
def scanContent (detail : Detail) (pos : Nat) (c : Char) (rest : List Char) : Step :=
  if c == '<' then scanAngle pos (c :: rest)
  else
    { lexeme := match detail with
        | .rich => characterData c rest
        | .structural => { kind := .text, length := 1 + countWhile (· != '<') rest }
      mode := .content }

/-! ### Tags -/

/-- A quoted value.  Without a closing quote anywhere ahead it stops at the end of the
line. -/
def quotedValue (tag : StartTag) (quote : Char) (pos : Nat) (rest : List Char) : Step :=
  match Text.findIndex? [quote] rest with
  | some n =>
    { lexeme := { kind := .attributeValue, length := n + 2, style := "attribute-value" }
      mode := .attributes (tag.assign (String.ofList (rest.take n))) }
  | none =>
    let n := countWhile (fun c => !isLineBreak c) rest
    { lexeme := { kind := .error, length := n + 1, style := "error" }
      mode := .attributes (tag.assign (String.ofList (rest.take n)))
      faults := [⟨.unclosedLiteral "attribute value" quote, pos, (pos + (n + 1) : Nat)⟩] }

/-- The next piece of the attributes of a start tag.  Another angle bracket leaves the tag
unfinished. -/
def scanAttributes (tag : StartTag) (pos : Nat) (c : Char) (rest : List Char) : Step :=
  match whitespace? (c :: rest) with
  | some lexeme => { lexeme, mode := .attributes tag }
  | none =>
    if c == '>' then
      { lexeme := { kind := .tagEnd, length := 1, style := "tag" }, mode := tag.body }
    else if c == '/' && rest.head? == some '>' then
      { lexeme := { kind := .tagSelfCloseEnd, length := 2, style := "tag" }, mode := .content }
    else if c == '<' then
      let step := scanAngle pos (c :: rest)
      { step with faults := ⟨.unclosedStartTag tag.name, tag.start, pos⟩ :: step.faults }
    else if c == '=' then
      { lexeme := mark .equals
        mode := .attributes { tag with afterEquals := tag.pending.isSome } }
    else if c == '"' || c == '\'' then quotedValue tag c pos rest
    else if tag.afterEquals then
      let value := c :: rest.takeWhile (fun c => !isValueStop c)
      { lexeme := { kind := .attributeValue, length := value.length, style := "attribute-value" }
        mode := .attributes (tag.assign (String.ofList value)) }
    else if c == '/' then { lexeme := mark .punctuation, mode := .attributes tag }
    else
      let name := String.ofList (c :: rest.takeWhile (fun c => !isAttributeStop c))
      let key := Text.lower name
      { lexeme := { kind := .attributeName, length := name.length
                    style := if isKnownAttribute name then "attribute" else "attribute-unknown" }
        mode := .attributes
          { tag with attributes := (key, "") :: tag.attributes, pending := some key } }

/-- The next piece after the name of an end tag.  Another angle bracket leaves the tag
unfinished; anything else up to the `>` is junk. -/
def scanEndTag (name : String) (start pos : Nat) (c : Char) (rest : List Char) : Step :=
  if c == '>' then { lexeme := { kind := .tagEnd, length := 1, style := "tag" }, mode := .content }
  else if c == '<' then
    let step := scanAngle pos (c :: rest)
    { step with faults := ⟨.unclosedEndTag name, start, pos⟩ :: step.faults }
  else match whitespace? (c :: rest) with
    | some lexeme => { lexeme, mode := .endTag name start }
    | none =>
      { lexeme := { kind := .text, length := 1 + countWhile (fun c => !isJunkStop c) rest
                    style := "text" }
        mode := .endTag name start }

/-! ### Raw text -/

/-- Whether an end tag of raw text, given by its `</` and name, stands at the start of
`text`. -/
def endsRawText (tag text : List Char) : Bool :=
  tag.isPrefixOf text && (text.drop tag.length).head?.all isRawBoundary

/-- The number of characters before the first end tag of raw text. -/
def rawLength? (tag : List Char) : List Char → Option Nat
  | [] => none
  | c :: rest =>
    if endsRawText tag (c :: rest) then some 0 else (rawLength? tag rest).map (· + 1)

/-- The run over a body in the language of that name. -/
def lexBody (language : String) (detail : Detail) (pos : Nat) (text : List Char) : Lexing :=
  if language == "css" then Stylesheet.lex detail pos text
  else if language == "js" then Script.lex detail pos text
  else ⟨[], []⟩

/-- The raw text after a start tag, or content when there is none. -/
def scanRawText (surroundings : Surroundings) (tag : StartTag) (pos : Nat) (c : Char)
    (rest : List Char) : Step :=
  let text := c :: rest
  let needle := '<' :: '/' :: Text.lowerChars tag.name.toList
  let n := (rawLength? needle (surroundings.lowered.drop pos)).getD text.length
  if n = 0 then scanContent surroundings.detail pos c rest
  else
    let body := if surroundings.embed then
        lexBody tag.language surroundings.detail pos (text.take n)
      else ⟨[], []⟩
    { lexeme := { kind := .rawText, length := n, style := "raw-text", language := tag.language
                  embedded := body.tokens }
      mode := .content, faults := body.faults }

/-! ### Runs -/

/-- One look at the text ahead. -/
def scan (surroundings : Surroundings) (mode : Mode) (pos : Nat) (text : List Char) : Scan Mode :=
  match text with
  | [] => { lexemes := [], state := mode }
  | c :: rest =>
    let step := match mode with
      | .content => scanContent surroundings.detail pos c rest
      | .attributes tag => scanAttributes tag pos c rest
      | .endTag name start => scanEndTag name start pos c rest
      | .rawText tag => scanRawText surroundings tag pos c rest
    { lexemes := [step.lexeme], state := step.mode, faults := step.faults }

/-- The scanner of markup. -/
def scanner (surroundings : Surroundings) : Scanner Mode :=
  { scan := scan surroundings, finish }

/-- The run over the part of `source` from offset `start` up to `stop`. -/
def lex (detail : Detail) (embed : Bool) (source : List Char) (start : Nat) (stop : Option Nat) :
    Lexing :=
  let stop := min (stop.getD source.length) source.length
  let surroundings : Surroundings :=
    { embed, detail, lowered := (Text.lowerChars source).take stop }
  ((scanner surroundings).run 0 .content start (boundedText source start (some stop))).keep detail

end SourceView.Markup
