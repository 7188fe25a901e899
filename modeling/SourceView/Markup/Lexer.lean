/-
The lexer of markup.

Content is text, entities, comments, declarations and tags.  A start tag has attributes up
to its `>`; a quoted value is taken whole, so that a `>` inside it does not end the tag.
After the start tag of an element with raw text the text up to the matching end tag is one
token; the body of a script or style is also lexed in its own language, and the token
carries the tokens of that run.

The end tag of raw text is looked for in the lower case of the whole source.  Lower case may
be longer than the text it belongs to, so the search is by offsets of that longer text.

A structural run goes over content from one angle bracket to the next; of what it finds in
tags it keeps fewer tokens than a rich one.

Each rule is given the whole source with the bound of the run and the offset of the character
it is for.  It names the offsets at which its token begins and ends.
-/
import SourceView.Text.Blank
import SourceView.Markup.Words
import SourceView.Stylesheet.Lexer
import SourceView.Script.Lexer

namespace SourceView.Markup

open Lexing

/-! ### Characters -/

/-- Whether `c` may begin the name of a tag. -/
def isNameStart (c : Char) : Bool :=
  Text.isAsciiLetter c

/-- Whether `c` may stand in the name of a tag. -/
def isNameChar (c : Char) : Bool :=
  Text.isAlphanumeric c || c == '-' || c == '_' || c == ':' || c == '.'

/-- Whether `c` ends a piece of text. -/
def isTextStop (c : Char) : Bool :=
  c == '<' || c == '&' || isWhitespace c

/-- Whether `c` ends the name of an attribute. -/
def isAttributeStop (c : Char) : Bool :=
  ['=', '>', '/', '<', '"', '\'', '\x60'].contains c || isWhitespace c

/-- Whether `c` ends an unquoted value. -/
def isValueStop (c : Char) : Bool :=
  c == '>' || isWhitespace c

/-- Whether `c` ends a piece of what does not belong into an end tag. -/
def isJunkStop (c : Char) : Bool :=
  c == '<' || c == '>' || isWhitespace c

/-- Whether `c` may follow the name in the end tag of raw text. -/
def isRawBoundary (c : Char) : Bool :=
  c == '/' || c == '>' || isWhitespace c

/-! ### State -/

/-- A start tag that is being read: its name as written, where it began, the attributes it
has so far with the latest first, the attribute that may still get a value, and whether an
equals sign has been seen for it. -/
structure StartTag where
  name : String
  start : Nat
  attributes : List (String × String) := []
  pending : Option String := none
  afterEquals : Bool := false

namespace StartTag

/-- The tag with the attribute that waits for a value given `value`. -/
def assign (tag : StartTag) (value : String) : StartTag :=
  match tag.pending with
  | some name =>
    { tag with
      attributes := if tag.afterEquals then (name, value) :: tag.attributes else tag.attributes
      pending := none, afterEquals := false }
  | none => { tag with afterEquals := false }

/-- The value of an attribute, empty when the tag has none of that name. -/
def value (tag : StartTag) (name : String) : String :=
  (tag.attributes.lookup name).getD ""

/-- The language of the raw text that follows the tag. -/
def language (tag : StartTag) : String :=
  let name := Text.lower tag.name
  if name == "script" && !scriptTypes.contains (Text.lower (Text.strip (tag.value "type"))) then ""
  else embeddedLanguage name

end StartTag

/-- What the text ahead is read as. -/
inductive Mode where
  | content
  | attributes (tag : StartTag)
  /-- What stands after the name of an end tag that began at `start`. -/
  | endTag (name : String) (start : Nat)
  /-- The raw text after a start tag. -/
  | rawText (tag : StartTag)

/-- What a run over markup needs besides the source: whether bodies are lexed in their own
language and at which detail, and the lower case of the source, bounded as the run is. -/
structure Setting where
  embed : Bool
  detail : Detail
  lowered : Window

/-! ### Content -/

/-- Whether a tag name begins at an offset. -/
def nameAt (w : Window) (pos : Nat) : Bool :=
  (w.at? pos).any isNameStart

/-- Where the entity at an offset ends, if there is one.  The character there is an ampersand. -/
def entityEnd? (w : Window) (pos : Nat) : Option Nat :=
  if w.at? (pos + 1) == some '#' then
    let hex := w.at? (pos + 2) == some 'x' || w.at? (pos + 2) == some 'X'
    let first := if hex then pos + 3 else pos + 2
    let stop := w.skipWhile (if hex then Stylesheet.isHexDigit else Char.isDigit) first
    if first < stop && w.at? stop == some ';' then some (stop + 1) else none
  else
    let stop := w.skipWhile Text.isAlphanumeric (pos + 1)
    if w.at? stop == some ';' && entities.contains (String.ofList (w.slice (pos + 1) stop)) then
      some (stop + 1)
    else none

/-- One character of punctuation. -/
def markAt (kind : TokenKind) (pos : Nat) : Emission :=
  { kind, start := pos, stop := pos + 1, style := "punctuation" }

/-- A region that is taken whole. -/
def lookRegion (kind : TokenKind) (style what : String) (opener : Nat) (closer : List Char)
    (w : Window) (pos : Nat) : Look Mode :=
  let (region, faults) := delimitedAt kind style what opener closer w pos
  .emit region .content faults

/-- The next piece of content at an angle bracket. -/
def lookAngle (w : Window) (pos : Nat) : Look Mode :=
  if w.startsWith pos ['<', '!', '-', '-'] then
    lookRegion .comment "comment" "comment" 4 ['-', '-', '>'] w pos
  else if w.startsWith pos ['<', '!', '[', 'C', 'D', 'A', 'T', 'A', '['] then
    lookRegion .cdata "cdata" "CDATA section" 9 [']', ']', '>'] w pos
  else if w.startsWith pos ['<', '!'] then lookRegion .doctype "doctype" "declaration" 2 ['>'] w pos
  else if w.startsWith pos ['<', '?'] then
    lookRegion .processingInstruction "doctype" "processing instruction" 2 ['>'] w pos
  else if w.at? (pos + 1) == some '/' && nameAt w (pos + 2) then
    let stop := w.skipWhile isNameChar (pos + 2)
    let name := String.ofList (w.slice (pos + 2) stop)
    .emit { kind := .tagClose, start := pos, stop, style := tagStyle name } (.endTag name pos)
  else if nameAt w (pos + 1) then
    let stop := w.skipWhile isNameChar (pos + 1)
    let name := String.ofList (w.slice (pos + 1) stop)
    .emit { kind := .tagOpen, start := pos, stop, style := tagStyle name }
      (.attributes { name, start := pos })
  else .emit { kind := .text, start := pos, stop := pos + 1, style := "text" } .content

/-- The next piece of content of a rich run that no angle bracket begins. -/
def characterDataAt (w : Window) (pos : Nat) (c : Char) : Emission :=
  if c == '&' then
    match entityEnd? w pos with
    | some stop => { kind := .entity, start := pos, stop, style := "entity" }
    | none => { kind := .text, start := pos, stop := pos + 1, style := "text" }
  else match whitespaceAt? w pos c with
    | some space => space
    | none =>
      { kind := .text, start := pos, stop := w.skipUntil isTextStop (pos + 1), style := "text" }

/-- The next piece of content.  A structural run steps from one angle bracket to the next. -/
def lookContent (detail : Detail) (w : Window) (pos : Nat) (c : Char) : Look Mode :=
  if c == '<' then lookAngle w pos
  else match detail with
    | .rich => .emit (characterDataAt w pos c) .content
    | .structural => .move ((w.find? ['<'] pos).getD w.stop) .content

/-! ### Tags -/

/-- The mode after the `>` of a start tag. -/
def StartTag.body (tag : StartTag) : Mode :=
  if rawTextElements.contains (Text.lower tag.name) then .rawText tag else .content

/-- A quoted value.  Without a closing quote anywhere ahead it stops at the end of the
line. -/
def lookQuotedValue (w : Window) (tag : StartTag) (quote : Char) (pos : Nat) : Look Mode :=
  match w.find? [quote] (pos + 1) with
  | some close =>
    .emit { kind := .attributeValue, start := pos, stop := close + 1, style := "attribute-value" }
      (.attributes (tag.assign (String.ofList (w.slice (pos + 1) close))))
  | none =>
    let stop := w.skipUntil isLineBreak (pos + 1)
    .emit { kind := .error, start := pos, stop, style := "error" }
      (.attributes (tag.assign (String.ofList (w.slice (pos + 1) stop))))
      [⟨.unclosedLiteral "attribute value" quote, pos, (stop : Nat)⟩]

/-- The next piece of the attributes of a start tag.  Another angle bracket leaves the tag
unfinished. -/
def lookAttributes (w : Window) (tag : StartTag) (pos : Nat) (c : Char) : Look Mode :=
  match whitespaceAt? w pos c with
  | some space => .emit space (.attributes tag)
  | none =>
    if c == '>' then
      .emit { kind := .tagEnd, start := pos, stop := pos + 1, style := "tag" } tag.body
    else if c == '/' && w.at? (pos + 1) == some '>' then
      .emit { kind := .tagSelfCloseEnd, start := pos, stop := pos + 2, style := "tag" } .content
    else if c == '<' then
      let look := lookAngle w pos
      { look with faults := ⟨.unclosedStartTag tag.name, tag.start, pos⟩ :: look.faults }
    else if c == '=' then
      .emit (markAt .equals pos) (.attributes { tag with afterEquals := tag.pending.isSome })
    else if c == '"' || c == '\'' then lookQuotedValue w tag c pos
    else if tag.afterEquals then
      let stop := w.skipUntil isValueStop (pos + 1)
      .emit { kind := .attributeValue, start := pos, stop, style := "attribute-value" }
        (.attributes (tag.assign (String.ofList (w.slice pos stop))))
    else if c == '/' then .emit (markAt .punctuation pos) (.attributes tag)
    else
      let stop := w.skipUntil isAttributeStop (pos + 1)
      let name := String.ofList (w.slice pos stop)
      let key := Text.lower name
      .emit { kind := .attributeName, start := pos, stop
              style := if isKnownAttribute name then "attribute" else "attribute-unknown" }
        (.attributes { tag with attributes := (key, "") :: tag.attributes, pending := some key })

/-- The next piece after the name of an end tag.  Another angle bracket leaves the tag
unfinished; anything else up to the `>` is junk. -/
def lookEndTag (w : Window) (name : String) (start pos : Nat) (c : Char) : Look Mode :=
  if c == '>' then
    .emit { kind := .tagEnd, start := pos, stop := pos + 1, style := "tag" } .content
  else if c == '<' then
    let look := lookAngle w pos
    { look with faults := ⟨.unclosedEndTag name, start, pos⟩ :: look.faults }
  else match whitespaceAt? w pos c with
    | some space => .emit space (.endTag name start)
    | none =>
      .emit { kind := .text, start := pos, stop := w.skipUntil isJunkStop (pos + 1)
              style := "text" } (.endTag name start)

/-! ### Raw text -/

/-- The first of the `left` offsets from `pos` on at which an end tag of raw text stands, given by
its `</` and name. -/
def rawCloseFrom (lowered : Window) (tag : List Char) : (left pos : Nat) → Option Nat
  | 0, _ => none
  | left + 1, pos =>
    if lowered.startsWith pos tag && (lowered.at? (pos + tag.length)).all isRawBoundary then
      some pos
    else rawCloseFrom lowered tag left (pos + 1)

/-- The run over a body, from offset `start` up to `stop`, in the language of that name. -/
def lexBodyWithin (language : String) (detail : Detail) (source : Array Char) (start stop : Nat) :
    Lexing :=
  if language == "css" then Stylesheet.lexWithin detail (.upTo source (some stop)) start
  else if language == "js" then Script.lexWithin detail (.upTo source (some stop)) start
  else ⟨[], []⟩

/-- The raw text after a start tag, or content when there is none. -/
def lookRawText (setting : Setting) (w : Window) (tag : StartTag) (pos : Nat) (c : Char) :
    Look Mode :=
  let needle := '<' :: '/' :: Text.lowerChars tag.name.toList
  let stop := (rawCloseFrom setting.lowered needle (setting.lowered.stop - pos) pos).getD w.stop
  if stop ≤ pos then lookContent setting.detail w pos c
  else
    let body := if setting.embed then
        lexBodyWithin tag.language setting.detail w.source pos stop
      else ⟨[], []⟩
    .emit { kind := .rawText, start := pos, stop, style := "raw-text", language := tag.language
            embedded := body.tokens } .content body.faults

/-! ### Runs -/

/-- One look. -/
def look (setting : Setting) (w : Window) (mode : Mode) (pos : Nat) : Look Mode :=
  match w.at? pos with
  | none => .move pos mode
  | some c => match mode with
    | .content => lookContent setting.detail w pos c
    | .attributes tag => lookAttributes w tag pos c
    | .endTag name start => lookEndTag w name start pos c
    | .rawText tag => lookRawText setting w tag pos c

/-- The tag that is unfinished at the end of the text. -/
def finish (mode : Mode) (pos : Nat) : List Fault :=
  match mode with
  | .content | .rawText _ => []
  | .attributes tag => [⟨.unclosedStartTag tag.name, tag.start, pos⟩]
  | .endTag name start => [⟨.unclosedEndTag name, start, pos⟩]

/-- The lexer of markup. -/
def lexer (setting : Setting) : Lexer Mode :=
  { look := look setting, finish }

/-- The run over the window from offset `start` on. -/
def lexWithin (detail : Detail) (embed : Bool) (w : Window) (start : Nat) : Lexing :=
  let lowered := (Text.lowerChars w.source.toList).toArray
  let setting : Setting := { embed, detail, lowered := .upTo lowered (some w.stop) }
  (lexer setting).run detail w .content start

end SourceView.Markup
