/-
Elements, of markup and of markup inside scripts.

Both are written with the same tokens, so one production reads both; a dialect says where
they differ.

An end tag of the element's own name closes it.  The end tag of an element further out ends
the current one without closing it, which is a fault unless its end tag may be left out.  A
start tag may also end the current element, silently: a list item ends at the next one.
Any other end tag is a fault of its own and is passed.
-/
import SourceView.Markup.Words
import SourceView.Parsing.Production

namespace SourceView.Parsing

/-- Where the elements of two languages differ. -/
structure Dialect where
  /-- Names are reported in lower case. -/
  foldCase : Bool
  /-- Names of elements that never have content. -/
  voidElements : List String
  /-- End tags may be left out where the language implies them. -/
  impliedEnd : Bool

namespace Dialect

/-- The elements of markup. -/
def markup : Dialect := ⟨true, Markup.voidElements, true⟩

/-- The elements inside scripts. -/
def script : Dialect := ⟨false, [], false⟩

/-- A name as the dialect reports it. -/
def name (d : Dialect) (written : String) : String :=
  if d.foldCase then Text.lower written else written

/-- Whether end tags are left out by this dialect and these settings. -/
def implies (d : Dialect) (input : Input) : Bool :=
  d.impliedEnd && input.config.impliedEndTags

end Dialect

/-! ### Start tags -/

/-- A text without the quotes around it; the quote at the end may be missing. -/
def unquote (text : String) : String :=
  let isQuote (c : Char) : Bool := c == '\'' || c == '"'
  match text.toList with
  | [] => text
  | c :: rest =>
    if isQuote c then
      String.ofList (if rest.getLast?.any isQuote then rest.dropLast else rest)
    else text

/-- An attribute, the node of its value if that is an expression, and the cursor after
it. -/
structure AttributeRead where
  node : Node
  expression : Option Node := none
  cursor : Cursor

/-- Reads what may follow the name of an attribute: an equals sign and a value. -/
def readAttribute (input : Input) (d : Dialect) (expression : Production) (name : Token) (c : Cursor) :
    AttributeRead :=
  let named (stop : Int) (value : Option String) : Node :=
    .leaf name.start stop (.attribute (d.name name.value) value)
  match c.skipTrivia.acceptKind? .equals with
  | none => { node := named name.stop none, cursor := c }
  | some (equals, c) =>
    let c := c.skipTrivia
    let other : AttributeRead := match expression c with
      | some (node, c) =>
        { node := named node.stop (some (input.text node.start node.stop))
          expression := some node, cursor := c }
      | none => { node := named equals.stop (some ""), cursor := c }
    match c.peek? with
    | some t =>
      if t.kind = .attributeValue ∨ t.kind = .error then
        { node := named t.stop (some (unquote t.value)), cursor := c.advance }
      else other
    | none => other

/-- What a start tag holds: the kind of the token that ended it, if one did, its attributes
and expressions, and the cursor after it. -/
structure StartTag where
  ending : Option TokenKind
  attributes : List Node
  expressions : List Node
  cursor : Cursor

/-- Reads a start tag from its name on. -/
def startTagLoop (input : Input) (d : Dialect) (expression : Production) :
    (turns : Nat) → Cursor → StartTag
  | 0, c => ⟨none, [], [], c⟩
  | turns + 1, c =>
    let c := c.skipTrivia
    match c.peek? with
    | none => ⟨none, [], [], c⟩
    | some t =>
      if t.kind = .tagEnd ∨ t.kind = .tagSelfCloseEnd then ⟨some t.kind, [], [], c.advance⟩
      else if t.kind = .attributeName then
        let read := readAttribute input d expression t c.advance
        let more := startTagLoop input d expression turns read.cursor
        { more with
          attributes := read.node :: more.attributes
          expressions := read.expression.toList ++ more.expressions }
      else if t.kind = .tagOpen ∨ t.kind.isCloser then ⟨none, [], [], c⟩
      else
        match expression c with
        | some (node, c) =>
          let more := startTagLoop input d expression turns c
          { more with expressions := node :: more.expressions }
        | none => startTagLoop input d expression turns c.advance

/-! ### Content -/

/-- The content of an element: its children, whether its end tag was there, where it ends,
and the cursor after it. -/
structure Content where
  children : List Node
  closed : Bool
  stop : Int
  cursor : Cursor

/-- An open element: the token of its start tag, its name in lower case, and whether its end
tag may be left out. -/
structure OpenElement where
  opener : Token
  key : String
  optional : Bool

namespace OpenElement

/-- The name as the start tag writes it. -/
def written (e : OpenElement) : String :=
  tagName e.opener

/-- Notes a fault, unless the end tag may be left out. -/
def complain (e : OpenElement) (cause : Anomaly) (blame : Token) (c : Cursor) : Cursor :=
  if e.optional then c else c.note cause blame.start blame.stop

end OpenElement

/-- What is wrong when a closer of a container further out ends an element. -/
def OpenElement.interruptedBy (e : OpenElement) (t : Token) : Anomaly :=
  if t.kind = .tagClose then .mismatchedTag e.written (tagName t) else .unclosedElement e.written

/-- Whether a token opens an element that ends the open one, whose end tag is implied there. -/
def OpenElement.endsBefore (e : OpenElement) (d : Dialect) (input : Input) (t : Token) : Bool :=
  t.kind == .tagOpen && d.implies input && Markup.impliesEnd e.key (Text.lower (tagName t))

/-- Reads content up to the end tag, or up to whatever else ends the element. -/
def contentLoop (input : Input) (d : Dialect) (child : Production) (e : OpenElement) :
    (turns : Nat) → Cursor → Content
  | 0, c => ⟨[], false, input.stop, c⟩
  | turns + 1, c =>
    let c := c.skipTrivia
    match c.peek? with
    | none => ⟨[], false, input.stop, e.complain (.unclosedElement e.written) e.opener c⟩
    | some t =>
      if t.kind = .tagClose ∧ Text.lower (tagName t) = e.key then
        let c := c.pastEndTag
        ⟨[], true, c.previousEnd input, c⟩
      else if t.kind.isCloser then
        match c.recover? t with
        | some c => contentLoop input d child e turns c
        | none => ⟨[], false, t.start, e.complain (e.interruptedBy t) t c⟩
      else if e.endsBefore d input t then
        ⟨[], false, t.start, c⟩
      else
        match child c with
        | some (node, c) =>
          let more := contentLoop input d child e turns c
          { more with children := node :: more.children }
        | none => contentLoop input d child e turns c.advance

/-- An element: a start tag, and content up to its end unless it has none. -/
def element (input : Input) (d : Dialect) (child expression : Production) : Production := fun c =>
  match c.acceptKind? .tagOpen with
  | none => none
  | some (opener, c) =>
    let written := tagName opener
    let key := Text.lower written
    let name := d.name written
    let tag := startTagLoop input d expression input.bound c
    let c := tag.cursor
    if tag.ending = some .tagSelfCloseEnd ∨ (tag.ending = some .tagEnd ∧ d.voidElements.contains key) then
      some (.element opener.start (c.previousEnd input) { name, selfClosing := true }
        tag.attributes tag.expressions, c)
    else if c.tooDeep then
      let c := c.note .tooDeep opener.start opener.stop
      some (.element opener.start (c.previousEnd input) { name, closed := false }
        tag.attributes tag.expressions, c)
    else
      let e : OpenElement :=
        { opener, key, optional := d.implies input && Markup.optionalEndTags.contains key }
      let opened := c.push { closer := .tagClose, name := some key, start := opener.start }
      let content := contentLoop input d child e input.bound opened
      some (.element opener.start content.stop { name, closed := content.closed }
        tag.attributes (tag.expressions ++ content.children), content.cursor.closeTo c)

end SourceView.Parsing
