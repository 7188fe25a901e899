/-
The lexer of scripts.

What a brace, a slash or an angle bracket means in a script depends on what came before it.
The state keeps what decides: the last significant piece, for telling an expression from its
continuation; the depth of open braces; and a stack of frames, one for each place where code
was entered from inside something else.  Code stands in the interpolations of a template and
in the braces of embedded markup, and the brace that ends it is the one at the depth where
it began.

Besides code the lexer is in one of four modes: in the text of a template, in the attributes
of a start tag, between the children of an element, or past the name of an end tag.

A structural run takes the same steps as a rich one, except that it does not ask what a word
is, and it keeps fewer of the tokens.

Each rule is given the whole source with the bound of the run and the offset of the character
it is for.  It names the offsets at which its token begins and ends.
-/
import SourceView.Text.Identifier
import SourceView.Script.Words
import SourceView.Lexing.Literal

namespace SourceView.Script

open Lexing

/-! ### Characters -/

/-- Whether `c` may begin an identifier. -/
def isNameStart (c : Char) : Bool :=
  Text.isLetter c || c == '_' || c == '$' || (127 < c.toNat && Text.isIdentifierStart c)

/-- Whether `c` may stand in an identifier. -/
def isNameChar (c : Char) : Bool :=
  Text.isAlphanumeric c || c == '_' || c == '$'
    || (127 < c.toNat && Text.isIdentifierContinue c)

/-- Whether `c` may stand in the name of a tag. -/
def isTagNameChar (c : Char) : Bool :=
  Text.isAlphanumeric c || c == '-' || c == '_' || c == ':' || c == '.'

/-- Whether `c` may stand in the digits of a decimal number. -/
def isNumberChar (c : Char) : Bool :=
  c.isDigit || c == '_'

/-- Whether `c` may stand in a number after the mark of its base. -/
def isRadixChar (c : Char) : Bool :=
  c.isDigit || ('a' ≤ c && c ≤ 'f') || ('A' ≤ c && c ≤ 'F')
    || ['_', 'o', 'O', 'b', 'B', 'x', 'X'].contains c

/-- Whether `c` marks the base of a number. -/
def isRadixMark (c : Char) : Bool :=
  ['x', 'X', 'b', 'B', 'o', 'O'].contains c

/-- Whether `c` ends the name of an attribute. -/
def isAttributeStop (c : Char) : Bool :=
  ['=', '>', '/', '{', '<', '"', '\''].contains c || isWhitespace c

/-- Whether `c` ends a piece of text between the children of an element. -/
def isChildStop (c : Char) : Bool :=
  c == '{' || c == '<' || isWhitespace c

/-! ### State -/

/-- Embedded markup that is being read: where it began, the names of its open elements with
the innermost first, and the name of the tag whose attributes are read. -/
structure Region where
  start : Nat
  opened : List String := []
  tag : String := ""

/-- What code was entered from. -/
inductive Context where
  /-- A template literal, at an interpolation. -/
  | template
  /-- The attributes of a start tag. -/
  | attributes (region : Region)
  /-- The children of an element. -/
  | children (region : Region)

/-- A place to return to: the brace at `depth` that ends the code, where the surrounding
construct began, and what it is. -/
structure Frame where
  context : Context
  depth : Nat
  start : Nat

/-- What the text ahead is read as. -/
inductive Mode where
  | code
  /-- The text of the template literal that began at `start`. -/
  | template (start : Nat)
  | attributes (region : Region)
  | children (region : Region)
  /-- What stands after the name of an end tag that began at `start`. -/
  | endTag (region : Region) (name : String) (start : Nat)

/-- Where in a script the text is. -/
structure LexState where
  mode : Mode := .code
  /-- The number of open braces of code. -/
  depth : Nat := 0
  /-- The places to return to, the innermost first. -/
  frames : List Frame := []
  /-- The last character of the last significant piece. -/
  lastChar : Option Char := none
  /-- The last significant piece, if it was a word. -/
  lastWord : Option (List Char) := none
  /-- The last significant piece asks for a member. -/
  afterMember : Bool := false

namespace LexState

/-- Whether pieces of this kind leave the memory of the last piece alone. -/
def isInsignificant : TokenKind → Bool
  | .whitespace | .newline | .comment | .lineComment => true
  | _ => false

/-- Whether pieces of this kind are words. -/
def isWord : TokenKind → Bool
  | .identifier | .keyword | .literal | .builtIn => true
  | _ => false

/-- The state that remembers `piece` as the last one. -/
def remember (s : LexState) (kind : TokenKind) (piece : List Char) : LexState :=
  if isInsignificant kind || piece.isEmpty then s
  else
    { s with
      lastChar := piece.getLast?
      lastWord := if isWord kind then some piece else none
      afterMember := piece == ['.'] || piece == ['?', '.'] }

/-- Whether an expression may begin here.  After a word that depends on the word; else on
the last character; at the very start one may. -/
def expressionAllowed (s : LexState) : Bool :=
  match s.lastWord with
  | some word => expressionKeywords.contains (String.ofList word)
  | none => match s.lastChar with
    | none => true
    | some c => expressionStarters.contains c

end LexState

/-- The mode after a tag of `region` is done. -/
def Region.resume (region : Region) : Mode :=
  if region.opened.isEmpty then .code else .children region

/-- The region after an end tag: the matching element and all inside it are closed; a name
that no open element has closes the innermost one. -/
def Region.close (region : Region) (name : String) : Region :=
  if region.opened.contains name then
    { region with opened := (region.opened.dropWhile (· != name)).tail }
  else { region with opened := region.opened.tail }

/-! ### What stands at an offset -/

/-- Whether a digit stands at an offset. -/
def digitAt (w : Window) (pos : Nat) : Bool :=
  (w.at? pos).any Char.isDigit

/-- Whether an identifier begins at an offset. -/
def nameAt (w : Window) (pos : Nat) : Bool :=
  (w.at? pos).any isNameStart

/-- Whether what stands at an offset makes an angle bracket before it open a tag. -/
def tagNameAt (w : Window) (pos : Nat) : Bool :=
  (w.at? pos).any fun c => Text.isAsciiLetter c || c == '>'

/-- The offset behind the slash that closes the regular expression whose body is read from offset
`pos` on, `left` of its characters at most.  The line has to hold it; a slash in brackets does
not count, nor does one after a backslash. -/
def regexEnd (w : Window) : (left : Nat) → (inBrackets : Bool) → (pos : Nat) → Option Nat
  | 0, _, _ => none
  | left + 1, inBrackets, pos =>
    match w.at? pos with
    | none => none
    | some c =>
      if c == '\\' then regexEnd w left inBrackets (pos + 2)
      else if isLineBreak c then none
      else if inBrackets then regexEnd w left (c != ']') (pos + 1)
      else if c == '/' then some (pos + 1)
      else regexEnd w left (c == '[') (pos + 1)

/-- The regular expression that the slash at an offset opens. -/
def regexAt? (w : Window) (pos : Nat) : Option Emission :=
  (regexEnd w (w.stop - (pos + 1)) false (pos + 1)).map fun closed =>
    { kind := .regex, start := pos, stop := w.skipWhile Text.isAsciiLetter closed, style := "regex" }

/-- Where the text of a template ends that is read from offset `pos` on, `left` of its characters
at most: at the closing backtick, at the next interpolation or at the end of the window.  A
backslash may step behind the end; the text ends there all the same. -/
def templateEnd (w : Window) : (left pos : Nat) → Nat
  | 0, pos => min pos w.stop
  | left + 1, pos =>
    match w.at? pos with
    | none => min pos w.stop
    | some c =>
      if c == '\\' then templateEnd w left (pos + 2)
      else if c == '\x60' || (c == '$' && w.at? (pos + 1) == some '{') then pos
      else templateEnd w left (pos + 1)

/-- Where the decimal number at an offset ends, with its fraction and exponent. -/
def decimalEnd (w : Window) (pos : Nat) : Nat :=
  let stop := w.skipWhile isNumberChar pos
  let stop := if w.at? stop == some '.' then w.skipWhile isNumberChar (stop + 1) else stop
  if w.at? stop == some 'e' || w.at? stop == some 'E' then
    let signed := w.at? (stop + 1) == some '+' || w.at? (stop + 1) == some '-'
    let exponent := if signed then stop + 2 else stop + 1
    if digitAt w exponent then w.skipWhile isNumberChar exponent else stop
  else stop

/-- The number at an offset. -/
def emitNumber (w : Window) (pos : Nat) : Emission :=
  let digits := if w.at? pos == some '0' && (w.at? (pos + 1)).any isRadixMark
    then w.skipWhile isRadixChar (pos + 2) else decimalEnd w pos
  { kind := .number, start := pos, stop := if w.at? digits == some 'n' then digits + 1 else digits
    style := "number" }

/-! ### Code -/

/-- The kind and the style of a word, which is that of a function where it is `called`. -/
def wordStyle (afterMember : Bool) (word : List Char) (called : Bool) : TokenKind × String :=
  let text := String.ofList word
  if afterMember then (.identifier, "property")
  else if keywords.contains text then (.keyword, "keyword")
  else if literals.contains text then (.literal, "literal")
  else if builtIns.contains text then (.builtIn, "builtin")
  else (.identifier, if called then "function" else "variable")

/-- The word at an offset whose name begins at `name`, at once or behind a sign.  A structural
run takes every word for an identifier. -/
def emitWord (detail : Detail) (w : Window) (s : LexState) (pos name : Nat) : Emission :=
  let stop := w.skipWhile isNameChar (name + 1)
  match detail with
  | .structural => { kind := .identifier, start := pos, stop }
  | .rich =>
    let called := w.at? (w.skipWhile isWhitespace stop) == some '('
    let (kind, style) := wordStyle s.afterMember (w.slice pos stop) called
    { kind, start := pos, stop, style }

/-- The operator at an offset. -/
def emitOperator (w : Window) (pos : Nat) : Emission :=
  match operators.find? (w.startsWith pos) with
  | some op => { kind := .operator, start := pos, stop := pos + op.length, style := "operator" }
  | none => Emission.unknown pos

/-- One character of punctuation. -/
def markAt (kind : TokenKind) (pos : Nat) : Emission :=
  { kind, start := pos, stop := pos + 1, style := "punctuation" }

/-- The parentheses and brackets, which need no memory. -/
def bracket? : Char → Option TokenKind
  | '(' => some .parenOpen
  | ')' => some .parenClose
  | '[' => some .bracketOpen
  | ']' => some .bracketClose
  | _ => none

/-- A closing brace.  At the depth of the innermost frame it ends the code that was entered
there, and the surrounding construct goes on. -/
def lookCloseBrace (s : LexState) (pos : Nat) : Look LexState :=
  let plain : Look LexState := .emit (markAt .blockClose pos) { s with depth := s.depth - 1 }
  match s.frames with
  | [] => plain
  | frame :: frames =>
    if frame.depth = s.depth then
      match frame.context with
      | .template =>
        .emit { kind := .templateExprClose, start := pos, stop := pos + 1
                style := "template-expression" }
          { s with frames, mode := .template frame.start }
      | .attributes region =>
        .emit (markAt .blockClose pos) { s with frames, mode := .attributes region }
      | .children region =>
        .emit (markAt .blockClose pos) { s with frames, mode := .children region }
    else plain

/-- The start tag at an offset, up to the end of its name. -/
def lookOpenTag (w : Window) (s : LexState) (region : Region) (pos : Nat) : Look LexState :=
  let stop := w.skipWhile isTagNameChar (pos + 1)
  let name := w.slice (pos + 1) stop
  .emit { kind := .tagOpen, start := pos, stop, style := "tag" }
    { s with mode := .attributes { region with tag := String.ofList name } }

/-- A slash: a comment, a regular expression where one may begin, or an operator. -/
def lookSlash (w : Window) (s : LexState) (pos : Nat) : Look LexState :=
  if w.at? (pos + 1) == some '/' then
    .emit { kind := .lineComment, start := pos, stop := w.skipUntil isLineBreak pos
            style := "comment" } s
  else if w.at? (pos + 1) == some '*' then
    let (comment, faults) := delimitedAt .comment "comment" "comment" 2 ['*', '/'] w pos
    .emit comment s faults
  else match (if s.expressionAllowed then regexAt? w pos else none) with
    | some regex => .emit regex s
    | none => .emit (emitOperator w pos) s

/-- The next piece of code, at the character `c`. -/
def lookCode (detail : Detail) (w : Window) (s : LexState) (pos : Nat) (c : Char) : Look LexState :=
  match whitespaceAt? w pos c with
  | some space => .emit space s
  | none =>
    if c == '/' then lookSlash w s pos
    else if c == '"' || c == '\'' then
      let (literal, faults) := quotedAt .string "string" "string literal" false c w pos
      .emit literal s faults
    else if c == '\x60' then
      .emit { kind := .templateStart, start := pos, stop := pos + 1, style := "string" }
        { s with mode := .template pos }
    else if c == '{' then .emit (markAt .blockOpen pos) { s with depth := s.depth + 1 }
    else if c == '}' then lookCloseBrace s pos
    else match bracket? c with
      | some kind => .emit (markAt kind pos) s
      | none =>
        if c == '<' && s.expressionAllowed && tagNameAt w (pos + 1) then
          lookOpenTag w s { start := pos } pos
        else if c.isDigit || (c == '.' && digitAt w (pos + 1)) then .emit (emitNumber w pos) s
        else if isNameStart c then .emit (emitWord detail w s pos pos) s
        else if c == '#' && nameAt w (pos + 1) then .emit (emitWord detail w s pos (pos + 1)) s
        else if c == ';' || c == ',' || (c == '.' && !w.startsWith pos ['.', '.', '.']) then
          .emit (markAt .punctuation pos) s
        else .emit (emitOperator w pos) s

/-! ### Templates and embedded markup -/

/-- The next piece of the template literal that began at `start`. -/
def lookTemplate (w : Window) (s : LexState) (start pos : Nat) (c : Char) : Look LexState :=
  if c == '\x60' then
    .emit { kind := .templateEnd, start := pos, stop := pos + 1, style := "string" }
      { s with mode := .code }
  else if c == '$' && w.at? (pos + 1) == some '{' then
    .emit { kind := .templateExprOpen, start := pos, stop := pos + 2, style := "template-expression" }
      { s with mode := .code, frames := ⟨.template, s.depth, start⟩ :: s.frames }
  else
    .emit { kind := .templateContent, start := pos, stop := templateEnd w (w.stop - pos) pos
            style := "string" } s

/-- The next piece of the attributes of a start tag. -/
def lookAttributes (w : Window) (s : LexState) (region : Region) (pos : Nat) (c : Char) :
    Look LexState :=
  match whitespaceAt? w pos c with
  | some space => .emit space s
  | none =>
    if c == '>' then
      let region := { region with opened := region.tag :: region.opened, tag := "" }
      .emit { kind := .tagEnd, start := pos, stop := pos + 1, style := "tag" }
        { s with mode := .children region }
    else if c == '/' && w.at? (pos + 1) == some '>' then
      .emit { kind := .tagSelfCloseEnd, start := pos, stop := pos + 2, style := "tag" }
        { s with mode := { region with tag := "" }.resume }
    else if c == '{' then
      .emit (markAt .blockOpen pos)
        { s with mode := .code, frames := ⟨.attributes region, s.depth, pos⟩ :: s.frames }
    else if c == '"' || c == '\'' then
      let (literal, faults) :=
        quotedAt .attributeValue "attribute-value" "attribute value" true c w pos
      .emit literal s faults
    else if c == '=' then .emit (markAt .equals pos) s
    else
      .emit { kind := .attributeName, start := pos, stop := w.skipUntil isAttributeStop (pos + 1)
              style := "attribute" } s

/-- The next piece between the children of an element. -/
def lookChildren (w : Window) (s : LexState) (region : Region) (pos : Nat) (c : Char) :
    Look LexState :=
  if c == '{' then
    .emit (markAt .blockOpen pos)
      { s with mode := .code, frames := ⟨.children region, s.depth, pos⟩ :: s.frames }
  else if c == '<' && w.at? (pos + 1) == some '/' then
    let stop := w.skipWhile isTagNameChar (pos + 2)
    let name := String.ofList (w.slice (pos + 2) stop)
    .emit { kind := .tagClose, start := pos, stop, style := "tag" }
      { s with mode := .endTag (region.close name) name pos }
  else if c == '<' && tagNameAt w (pos + 1) then lookOpenTag w s region pos
  else match whitespaceAt? w pos c with
    | some space => .emit space s
    | none =>
      .emit { kind := .text, start := pos, stop := w.skipUntil isChildStop (pos + 1)
              style := "text" } s

/-- The next piece of code or between the children of an element, whichever the region calls
for. -/
def lookResumed (detail : Detail) (w : Window) (s : LexState) (region : Region) (pos : Nat)
    (c : Char) : Look LexState :=
  let s := { s with mode := region.resume }
  if region.opened.isEmpty then lookCode detail w s pos c
  else lookChildren w s region pos c

/-- The next piece after the name of an end tag.  Anything but whitespace and the angle
bracket leaves the tag unfinished. -/
def lookEndTag (detail : Detail) (w : Window) (s : LexState) (region : Region) (name : String)
    (start pos : Nat) (c : Char) : Look LexState :=
  if c == '>' then
    .emit { kind := .tagEnd, start := pos, stop := pos + 1, style := "tag" }
      { s with mode := region.resume }
  else match whitespaceAt? w pos c with
    | some space => .emit space s
    | none =>
      let look := lookResumed detail w s region pos c
      { look with faults := ⟨.unclosedEndTag name, start, pos⟩ :: look.faults }

/-- The next piece, at the character `c`, as the mode has it. -/
def lookAt (detail : Detail) (w : Window) (s : LexState) (pos : Nat) (c : Char) : Look LexState :=
  match s.mode with
  | .code => lookCode detail w s pos c
  | .template start => lookTemplate w s start pos c
  | .attributes region => lookAttributes w s region pos c
  | .children region => lookChildren w s region pos c
  | .endTag region name start => lookEndTag detail w s region name start pos c

/-- The state that remembers a token as it is emitted. -/
def LexState.emitted (w : Window) (s : LexState) (e : Emission) : LexState :=
  s.remember e.kind (w.slice e.start e.stop)

/-- One look.  What is emitted is remembered. -/
def look (detail : Detail) (w : Window) (s : LexState) (pos : Nat) : Look LexState :=
  match w.at? pos with
  | none => .move pos s
  | some c =>
    let look := lookAt detail w s pos c
    { look with state := look.emissions.foldl (LexState.emitted w) look.state }

/-- What is unfinished at the end of the text: the construct that is being read, then the
templates that its code stands in, the outermost first.  Braces are left to the grammar. -/
def finish (s : LexState) (pos : Nat) : List Fault :=
  let current : List Fault := match s.mode with
    | .code | .children _ => []
    | .template start => [⟨.unclosedTemplate, start, pos⟩]
    | .attributes region => [⟨.unclosedStartTag region.tag, region.start, pos⟩]
    | .endTag _ name start => [⟨.unclosedEndTag name, start, pos⟩]
  current ++ s.frames.reverse.filterMap fun frame =>
    match frame.context with
    | .template => some ⟨.unclosedTemplate, frame.start, pos⟩
    | _ => none

/-- The lexer of scripts. -/
def lexer (detail : Detail) : Lexer LexState :=
  { look := look detail, finish }

/-- The run over the window from offset `start` on. -/
def lexWithin (detail : Detail) (w : Window) (start : Nat) : Lexing :=
  (lexer detail).run detail w {} start

end SourceView.Script
