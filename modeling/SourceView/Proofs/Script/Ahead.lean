/-
The rules of scripts, told by the text ahead.

The rules take the characters from the offset to the bound of the run, and name how many of them
their token takes.
-/
import SourceView.Script.Lexer
import SourceView.Proofs.Lexing.Ahead

namespace SourceView.Script

open Lexing

/-- Whether a digit stands at the start of `text`. -/
def startsDigit (text : List Char) : Bool :=
  text.head?.any Char.isDigit

/-- Whether what follows an angle bracket makes it open a tag. -/
def startsTagName (text : List Char) : Bool :=
  text.head?.any fun c => Text.isAsciiLetter c || c == '>'

/-! ### Literals -/

/-- The number of characters of the body of a regular expression up to its closing slash,
if the line holds one.  A slash in brackets does not count, nor does one after a
backslash. -/
def regexBody (inBrackets : Bool) : List Char → Option Nat
  | [] => none
  | ['\\'] => none
  | '\\' :: _ :: rest => (regexBody inBrackets rest).map (· + 2)
  | c :: rest =>
    if isLineBreak c then none
    else if inBrackets then (regexBody (c != ']') rest).map (· + 1)
    else if c == '/' then some 1
    else (regexBody (c == '[') rest).map (· + 1)

theorem regexBody_cons (inBrackets : Bool) {c : Char} (hc : c ≠ '\\') (rest : List Char) :
    regexBody inBrackets (c :: rest)
      = if isLineBreak c then none
        else if inBrackets then (regexBody (c != ']') rest).map (· + 1)
        else if c == '/' then some 1
        else (regexBody (c == '[') rest).map (· + 1) :=
  regexBody.eq_4 inBrackets c rest (fun h => absurd h hc) fun _ _ h => absurd h hc

/-- The regular expression whose opening slash comes before `rest`. -/
def regex? (rest : List Char) : Option Lexeme :=
  (regexBody false rest).map fun n =>
    { kind := .regex, length := 1 + n + countWhile Text.isAsciiLetter (rest.drop n), style := "regex" }

/-- The number of characters of template text before the closing backtick or the next
interpolation. -/
def templateLength : List Char → Nat
  | [] => 0
  | ['\\'] => 1
  | '\\' :: _ :: rest => templateLength rest + 2
  | c :: rest =>
    if c == '\x60' || (c == '$' && rest.head? == some '{') then 0 else templateLength rest + 1

theorem templateLength_cons {c : Char} (hc : c ≠ '\\') (rest : List Char) :
    templateLength (c :: rest)
      = if c == '\x60' || (c == '$' && rest.head? == some '{') then 0
        else templateLength rest + 1 :=
  templateLength.eq_4 c rest (fun h => absurd h hc) fun _ _ h => absurd h hc

/-- The number of characters of the decimal number at the start of `text`, with its fraction
and exponent. -/
def decimalLength (text : List Char) : Nat :=
  let n := countWhile isNumberChar text
  let rest := text.drop n
  let n := if rest.head? == some '.' then n + 1 + countWhile isNumberChar rest.tail else n
  let rest := text.drop n
  if rest.head? == some 'e' || rest.head? == some 'E' then
    let sign := if rest.tail.head? == some '+' || rest.tail.head? == some '-' then 1 else 0
    let digits := rest.drop (1 + sign)
    if startsDigit digits then n + 1 + sign + countWhile isNumberChar digits else n
  else n

/-- The number at the start of `text`. -/
def number (text : List Char) : Lexeme :=
  let n := if text.head? == some '0' && text.tail.head?.any isRadixMark
    then 2 + countWhile isRadixChar (text.drop 2) else decimalLength text
  let n := if (text.drop n).head? == some 'n' then n + 1 else n
  { kind := .number, length := n, style := "number" }

/-! ### Code -/

/-- The kind and the style of a word with the text after it. -/
def wordKind (afterMember : Bool) (word rest : List Char) : TokenKind × String :=
  let text := String.ofList word
  if afterMember then (.identifier, "property")
  else if keywords.contains text then (.keyword, "keyword")
  else if literals.contains text then (.literal, "literal")
  else if builtIns.contains text then (.builtIn, "builtin")
  else
    let called := (rest.dropWhile isWhitespace).head? == some '('
    (.identifier, if called then "function" else "variable")

/-- The word of `first` characters and the name characters after them.  A structural run takes
every word for an identifier. -/
def word (detail : Detail) (s : LexState) (first : Nat) (text : List Char) : Lexeme :=
  let n := first + countWhile isNameChar (text.drop first)
  match detail with
  | .structural => { kind := .identifier, length := n }
  | .rich =>
    let (kind, style) := wordKind s.afterMember (text.take n) (text.drop n)
    { kind, length := n, style }

/-- The operator at the start of `text`. -/
def operator (text : List Char) : Lexeme :=
  match operator? text with
  | some op => { kind := .operator, length := op.length, style := "operator" }
  | none => Lexeme.unknown

/-- One character of punctuation. -/
def mark (kind : TokenKind) : Lexeme :=
  { kind, length := 1, style := "punctuation" }

/-- A piece of code, the state after it, and what is wrong with it. -/
structure Step where
  lexeme : Lexeme
  state : LexState
  faults : List Fault := []

/-- A closing brace.  At the depth of the innermost frame it ends the code that was entered
there, and the surrounding construct goes on. -/
def closeBrace (s : LexState) : Step :=
  let plain : Step := { lexeme := mark .blockClose, state := { s with depth := s.depth - 1 } }
  match s.frames with
  | [] => plain
  | frame :: frames =>
    if frame.depth = s.depth then
      match frame.context with
      | .template =>
        { lexeme := { kind := .templateExprClose, length := 1, style := "template-expression" }
          state := { s with frames, mode := .template frame.start } }
      | .attributes region =>
        { lexeme := mark .blockClose, state := { s with frames, mode := .attributes region } }
      | .children region =>
        { lexeme := mark .blockClose, state := { s with frames, mode := .children region } }
    else plain

/-- The start tag at the start of `text`, up to the end of its name. -/
def openTag (s : LexState) (region : Region) (text : List Char) : Step :=
  let name := text.tail.takeWhile isTagNameChar
  { lexeme := { kind := .tagOpen, length := 1 + name.length, style := "tag" }
    state := { s with mode := .attributes { region with tag := String.ofList name } } }

/-- A slash: a comment, a regular expression where one may begin, or an operator. -/
def scanSlash (s : LexState) (pos : Nat) (text : List Char) : Step :=
  let rest := text.tail
  if rest.head? == some '/' then
    { lexeme := { kind := .lineComment, length := countWhile (fun c => !isLineBreak c) text
                  style := "comment" }
      state := s }
  else if rest.head? == some '*' then
    let (lexeme, faults) := delimited .comment "comment" "comment" 2 ['*', '/'] pos text
    { lexeme, state := s, faults }
  else match (if s.expressionAllowed then regex? rest else none) with
    | some lexeme => { lexeme, state := s }
    | none => { lexeme := operator text, state := s }

/-- The next piece of code, at the character `c`. -/
def scanCode (detail : Detail) (s : LexState) (pos : Nat) (c : Char) (rest : List Char) : Step :=
  match whitespace? (c :: rest) with
  | some lexeme => { lexeme, state := s }
  | none =>
    if c == '/' then scanSlash s pos (c :: rest)
    else if c == '"' || c == '\'' then
      let (lexeme, faults) := quotedLiteral .string "string" "string literal" false c pos rest
      { lexeme, state := s, faults }
    else if c == '\x60' then
      { lexeme := { kind := .templateStart, length := 1, style := "string" }
        state := { s with mode := .template pos } }
    else if c == '{' then
      { lexeme := mark .blockOpen, state := { s with depth := s.depth + 1 } }
    else if c == '}' then closeBrace s
    else match bracket? c with
      | some kind => { lexeme := mark kind, state := s }
      | none =>
        if c == '<' && s.expressionAllowed && startsTagName rest then
          openTag s { start := pos } (c :: rest)
        else if c.isDigit || (c == '.' && startsDigit rest) then
          { lexeme := number (c :: rest), state := s }
        else if isNameStart c then { lexeme := word detail s 1 (c :: rest), state := s }
        else if c == '#' && rest.head?.any isNameStart then
          { lexeme := word detail s 2 (c :: rest), state := s }
        else if c == ';' || c == ',' || (c == '.' && !(Text.startsWith rest ['.', '.'])) then
          { lexeme := mark .punctuation, state := s }
        else { lexeme := operator (c :: rest), state := s }

/-! ### Templates and embedded markup -/

/-- The next piece of the template literal that began at `start`. -/
def scanTemplate (s : LexState) (start : Nat) (c : Char) (rest : List Char) : Step :=
  if c == '\x60' then
    { lexeme := { kind := .templateEnd, length := 1, style := "string" }
      state := { s with mode := .code } }
  else if c == '$' && rest.head? == some '{' then
    { lexeme := { kind := .templateExprOpen, length := 2, style := "template-expression" }
      state := { s with mode := .code, frames := ⟨.template, s.depth, start⟩ :: s.frames } }
  else
    { lexeme := { kind := .templateContent, length := templateLength (c :: rest), style := "string" }
      state := s }

/-- The next piece of the attributes of a start tag. -/
def scanAttributes (s : LexState) (region : Region) (pos : Nat) (c : Char) (rest : List Char) :
    Step :=
  match whitespace? (c :: rest) with
  | some lexeme => { lexeme, state := s }
  | none =>
    if c == '>' then
      let region := { region with opened := region.tag :: region.opened, tag := "" }
      { lexeme := { kind := .tagEnd, length := 1, style := "tag" }
        state := { s with mode := .children region } }
    else if c == '/' && rest.head? == some '>' then
      { lexeme := { kind := .tagSelfCloseEnd, length := 2, style := "tag" }
        state := { s with mode := { region with tag := "" }.resume } }
    else if c == '{' then
      { lexeme := mark .blockOpen
        state := { s with mode := .code, frames := ⟨.attributes region, s.depth, pos⟩ :: s.frames } }
    else if c == '"' || c == '\'' then
      let (lexeme, faults) :=
        quotedLiteral .attributeValue "attribute-value" "attribute value" true c pos rest
      { lexeme, state := s, faults }
    else if c == '=' then { lexeme := mark .equals, state := s }
    else
      { lexeme := { kind := .attributeName, style := "attribute"
                    length := 1 + countWhile (fun c => !isAttributeStop c) rest }
        state := s }

/-- The next piece between the children of an element. -/
def scanChildren (s : LexState) (region : Region) (pos : Nat) (c : Char) (rest : List Char) :
    Step :=
  if c == '{' then
    { lexeme := mark .blockOpen
      state := { s with mode := .code, frames := ⟨.children region, s.depth, pos⟩ :: s.frames } }
  else if c == '<' && rest.head? == some '/' then
    let name := rest.tail.takeWhile isTagNameChar
    let text := String.ofList name
    { lexeme := { kind := .tagClose, length := 2 + name.length, style := "tag" }
      state := { s with mode := .endTag (region.close text) text pos } }
  else if c == '<' && startsTagName rest then openTag s region (c :: rest)
  else match whitespace? (c :: rest) with
    | some lexeme => { lexeme, state := s }
    | none =>
      { lexeme := { kind := .text, style := "text"
                    length := 1 + countWhile (fun c => !isChildStop c) rest }
        state := s }

/-- The next piece of code or between the children of an element, whichever the region calls
for. -/
def scanResumed (detail : Detail) (s : LexState) (region : Region) (pos : Nat) (c : Char)
    (rest : List Char) : Step :=
  let s := { s with mode := region.resume }
  if region.opened.isEmpty then scanCode detail s pos c rest
  else scanChildren s region pos c rest

/-- The next piece after the name of an end tag.  Anything but whitespace and the angle
bracket leaves the tag unfinished. -/
def scanEndTag (detail : Detail) (s : LexState) (region : Region) (name : String)
    (start pos : Nat) (c : Char) (rest : List Char) : Step :=
  if c == '>' then
    { lexeme := { kind := .tagEnd, length := 1, style := "tag" }
      state := { s with mode := region.resume } }
  else match whitespace? (c :: rest) with
    | some lexeme => { lexeme, state := s }
    | none =>
      let step := scanResumed detail s region pos c rest
      { step with faults := ⟨.unclosedEndTag name, start, pos⟩ :: step.faults }

/-- One look at the text ahead. -/
def scan (detail : Detail) (s : LexState) (pos : Nat) (text : List Char) : Scan LexState :=
  match text with
  | [] => { lexemes := [], state := s }
  | c :: rest =>
    let step := match s.mode with
      | .code => scanCode detail s pos c rest
      | .template start => scanTemplate s start c rest
      | .attributes region => scanAttributes s region pos c rest
      | .children region => scanChildren s region pos c rest
      | .endTag region name start => scanEndTag detail s region name start pos c rest
    { lexemes := [step.lexeme]
      state := step.state.remember step.lexeme.kind (text.take step.lexeme.length)
      faults := step.faults }

/-- The scanner of scripts. -/
def scanner (detail : Detail) : Scanner LexState :=
  { scan := scan detail, finish }

/-- The run over a text that lies at offset `pos`. -/
def lex (detail : Detail) (pos : Nat) (text : List Char) : Lexing :=
  ((scanner detail).run 0 {} pos text).keep detail

end SourceView.Script
