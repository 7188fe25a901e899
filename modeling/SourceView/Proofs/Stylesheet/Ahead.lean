/-
The rules of stylesheets, told by the text ahead.

What a rule does at an offset depends only on the characters from there to the bound of the
run, and it is easier to reason about those characters than about offsets.  Here the rules
take the text ahead and name how many characters each of their tokens takes.
-/
import SourceView.Stylesheet.Lexer
import SourceView.Proofs.Lexing.Ahead

namespace SourceView.Stylesheet

open Lexing

/-- Whether a name begins at the start of `text`. -/
def startsName (text : List Char) : Bool :=
  text.head?.any isNameStart

/-- The number of name characters at the start of `text`. -/
def nameLength (text : List Char) : Nat :=
  countWhile isNameChar text

/-- Whether a digit stands at the start of `text`. -/
def startsDigit (text : List Char) : Bool :=
  text.head?.any Char.isDigit

namespace LexState

/-- Whether a brace opens before the statement at the start of `text` ends. -/
def looksNested (text : List Char) : Bool :=
  (text.find? fun c => c == '{' || c == ';' || c == '}') == some '{'

/-- The state once something of the statement at the start of `text` is seen. -/
def begin (s : LexState) (text : List Char) : LexState :=
  if s.atStart then { s with atStart := false, nested := s.inDeclarations && looksNested text }
  else s

end LexState

/-! ### Numbers -/

/-- The number of characters of the sign at the start of `text`. -/
def signLength (text : List Char) : Nat :=
  if text.head? == some '+' || text.head? == some '-' then 1 else 0

/-- The number of characters of the number at the start of `text`: a sign, digits, a point
with digits after it, and an exponent with digits after it. -/
def numberLength (text : List Char) : Nat :=
  let n := signLength text
  let n := n + countWhile Char.isDigit (text.drop n)
  let rest := text.drop n
  let n := if rest.head? == some '.' && startsDigit rest.tail
    then n + 1 + countWhile Char.isDigit rest.tail else n
  let rest := text.drop n
  if rest.head? == some 'e' || rest.head? == some 'E' then
    let mark := 1 + signLength rest.tail
    let digits := countWhile Char.isDigit (rest.drop mark)
    if digits = 0 then n else n + mark + digits
  else n

/-- Whether a number begins at the start of `text`.  A sign belongs to a number only outside
selectors. -/
def startsNumber (inSelector : Bool) (text : List Char) : Bool :=
  match text with
  | [] => false
  | c :: rest =>
    c.isDigit || (c == '.' && startsDigit rest)
      || ((c == '+' || c == '-') && !inSelector
        && (startsDigit rest || (rest.head? == some '.' && startsDigit rest.tail)))

/-- The number at the start of `text` with the unit written to it. -/
def number (text : List Char) : Lexeme :=
  let n := numberLength text
  let rest := text.drop n
  if rest.head? == some '%' then { kind := .dimension, length := n + 1, style := "number" }
  else
    let unit := rest.takeWhile Text.isLetter
    if unit.isEmpty then { kind := .number, length := n, style := "number" }
    else
      let known := units.contains (String.ofList (Text.lowerChars unit))
      { kind := .dimension, length := n + unit.length
        style := if known then "number" else "number-unknown-unit" }

/-! ### Scan rules of a rich run -/

/-- One character of punctuation. -/
def mark (kind : TokenKind) : Lexeme :=
  { kind, length := 1, style := "punctuation" }

/-- The at-keyword at the start of `text`. -/
def scanAtRule (s : LexState) (rest : List Char) : Scan LexState :=
  let name := rest.takeWhile isNameChar
  if name.isEmpty then { lexemes := [Lexeme.unknown], state := s }
  else
    { lexemes := [{ kind := .atRule, length := 1 + name.length, style := "at-rule" }]
      state := { s with atRule := some (String.ofList (Text.lowerChars name)) } }

/-- A colon: the start of a pseudo-class in a selector, else the end of a property. -/
def scanColon (s : LexState) (rest : List Char) : Scan LexState :=
  let colons := if rest.head? == some ':' then 2 else 1
  let name := (rest.drop (colons - 1)).takeWhile isNameChar
  if s.inSelector && !name.isEmpty then
    let known := pseudoClasses.contains (String.ofList (Text.lowerChars name))
    { lexemes := [{ kind := .pseudo, length := colons + name.length
                    style := if known then "pseudo" else "pseudo-unknown" }]
      state := s }
  else
    { lexemes := [mark .colon]
      state := if s.inDeclarations && s.atRule.isNone && !s.nested
        then { s with inValue := true } else s }

/-- A hash sign: the start of an id in a selector, else of a color. -/
def scanHash (s : LexState) (rest : List Char) : Scan LexState :=
  let lexeme : Lexeme :=
    if s.inSelector then
      let n := nameLength rest
      if n = 0 then Lexeme.unknown else { kind := .selector, length := 1 + n, style := "selector-id" }
    else
      let n := countWhile isHexDigit rest
      if (n == 3 || n == 4 || n == 6 || n == 8) && !(rest.drop n).head?.any isNameChar then
        { kind := .hexColor, length := 1 + n, style := "color" }
      else Lexeme.unknown
  { lexemes := [lexeme], state := s }

/-- An exclamation mark, with the word `important` if that follows. -/
def scanBang (s : LexState) (rest : List Char) : Scan LexState :=
  let name := rest.takeWhile isNameChar
  if Text.lowerChars name == "important".toList then
    { lexemes := [{ kind := .keyword, length := 1 + name.length, style := "important" }], state := s }
  else { lexemes := [{ kind := .operator, length := 1, style := "operator" }], state := s }

/-- The unquoted address after the parenthesis of `url`, as one string. -/
def urlBody (text : List Char) : List Lexeme :=
  let spaces := countWhile isSpace text
  let body := text.drop spaces
  match body.head? with
  | none => []
  | some c =>
    if c == '"' || c == '\'' || c == ')' then []
    else
      (if spaces = 0 then [] else [{ kind := .whitespace, length := spaces, style := "space" }])
        ++ [{ kind := .string, length := countWhile (fun c => !isUrlStop c) body, style := "string" }]

/-- The word at the start of `text`, with the parenthesis and the address if it calls a
function. -/
def scanWord (s : LexState) (text : List Char) : Scan LexState :=
  let n := 1 + nameLength text.tail
  let word := text.take n
  let rest := text.drop n
  if rest.head? == some '(' then
    { lexemes := { kind := .function, length := n, style := "function" } :: mark .parenOpen ::
        (if Text.lowerChars word == "url".toList then urlBody rest.tail else [])
      state := s }
  else
    let (kind, style) := wordKind s word
    { lexemes := [{ kind, length := n, style }], state := s }

/-- What comes after the start of a statement, at the character `c`. -/
def scanInStatement (s : LexState) (pos : Nat) (c : Char) (rest : List Char) : Scan LexState :=
  if c == '"' || c == '\'' then
    let (lexeme, faults) := quotedLiteral .string "string" "string" false c pos rest
    { lexemes := [lexeme], state := s, faults }
  else if c == ',' then { lexemes := [mark .comma], state := s }
  else if c == '@' then scanAtRule s rest
  else if c == ':' then scanColon s rest
  else if c == '#' then scanHash s rest
  else if c == '!' then scanBang s rest
  else if startsNumber s.inSelector (c :: rest) then { lexemes := [number (c :: rest)], state := s }
  else if c == '-' && rest.head? == some '-' then
    { lexemes := [{ kind := .customProperty, length := 2 + nameLength rest.tail, style := "variable" }]
      state := s }
  else if c == '.' && s.inSelector && startsName rest then
    { lexemes := [{ kind := .selector, length := 1 + nameLength rest, style := "selector-class" }]
      state := s }
  else if isNameStart c || (c == '-' && startsName rest) then scanWord s (c :: rest)
  else if isOperator c then
    { lexemes := [{ kind := .operator, length := 1
                    style := if s.inSelector then "combinator" else "operator" }]
      state := s }
  else { lexemes := [], state := s }

/-- One look of a rich run. -/
def scanRich (s : LexState) (pos : Nat) (text : List Char) : Scan LexState :=
  match text with
  | [] => { lexemes := [], state := s }
  | c :: rest =>
    match whitespace? text with
    | some lexeme => { lexemes := [lexeme], state := s }
    | none =>
      if c == '/' && rest.head? == some '*' then
        let (lexeme, faults) := delimited .comment "comment" "comment" 2 ['*', '/'] pos text
        { lexemes := [lexeme], state := s, faults }
      else if c == '{' then { lexemes := [mark .blockOpen], state := s.openBlock }
      else if c == '}' then { lexemes := [mark .blockClose], state := s.closeBlock }
      else if c == ';' then { lexemes := [mark .semicolon], state := s.nextStatement }
      else match delimiter? c with
        | some kind => { lexemes := [mark kind], state := s }
        | none => scanInStatement (s.begin text) pos c rest

/-! ### Scan rules of a structural run -/

/-- One look of a structural run.  What it steps over is a piece of text, which a structural
run does not keep. -/
def scanStructural (_ : Unit) (pos : Nat) (text : List Char) : Scan Unit :=
  match text with
  | [] => { lexemes := [], state := () }
  | c :: rest =>
    if c == '/' && rest.head? == some '*' then
      let (lexeme, faults) := delimited .comment "comment" "comment" 2 ['*', '/'] pos text
      { lexemes := [lexeme], state := (), faults }
    else match delimiter? c with
      | some kind => { lexemes := [{ kind, length := 1 }], state := () }
      | none =>
        if c == '"' || c == '\'' then
          let (lexeme, faults) := quotedLiteral .string "string" "string" false c pos rest
          { lexemes := [lexeme], state := (), faults }
        else
          { lexemes := [{ kind := .text, length := 1 + countWhile (fun c => !isStructuralStop c) rest }]
            state := () }

/-! ### Runs -/

/-- The scanner of a rich run. -/
def richScanner : Scanner LexState :=
  { scan := scanRich, finish := fun _ _ => [] }

/-- The scanner of a structural run. -/
def structuralScanner : Scanner Unit :=
  { scan := scanStructural, finish := fun _ _ => [] }

/-- The run over a text that lies at offset `pos`. -/
def lex (detail : Detail) (pos : Nat) (text : List Char) : Lexing :=
  match detail with
  | .rich => richScanner.run 0 {} pos text
  | .structural => (structuralScanner.run 0 () pos text).keep .structural

end SourceView.Stylesheet
