/-
The lexer of stylesheets.

A rich run must know whether a word is a selector, a property or a value, which depends on
where it stands.  The state remembers, for each open block, whether it holds declarations
or rules, and where in the current statement the text is.  A statement in a block of
declarations may be a nested rule; it is one when a brace opens before the statement ends.

A structural run has rules of its own: it takes comments, strings and delimiters, and steps
over everything between them.

Each rule is given the whole source with the bound of the run and the offset of the character
it is for.  It names the offsets at which its tokens begin and end.
-/
import SourceView.Text.Identifier
import SourceView.Stylesheet.Words
import SourceView.Lexing.Literal

namespace SourceView.Stylesheet

open Lexing

/-! ### Characters -/

/-- Whether `c` may begin a name. -/
def isNameStart (c : Char) : Bool :=
  Text.isLetter c || c == '_' || (127 < c.toNat && Text.isIdentifierStart c)

/-- Whether `c` may stand in a name. -/
def isNameChar (c : Char) : Bool :=
  Text.isAlphanumeric c || c == '-' || c == '_' || (127 < c.toNat && Text.isIdentifierStart c)

/-- Whether `c` is a hexadecimal digit. -/
def isHexDigit (c : Char) : Bool :=
  c.isDigit || ('a' ≤ c && c ≤ 'f') || ('A' ≤ c && c ≤ 'F')

/-- Whether `c` is an operator of its own. -/
def isOperator (c : Char) : Bool :=
  ['>', '+', '~', '*', '&', '|', '/', '=', '%', '<', '^', '$'].contains c

/-- The delimiters and the kinds of their tokens. -/
def delimiter? : Char → Option TokenKind
  | '{' => some .blockOpen
  | '}' => some .blockClose
  | '(' => some .parenOpen
  | ')' => some .parenClose
  | '[' => some .bracketOpen
  | ']' => some .bracketClose
  | _ => none

/-- Whether `c` ends an unquoted address. -/
def isUrlStop (c : Char) : Bool :=
  c == ')' || isWhitespace c

/-- Whether a structural run looks at `c`. -/
def isStructuralStop (c : Char) : Bool :=
  c == '/' || c == '"' || c == '\'' || (delimiter? c).isSome

/-- Whether `c` ends a statement or opens its block. -/
def isStatementEnd (c : Char) : Bool :=
  c == '{' || c == ';' || c == '}'

/-! ### State -/

/-- Where in a stylesheet the text is. -/
structure LexState where
  /-- For each open block, the innermost first, whether it holds declarations. -/
  blocks : List Bool := []
  /-- Past the colon of a declaration. -/
  inValue : Bool := false
  /-- The name of the at-rule that the statement is, in lower case. -/
  atRule : Option String := none
  /-- The statement is a rule inside a block of declarations. -/
  nested : Bool := false
  /-- Nothing of the statement has been seen yet. -/
  atStart : Bool := true

namespace LexState

/-- Whether the innermost open block holds declarations. -/
def inDeclarations (s : LexState) : Bool :=
  s.blocks.head? == some true

/-- Whether words are parts of a selector. -/
def inSelector (s : LexState) : Bool :=
  s.atRule.isNone && (!s.inDeclarations || s.nested)

/-- The state at the start of the next statement. -/
def nextStatement (s : LexState) : LexState :=
  { blocks := s.blocks }

/-- The state inside the block that the statement opens. -/
def openBlock (s : LexState) : LexState :=
  let holdsDeclarations := match s.atRule with
    | some name => !nestingAtRules.contains name
    | none => true
  { blocks := holdsDeclarations :: s.blocks }

/-- The state after the innermost block. -/
def closeBlock (s : LexState) : LexState :=
  { blocks := s.blocks.tail }

end LexState

/-- The kind and the style of a word that is no function. -/
def wordKind (s : LexState) (word : List Char) : TokenKind × String :=
  let lowered := String.ofList (Text.lowerChars word)
  if s.atRule.isSome then
    if mediaKeywords.contains lowered then (.keyword, "keyword")
    else if mediaFeatures.contains lowered then (.property, "property")
    else (.identifier, "value")
  else if s.inSelector then (.selector, "selector-tag")
  else if !s.inValue then
    (.property, if isKnownProperty (String.ofList word) then "property" else "property-unknown")
  else if colors.contains lowered then (.color, "color")
  else if valueKeywords.contains lowered then (.valueKeyword, "value")
  else (.identifier, "value")

/-! ### What stands at an offset -/

/-- Whether a digit stands at an offset. -/
def digitAt (w : Window) (pos : Nat) : Bool :=
  (w.at? pos).any Char.isDigit

/-- Whether a plus or minus sign stands at an offset. -/
def signAt (w : Window) (pos : Nat) : Bool :=
  w.at? pos == some '+' || w.at? pos == some '-'

/-- Whether a name begins at an offset. -/
def nameAt (w : Window) (pos : Nat) : Bool :=
  (w.at? pos).any isNameStart

/-- Where the name ends whose characters stand from an offset on. -/
def nameEnd (w : Window) (pos : Nat) : Nat :=
  w.skipWhile isNameChar pos

/-- Whether a brace opens from an offset on before the statement ends. -/
def nestedAt (w : Window) (pos : Nat) : Bool :=
  w.at? (w.skipUntil isStatementEnd pos) == some '{'

/-- The state once something of the statement is seen. -/
def LexState.beginAt (s : LexState) (w : Window) (pos : Nat) : LexState :=
  if s.atStart then { s with atStart := false, nested := s.inDeclarations && nestedAt w pos }
  else s

/-- Whether a number begins at an offset.  A sign belongs to a number only outside selectors. -/
def numberAt (inSelector : Bool) (w : Window) (pos : Nat) : Bool :=
  digitAt w pos || (w.at? pos == some '.' && digitAt w (pos + 1))
    || (signAt w pos && !inSelector
      && (digitAt w (pos + 1) || (w.at? (pos + 1) == some '.' && digitAt w (pos + 2))))

/-- Where the number ends that begins at an offset: a sign, digits, a point with digits after
it, and an exponent with digits after it. -/
def numberEnd (w : Window) (pos : Nat) : Nat :=
  let stop := w.skipWhile Char.isDigit (if signAt w pos then pos + 1 else pos)
  let stop := if w.at? stop == some '.' && digitAt w (stop + 1)
    then w.skipWhile Char.isDigit (stop + 1) else stop
  if w.at? stop == some 'e' || w.at? stop == some 'E' then
    let exponent := if signAt w (stop + 1) then stop + 2 else stop + 1
    if digitAt w exponent then w.skipWhile Char.isDigit exponent else stop
  else stop

/-! ### Scan rules of a rich run -/

/-- One character of punctuation. -/
def markAt (kind : TokenKind) (pos : Nat) : Emission :=
  { kind, start := pos, stop := pos + 1, style := "punctuation" }

/-- The number at an offset with the unit written to it. -/
def emitNumber (w : Window) (pos : Nat) : Emission :=
  let digits := numberEnd w pos
  if w.at? digits == some '%' then
    { kind := .dimension, start := pos, stop := digits + 1, style := "number" }
  else
    let stop := w.skipWhile Text.isLetter digits
    if stop = digits then { kind := .number, start := pos, stop, style := "number" }
    else
      let known := units.contains (String.ofList (Text.lowerChars (w.slice digits stop)))
      { kind := .dimension, start := pos, stop
        style := if known then "number" else "number-unknown-unit" }

/-- The at-keyword at an offset. -/
def lookAtRule (w : Window) (s : LexState) (pos : Nat) : Look LexState :=
  let stop := nameEnd w (pos + 1)
  if stop = pos + 1 then .emit (Emission.unknown pos) s
  else
    .emit { kind := .atRule, start := pos, stop, style := "at-rule" }
      { s with atRule := some (String.ofList (Text.lowerChars (w.slice (pos + 1) stop))) }

/-- A colon: the start of a pseudo-class in a selector, else the end of a property. -/
def lookColon (w : Window) (s : LexState) (pos : Nat) : Look LexState :=
  let name := if w.at? (pos + 1) == some ':' then pos + 2 else pos + 1
  let stop := nameEnd w name
  if s.inSelector && name < stop then
    let known := pseudoClasses.contains (String.ofList (Text.lowerChars (w.slice name stop)))
    .emit { kind := .pseudo, start := pos, stop
            style := if known then "pseudo" else "pseudo-unknown" } s
  else
    .emit (markAt .colon pos)
      (if s.inDeclarations && s.atRule.isNone && !s.nested then { s with inValue := true } else s)

/-- A hash sign: the start of an id in a selector, else of a color. -/
def lookHash (w : Window) (s : LexState) (pos : Nat) : Look LexState :=
  if s.inSelector then
    let stop := nameEnd w (pos + 1)
    if pos + 1 < stop then
      .emit { kind := .selector, start := pos, stop, style := "selector-id" } s
    else .emit (Emission.unknown pos) s
  else
    let stop := w.skipWhile isHexDigit (pos + 1)
    let digits := stop - pos - 1
    if (digits == 3 || digits == 4 || digits == 6 || digits == 8)
        && !(w.at? stop).any isNameChar then
      .emit { kind := .hexColor, start := pos, stop, style := "color" } s
    else .emit (Emission.unknown pos) s

/-- An exclamation mark, with the word `important` if that follows. -/
def lookBang (w : Window) (s : LexState) (pos : Nat) : Look LexState :=
  let stop := nameEnd w (pos + 1)
  if Text.lowerChars (w.slice (pos + 1) stop) == "important".toList then
    .emit { kind := .keyword, start := pos, stop, style := "important" } s
  else .emit { kind := .operator, start := pos, stop := pos + 1, style := "operator" } s

/-- The unquoted address from an offset on, behind the parenthesis of `url`, as one string.  The
next look is due behind it. -/
def addressAt (w : Window) (pos : Nat) : List Emission × Nat :=
  let start := w.skipWhile isSpace pos
  match w.at? start with
  | none => ([], pos)
  | some c =>
    if c == '"' || c == '\'' || c == ')' then ([], pos)
    else
      let stop := w.skipUntil isUrlStop start
      let spaces : List Emission :=
        if pos < start then [{ kind := .whitespace, start := pos, stop := start, style := "space" }]
        else []
      (spaces ++ [{ kind := .string, start, stop, style := "string" }], stop)

/-- The word at an offset, with the parenthesis and the address if it calls a function. -/
def lookWord (w : Window) (s : LexState) (pos : Nat) : Look LexState :=
  let stop := nameEnd w (pos + 1)
  let word := w.slice pos stop
  if w.at? stop == some '(' then
    let (address, next) :=
      if Text.lowerChars word == "url".toList then addressAt w (stop + 1) else ([], stop + 1)
    { emissions :=
        { kind := .function, start := pos, stop, style := "function" } :: markAt .parenOpen stop
          :: address
      next, state := s }
  else
    let (kind, style) := wordKind s word
    .emit { kind, start := pos, stop, style } s

/-- What comes after the start of a statement, at the character `c`. -/
def lookInStatement (w : Window) (s : LexState) (pos : Nat) (c : Char) : Look LexState :=
  if c == '"' || c == '\'' then
    let (literal, faults) := quotedAt .string "string" "string" false c w pos
    .emit literal s faults
  else if c == ',' then .emit (markAt .comma pos) s
  else if c == '@' then lookAtRule w s pos
  else if c == ':' then lookColon w s pos
  else if c == '#' then lookHash w s pos
  else if c == '!' then lookBang w s pos
  else if numberAt s.inSelector w pos then .emit (emitNumber w pos) s
  else if c == '-' && w.at? (pos + 1) == some '-' then
    .emit { kind := .customProperty, start := pos, stop := nameEnd w (pos + 2)
            style := "variable" } s
  else if c == '.' && s.inSelector && nameAt w (pos + 1) then
    .emit { kind := .selector, start := pos, stop := nameEnd w (pos + 1)
            style := "selector-class" } s
  else if isNameStart c || (c == '-' && nameAt w (pos + 1)) then lookWord w s pos
  else if isOperator c then
    .emit { kind := .operator, start := pos, stop := pos + 1
            style := if s.inSelector then "combinator" else "operator" } s
  else .move pos s

/-- One look of a rich run, at the character `c`. -/
def lookRichAt (w : Window) (s : LexState) (pos : Nat) (c : Char) : Look LexState :=
  match whitespaceAt? w pos c with
  | some space => .emit space s
  | none =>
    if c == '/' && w.at? (pos + 1) == some '*' then
      let (comment, faults) := delimitedAt .comment "comment" "comment" 2 ['*', '/'] w pos
      .emit comment s faults
    else if c == '{' then .emit (markAt .blockOpen pos) s.openBlock
    else if c == '}' then .emit (markAt .blockClose pos) s.closeBlock
    else if c == ';' then .emit (markAt .semicolon pos) s.nextStatement
    else match delimiter? c with
      | some kind => .emit (markAt kind pos) s
      | none => lookInStatement w (s.beginAt w pos) pos c

/-- One look of a rich run. -/
def lookRich (w : Window) (s : LexState) (pos : Nat) : Look LexState :=
  match w.at? pos with
  | none => .move pos s
  | some c => lookRichAt w s pos c

/-! ### Scan rules of a structural run -/

/-- One look of a structural run. -/
def lookStructural (w : Window) (_ : Unit) (pos : Nat) : Look Unit :=
  match w.at? pos with
  | none => .move pos ()
  | some c =>
    if c == '/' && w.at? (pos + 1) == some '*' then
      let (comment, faults) := delimitedAt .comment "comment" "comment" 2 ['*', '/'] w pos
      .emit comment () faults
    else match delimiter? c with
      | some kind => .emit { kind, start := pos, stop := pos + 1 } ()
      | none =>
        if c == '"' || c == '\'' then
          let (literal, faults) := quotedAt .string "string" "string" false c w pos
          .emit literal () faults
        else .move (w.skipUntil isStructuralStop (pos + 1)) ()

/-! ### Runs -/

/-- The lexer of a rich run. -/
def richLexer : Lexer LexState :=
  { look := lookRich, finish := fun _ _ => [] }

/-- The lexer of a structural run. -/
def structuralLexer : Lexer Unit :=
  { look := lookStructural, finish := fun _ _ => [] }

/-- The run over the window from offset `start` on. -/
def lexWithin (detail : Detail) (w : Window) (start : Nat) : Lexing :=
  match detail with
  | .rich => richLexer.run .rich w {} start
  | .structural => structuralLexer.run .structural w () start

end SourceView.Stylesheet
