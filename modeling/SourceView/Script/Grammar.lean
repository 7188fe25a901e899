/-
The grammar of scripts.

Nesting alone is blocks, parentheses, brackets, templates with their interpolations,
embedded elements, and comments.  A rich parse also groups the tokens into statements:
declarations of functions and of variables, and all others.

A statement ends at a semicolon, before a closer, at the end of the tokens, or at a line
break when what stands before it can end an expression and what follows does not go on with
it.
-/
import SourceView.Script.Words
import SourceView.Parsing.Element

namespace SourceView.Script

open Parsing

/-! ### Templates -/

/-- What a template holds: its children, the end of its closing backtick if that was there,
and the cursor after it. -/
structure TemplateRead where
  children : List Node
  stop : Option Int
  cursor : Cursor

/-- Reads a template from its opening backtick on.  A closer of something else ends it, and
so does an interpolation that is not closed. -/
def templateLoop (input : Input) (item : Production) : (turns : Nat) → Cursor → TemplateRead
  | 0, c => ⟨[], none, c⟩
  | turns + 1, c =>
    match c.peek? with
    | none => ⟨[], none, c⟩
    | some t =>
      if t.kind = .templateEnd then ⟨[], some t.stop, c.advance⟩
      else if t.kind.isCloser then ⟨[], none, c⟩
      else if t.kind = .templateExprOpen then
        let c := c.advance
        let inner := items input item (some .templateExprClose)
          (c.push { closer := .templateExprClose, start := t.start })
        let after := inner.cursor.closeTo c
        match inner.closer with
        | none => ⟨inner.nodes, none, after⟩
        | some _ =>
          let more := templateLoop input item turns after
          { more with children := inner.nodes ++ more.children }
      else templateLoop input item turns c.advance

/-- A template literal.  That one is unterminated is for the lexer to say. -/
def template (input : Input) (item : Production) : Production := fun c =>
  match c.acceptKind? .templateStart with
  | none => none
  | some (opener, c) =>
    if c.tooDeep then
      let (stop, c) := skipBalanced input opener .templateEnd c
      some (.container opener.start stop (.templateLiteral true) [], c)
    else
      let read := templateLoop input item input.bound
        (c.push { closer := .templateEnd, start := opener.start })
      let after := read.cursor.closeTo c
      match read.stop with
      | some stop => some (.container opener.start stop (.templateLiteral true) read.children, after)
      | none =>
        some (.container opener.start (after.unclosedEnd input) (.templateLiteral false)
          read.children, after)

/-! ### Statements -/

/-- Whether the text of an operator stands after its operand. -/
def isPostfix (text : String) : Bool :=
  ["++", "--"].contains text

/-- Whether a token can end an expression. -/
def completes (t : Token) : Bool :=
  match t.kind with
  | .identifier | .literal | .builtIn | .number | .string | .regex | .error => true
  | .keyword => ["break", "continue", "return", "debugger", "this", "super"].contains t.value
  | .operator => isPostfix t.value
  | _ => false

/-- Whether a token at the start of a line goes on with the statement before it. -/
def continues (t : Token) : Bool :=
  match t.kind with
  | .operator => !isPostfix t.value
  | .punctuation => t.value == "." || t.value == ","
  | .keyword => ["else", "catch", "finally"].contains t.value
  | .blockOpen => true
  | _ => false

/-- Whether a token begins a statement whose head stands in parentheses. -/
def isControl (t : Token) : Bool :=
  t.kind == .keyword && ["if", "for", "while", "with", "switch"].contains t.value

/-- The rest of a statement: its nested structures, where it ends, and the cursor after
it. -/
structure StatementRest where
  children : List Node
  stop : Int
  cursor : Cursor

/-- What is known about a statement that is being read: where it ends so far, whether what
has been read can end an expression, and whether the parentheses that come next are the
head of a control statement. -/
structure Progress where
  stop : Int
  complete : Bool := false
  control : Bool := false

/-- The progress after a nested structure.  A comment changes nothing, and the head of a
control statement does not complete it. -/
def Progress.after (p : Progress) (node : Node) : Progress :=
  match node with
  | .container _ stop (.parentheses _) _ =>
    if p.control then ⟨stop, false, false⟩ else ⟨stop, true, false⟩
  | .leaf _ stop .comment => { p with stop }
  | node => { p with stop := node.stop, complete := true }

/-- Reads the rest of a statement. -/
def statementLoop (item : Production) : (turns : Nat) → Progress → Cursor → StatementRest
  | 0, p, c => ⟨[], p.stop, c⟩
  | turns + 1, p, c =>
    let crossed := c.atLineBreak
    let c := c.skipTrivia
    match c.peek? with
    | none => ⟨[], p.stop, c⟩
    | some t =>
      if t.kind.isCloser then ⟨[], p.stop, c⟩
      else if crossed && p.complete && !continues t then ⟨[], p.stop, c⟩
      else if t.kind = .punctuation ∧ t.value = ";" then ⟨[], t.stop, c.advance⟩
      else
        match item c with
        | some (node, c) =>
          let more := statementLoop item turns (p.after node) c
          { more with children := node :: more.children }
        | none =>
          statementLoop item turns { p with stop := t.stop, complete := completes t } c.advance

/-- The rest of a statement after the tokens behind the cursor. -/
def statementRest (input : Input) (item : Production) (complete control : Bool) (c : Cursor) :
    StatementRest :=
  statementLoop item input.bound { stop := c.previousEnd input, complete, control } c

/-! ### Parameters -/

/-- The names among the tokens of a parameter list.  Names stand at depth one, at the start
or after a comma, with or without a rest mark; patterns and default values are passed over.  A
stray closer takes the depth below zero. -/
def paramNamesFrom (depth : Int) (expecting : Bool) : List Token → List String
  | [] => []
  | t :: rest =>
    let read (depth : Int) (expecting : Bool) : List String :=
      if depth ≠ 1 ∨ t.kind.isTrivia then paramNamesFrom depth expecting rest
      else if t.kind = .punctuation ∧ t.value = "," then paramNamesFrom depth true rest
      else if t.kind = .operator ∧ t.value = "..." then paramNamesFrom depth expecting rest
      else if t.kind = .identifier ∧ expecting then t.value :: paramNamesFrom depth false rest
      else paramNamesFrom depth false rest
    match t.kind with
    | .parenOpen =>
      if depth = 0 then paramNamesFrom 1 true rest else read (depth + 1) false
    | .bracketOpen | .blockOpen => read (depth + 1) (depth == 0)
    | .parenClose | .bracketClose | .blockClose =>
      if depth = 1 then [] else read (depth - 1) expecting
    | _ => read depth expecting

/-- The plain parameter names of a parameter list. -/
def paramNames (tokens : List Token) : List String :=
  paramNamesFrom 0 false tokens

/-! ### Rules -/

/-- The symbols of the grammar. -/
inductive Symbol where
  | document | comment | block | parentheses | brackets | template | element | text
  | functionDeclaration | variableDeclaration | statement
deriving DecidableEq

namespace Symbol

/-- Every symbol. -/
def all : List Symbol :=
  [document, comment, block, parentheses, brackets, template, element, text,
    functionDeclaration, variableDeclaration, statement]

/-- The name of a symbol. -/
def name : Symbol → String
  | document => "document"
  | comment => "comment"
  | block => "block"
  | parentheses => "parentheses"
  | brackets => "brackets"
  | template => "template"
  | element => "element"
  | text => "text"
  | functionDeclaration => "function_declaration"
  | variableDeclaration => "variable_declaration"
  | statement => "statement"

/-- The structures of nesting. -/
def structures : List Symbol := [comment, block, parentheses, brackets, template, element]

/-- What stands side by side in code. -/
def statements : List Symbol := [comment, functionDeclaration, variableDeclaration, statement]

/-- What stands between the tags of an element. -/
def children : List Symbol := [element, block, text]

end Symbol

/-- What a declaration of a function begins with: where it starts, its name if it has one, and
the cursor where its parameters are due. -/
structure FunctionHead where
  start : Int
  name : String
  cursor : Cursor

/-- Reads a declaration of a function up to its parameters. -/
def functionHead (input : Input) (c : Cursor) : Except Cursor FunctionHead :=
  if !input.rich then .error c
  else
    let async := c.accept? .keyword (· == "async")
    let c := match async with
      | some (_, c) => c.skipTrivia
      | none => c
    match c.accept? .keyword (· == "function") with
    | none => .error c
    | some (keyword, c) =>
      let start := match async with
        | some (async, _) => async.start
        | none => keyword.start
      let c := (c.skipTrivia.skip .operator (· == "*")).skipTrivia
      .ok
        { start
          name := (c.acceptKind? .identifier).elim "" fun (t, _) => t.value
          cursor := c.skip .identifier fun _ => true }

/-- Tries a declaration of a function: parameters and a body, with or without a name. -/
def tryFunctionDeclaration (input : Input) (parentheses block : Production) : Attempt := fun c =>
  match functionHead input c with
  | .error d => .error d
  | .ok head =>
    match sequence? [parentheses, block] head.cursor with
    | none => .error head.cursor
    | some (parts, after) =>
      .ok (.container head.start (parts.getLast?.elim head.start Node.stop)
        (.functionDeclaration head.name (paramNames (head.cursor.tokensUntil after))) parts, after)

/-- A declaration of a function. -/
def functionDeclaration (input : Input) (parentheses block : Production) : Production :=
  (tryFunctionDeclaration input parentheses block).read

/-- What a declaration of variables begins with: its keyword, the name of the first one if there
is one, and the cursor behind that. -/
structure VariableHead where
  keyword : Token
  name : Option Token
  cursor : Cursor

/-- Reads a declaration of variables up to the first name. -/
def variableHead? (input : Input) (c : Cursor) : Option VariableHead :=
  if !input.rich then none
  else (c.accept? .keyword declarationKeywords.contains).map fun (keyword, c) =>
    { keyword
      name := (c.skipTrivia.acceptKind? .identifier).map Prod.fst
      cursor := c.skipTrivia.skip .identifier fun _ => true }

/-- A declaration of variables, named for the first one. -/
def variableDeclaration (input : Input) (item : Production) : Production := fun c =>
  match variableHead? input c with
  | none => none
  | some head =>
    let rest := statementRest input item head.name.isSome false head.cursor
    some (.container head.keyword.start rest.stop
      (.variableDeclaration head.keyword.value (head.name.elim "" Token.value)) rest.children,
      rest.cursor)

/-- The token at the cursor, if a statement may begin with it. -/
def statementStart? (input : Input) (c : Cursor) : Option Token :=
  c.peek?.filter fun first => input.rich && !first.kind.isCloser

/-- Any other statement. -/
def statement (input : Input) (item : Production) : Production := fun c =>
  match statementStart? input c with
  | none => none
  | some first =>
    let rest := statementRest input item false (isControl first) c
    some (.container first.start rest.stop .statement rest.children, rest.cursor)

/-- What each symbol reads, given what the symbols inside it read. -/
def derive (input : Input) (self : Symbol → Production) : Symbol → Production
  | .document => document input (statements self)
  | .comment => comment
  | .block => Group.block.read input (statements self)
  | .parentheses => Group.parentheses.read input (structures self)
  | .brackets => Group.brackets.read input (structures self)
  | .template => template input (structures self)
  | .element =>
    Parsing.element input Dialect.script (choice (Symbol.children.map self)) (choice [self .block])
  | .text => text input
  | .functionDeclaration => functionDeclaration input (self .parentheses) (self .block)
  | .variableDeclaration => variableDeclaration input (structures self)
  | .statement => statement input (structures self)
where
  structures (self : Symbol → Production) : Production :=
    choice (Symbol.structures.map self)
  statements (self : Symbol → Production) : Production :=
    choice ((if input.rich then Symbol.statements else Symbol.structures).map self)

/-- What a symbol reads when symbols stand inside each other at most `height` deep. -/
def readWithin (input : Input) : (height : Nat) → Symbol → Production
  | 0, _ => fun _ => none
  | height + 1, symbol => derive input (readWithin input height) symbol

/-- What a symbol reads.  A symbol stands inside another past at least one token, or as a
part of a statement, or as an item of the document, so the height suffices. -/
def read (input : Input) (symbol : Symbol) : Production :=
  readWithin input (3 * input.bound + 1) symbol

/-- The grammar of scripts. -/
def grammar : Grammar Rule :=
  { name := "js", start := "document"
    rules := Symbol.all.map fun symbol => (symbol.name, fun input => read input symbol) }

end SourceView.Script
