/-
The grammar of stylesheets.

Nesting alone is blocks, parentheses, brackets and comments.  A rich parse says what the
braces belong to: a selector and a block are a rule, an at-keyword begins an at-rule, and a
property with a colon is a declaration.

At the start of a statement a rule is tried before a declaration.  It is tried only where a
brace opens before the statement ends; that is how a nested rule and a declaration are told
apart.  The answers for all tokens come from one table.
-/
import SourceView.Text.Blank
import SourceView.Parsing.Production

namespace SourceView.Stylesheet

open Parsing

/-! ### Where a rule may start -/

/-- Whether tokens of this kind end a statement. -/
def endsStatement : TokenKind → Bool
  | .semicolon | .blockClose => true
  | _ => false

/-- Whether tokens of this kind open a group. -/
def opensGroup : TokenKind → Bool
  | .parenOpen | .bracketOpen => true
  | _ => false

/-- The groups that are closed, each by the index of its opener and the index past its
closer.  `waiting` holds the openers that may still be closed, the innermost first; a
statement's end or a brace drops them. -/
def closedGroups (waiting : List Nat) (index : Nat) : List Token → List (Nat × Nat)
  | [] => []
  | t :: rest =>
    if endsStatement t.kind || t.kind == .blockOpen then closedGroups [] (index + 1) rest
    else if opensGroup t.kind then closedGroups (index :: waiting) (index + 1) rest
    else if t.kind.isCloser then
      match waiting with
      | [] => closedGroups [] (index + 1) rest
      | opener :: waiting => (opener, index + 1) :: closedGroups waiting (index + 1) rest
    else closedGroups waiting (index + 1) rest

/-- The answers for the tokens and for the end after them.  `past` gives the index past the
group that opens at an index. -/
def ruleStartsFrom (past : Nat → Option Nat) (index : Nat) : List Token → List Bool
  | [] => [false]
  | t :: rest =>
    let after := ruleStartsFrom past (index + 1) rest
    let answer :=
      if t.kind == .blockOpen then true
      else if endsStatement t.kind || t.kind.isCloser then false
      else if opensGroup t.kind then
        match past index with
        | some past => after.getD (past - (index + 1)) false
        | none => false
      else after.headD false
    answer :: after

/-- The table of the indices past the groups of a token list. -/
def groupEnds (tokens : List Token) : Array (Option Nat) :=
  (closedGroups [] 0 tokens).foldl (fun table (opener, past) => table.setIfInBounds opener (some past))
    (Array.replicate tokens.length none)

/-- For every token, and for the end after them, whether a brace opens before the statement
ends, before a closer that no group waits for, and outside all groups. -/
def ruleStarts (tokens : List Token) : List Bool :=
  let ends := groupEnds tokens
  ruleStartsFrom (fun index => ends.getD index none) 0 tokens

/-! ### Rules -/

/-- The symbols of the grammar. -/
inductive Symbol where
  | document | comment | block | parentheses | brackets | rule | atRule | declaration
deriving DecidableEq

namespace Symbol

/-- Every symbol. -/
def all : List Symbol :=
  [document, comment, block, parentheses, brackets, rule, atRule, declaration]

/-- The name of a symbol. -/
def name : Symbol → String
  | document => "document"
  | comment => "comment"
  | block => "block"
  | parentheses => "parentheses"
  | brackets => "brackets"
  | rule => "rule"
  | atRule => "at_rule"
  | declaration => "declaration"

/-- The structures of nesting. -/
def structures : List Symbol := [comment, block, parentheses, brackets]

/-- What a statement may be. -/
def statements : List Symbol :=
  [comment, atRule, rule, declaration, block, parentheses, brackets]

end Symbol

/-- The part of a rule or at-rule before its block: where its last token ends, its comments
and groups, and the cursor after it. -/
structure Head where
  stop : Option Int
  children : List Node
  cursor : Cursor

/-- Reads the part before a block.  It ends before a brace, before a statement's end and
before any closer. -/
def headLoop (item : Production) (stop : Option Int) : (turns : Nat) → Cursor → Head
  | 0, c => ⟨stop, [], c⟩
  | turns + 1, c =>
    let c := c.skipTrivia
    match c.peek? with
    | none => ⟨stop, [], c⟩
    | some t =>
      if t.kind = .blockOpen ∨ endsStatement t.kind ∨ t.kind.isCloser then ⟨stop, [], c⟩
      else
        let child := if opensGroup t.kind || t.kind == .comment then item c else none
        match child with
        | some (node, c) =>
          let more := headLoop item (some node.stop) turns c
          { more with children := node :: more.children }
        | none => headLoop item (some t.stop) turns c.advance

/-- The value of a declaration: its span if it is not empty, whether it is marked important,
where the declaration ends, and the cursor after it. -/
structure Value where
  span : Option (Int × Int) := none
  important : Bool := false
  stop : Int
  cursor : Cursor

/-- The value with one more piece. -/
def Value.extend (v : Value) (start stop : Int) (c : Cursor) : Value :=
  { v with span := some ((v.span.map Prod.fst).getD start, stop), stop, cursor := c }

/-- Whether a token says that a declaration is important. -/
def isImportant (t : Token) : Bool :=
  t.kind == .keyword && Text.lower (Text.strip (textFrom t.value 1)) == "important"

/-- Reads the value of a declaration.  A brace fails the declaration, and is where it stops. -/
def valueLoop (item : Production) : (turns : Nat) → Value → Except Cursor Value
  | 0, v => .ok v
  | turns + 1, v =>
    let c := v.cursor.skipTrivia
    match c.peek? with
    | none => .ok { v with cursor := c }
    | some t =>
      if t.kind = .blockClose then .ok { v with cursor := c }
      else if t.kind = .blockOpen then .error c
      else if t.kind = .semicolon then .ok { v with stop := t.stop, cursor := c.advance }
      else if t.kind.isCloser then .ok { v with cursor := c }
      else if isImportant t then
        valueLoop item turns { v with important := true, stop := t.stop, cursor := c.advance }
      else
        match (if opensGroup t.kind then item c else none) with
        | some (node, c) => valueLoop item turns (v.extend node.start node.stop c)
        | none => valueLoop item turns (v.extend t.start t.stop c.advance)

/-- Whether tokens of this kind may name a property. -/
def namesProperty : TokenKind → Bool
  | .property | .customProperty | .identifier => true
  | _ => false

/-- The token at the cursor, if a rule may begin with it. -/
def ruleStart? (input : Input) (starts : Array Bool) (c : Cursor) : Option Token :=
  c.peek?.filter fun first => input.rich && first.kind != .atRule && starts.getD c.pos false

/-- Tries a rule: a selector, which must not be empty, and a block. -/
def tryRule (input : Input) (starts : Array Bool) (item block : Production) : Attempt := fun c =>
  match ruleStart? input starts c with
  | none => .error c
  | some first =>
    let head := headLoop item none input.bound c
    match head.stop with
    | none => .error head.cursor
    | some stop =>
      match block head.cursor.skipTrivia with
      | some (.container start blockStop (.block closed) children, c) =>
        let selector := Text.normalizeSpace (input.text first.start stop)
        .ok (.container first.start blockStop (.rule selector closed)
          (head.children ++ [.container start blockStop (.block closed) children]), c)
      | some (_, c) => .error c
      | none => .error head.cursor.skipTrivia

/-- A rule. -/
def rule (input : Input) (starts : Array Bool) (item block : Production) : Production :=
  (tryRule input starts item block).read

/-- The keyword of an at-rule, and the cursor behind it. -/
def atKeyword? (input : Input) (c : Cursor) : Option (Token × Cursor) :=
  if input.rich then c.acceptKind? .atRule else none

/-- An at-rule: a keyword, what it asks for, and a semicolon or a block or neither. -/
def atRule (input : Input) (item block : Production) : Production := fun c =>
  match atKeyword? input c with
  | none => none
  | some (keyword, c) =>
    let name := Text.lower (textFrom keyword.value 1)
    let head := headLoop item none input.bound c
    let query := match head.stop with
      | some stop => Text.normalizeSpace (input.text keyword.stop stop)
      | none => ""
    let c := head.cursor.skipTrivia
    match c.acceptKind? .semicolon with
    | some (semicolon, c) =>
      some (.container keyword.start semicolon.stop (.atRule name query false true) head.children, c)
    | none =>
      match block c with
      | some (.container start stop (.block closed) children, c) =>
        some (.container keyword.start stop (.atRule name query true closed)
          (head.children ++ [.container start stop (.block closed) children]), c)
      | _ =>
        some (.container keyword.start (head.stop.getD keyword.stop) (.atRule name query false true)
          head.children, c)

/-- Reads the property and the colon of a declaration, before whose value nothing is in it. -/
def declarationStart (input : Input) (c : Cursor) : Except Cursor (Token × Value) :=
  match c.peek? with
  | none => .error c
  | some property =>
    if !input.rich || !namesProperty property.kind then .error c
    else match c.advance.skipTrivia.acceptKind? .colon with
      | none => .error c.advance.skipTrivia
      | some (_, c) => .ok (property, { stop := c.previousEnd input, cursor := c })

/-- Tries a declaration: a property, a colon and a value. -/
def tryDeclaration (input : Input) (item : Production) : Attempt := fun c =>
  match declarationStart input c with
  | .error d => .error d
  | .ok (property, value) =>
    match valueLoop item input.bound value with
    | .error d => .error d
    | .ok value =>
      let text := match value.span with
        | some (start, stop) => Text.normalizeSpace (input.text start stop)
        | none => ""
      .ok (.leaf property.start value.stop (.declaration property.value text value.important),
        value.cursor)

/-- A declaration. -/
def declaration (input : Input) (item : Production) : Production :=
  (tryDeclaration input item).read

/-- What each symbol reads, given what the symbols inside it read. -/
def derive (input : Input) (starts : Array Bool) (self : Symbol → Production) :
    Symbol → Production
  | .document => document input (statement self)
  | .comment => comment
  | .block => Group.block.read input (statement self)
  | .parentheses => Group.parentheses.read input (structures self)
  | .brackets => Group.brackets.read input (structures self)
  | .rule => rule input starts (structures self) (self .block)
  | .atRule => atRule input (structures self) (self .block)
  | .declaration => declaration input (structures self)
where
  structures (self : Symbol → Production) : Production :=
    choice (Symbol.structures.map self)
  statement (self : Symbol → Production) : Production :=
    choice ((if input.rich then Symbol.statements else Symbol.structures).map self)

/-- What a symbol reads when symbols stand inside each other at most `height` deep. -/
def readWithin (input : Input) (starts : Array Bool) : (height : Nat) → Symbol → Production
  | 0, _ => fun _ => none
  | height + 1, symbol => derive input starts (readWithin input starts height) symbol

/-- What a symbol reads.  A symbol stands inside another past at least one token, or as a
part of a statement, or as an item of the document, so the height suffices. -/
def read (input : Input) (symbol : Symbol) : Production :=
  readWithin input (ruleStarts input.tokens).toArray (3 * input.bound + 1) symbol

/-- The grammar of stylesheets. -/
def grammar : Grammar Rule :=
  { name := "css", start := "document"
    rules := Symbol.all.map fun symbol => (symbol.name, fun input => read input symbol) }

end SourceView.Stylesheet
