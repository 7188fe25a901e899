/-
Productions and how they are put together.

A production reads a node at the cursor, or fails.  A failed production returns nothing at
all, so the next alternative starts from the cursor that this one was given, with neither
consumed tokens nor noted faults left over.

Every structure has one shape: an opener establishes a node, a loop reads children and takes
whatever is no child as filler, and the matching closer ends it.  When the closer of a
container further out comes first, or the tokens end, the node ends there and is unclosed.

A loop takes at least one token in each turn, and gets the number of its turns from the
number of tokens.
-/
import SourceView.Parsing.Cursor
import SourceView.Parsing.Table

namespace SourceView.Parsing

/-- A rule of a grammar: reads a node at the cursor, or fails. -/
abbrev Production := Cursor → Option (Node × Cursor)

/-- The first of the productions that does not fail. -/
def choice : List Production → Production
  | [], _ => none
  | p :: ps, c =>
    match p c with
    | some result => some result
    | none => choice ps c

/-- The productions one after another, with whitespace between them, or nothing. -/
def sequence? : List Production → Cursor → Option (List Node × Cursor)
  | [], c => some ([], c)
  | p :: ps, c =>
    match p c.skipTrivia with
    | none => none
    | some (node, c) => (sequence? ps c).map fun (nodes, c) => (node :: nodes, c)

/-! ### Attempts -/

/-- A rule on a cursor of its own: it reads a node and leaves the cursor behind it, or it fails
and leaves the cursor where it gave up. -/
abbrev Attempt := Cursor → Except Cursor (Node × Cursor)

namespace Attempt

/-- What is read in an attempt.  A failed one returns nothing, not even where it gave up. -/
def read (attempt : Attempt) : Production := fun c =>
  (attempt c).toOption

/-- Where an attempt leaves the cursor, whether or not it reads a node. -/
def leftAt (attempt : Attempt) (c : Cursor) : Cursor :=
  match attempt c with
  | .error d => d
  | .ok (_, d) => d

end Attempt

/-! ### Loops -/

/-- What a loop over children found: the children, the token that closed it if one did, and
the cursor after it. -/
structure Items where
  nodes : List Node
  closer : Option Token
  cursor : Cursor

/-- Reads children until `closer`, until a closer that a container further out waits for, or
until the tokens end. -/
def itemsLoop (item : Production) (closer : Option TokenKind) : (turns : Nat) → Cursor → Items
  | 0, c => ⟨[], none, c⟩
  | turns + 1, c =>
    let c := c.skipTrivia
    match c.peek? with
    | none => ⟨[], none, c⟩
    | some t =>
      if some t.kind = closer then ⟨[], some t, c.advance⟩
      else if t.kind.isCloser then
        match c.recover? t with
        | none => ⟨[], none, c⟩
        | some c => itemsLoop item closer turns c
      else
        match item c with
        | some (node, c) =>
          let more := itemsLoop item closer turns c
          { more with nodes := node :: more.nodes }
        | none => itemsLoop item closer turns c.advance

/-- The loop over children, with turns enough for all tokens. -/
def items (input : Input) (item : Production) (closer : Option TokenKind) (c : Cursor) : Items :=
  itemsLoop item closer input.bound c

/-- Passes tokens up to the closer that matches an opener, without reading what lies between;
`depth` openers are waiting.  Returns the end of the closer, if it is there. -/
def passBalanced (opener closer : TokenKind) (depth : Nat) (behind : List Token) :
    List Token → Option Int × List Token × List Token
  | [] => (none, behind, [])
  | t :: rest =>
    if t.kind = opener then passBalanced opener closer (depth + 1) (t :: behind) rest
    else if t.kind = closer then
      if depth = 1 then (some t.stop, t :: behind, rest)
      else passBalanced opener closer (depth - 1) (t :: behind) rest
    else passBalanced opener closer depth (t :: behind) rest

/-- Passes a container past the nesting limit as one flat run, and returns where it ends. -/
def skipBalanced (input : Input) (opener : Token) (closer : TokenKind) (c : Cursor) :
    Int × Cursor :=
  let c := c.note .tooDeep opener.start opener.stop
  let (stop, behind, ahead) := passBalanced opener.kind closer 1 c.behind c.ahead
  (stop.getD input.stop, { c with behind, ahead })

/-! ### Containers -/

/-- A kind of container: its delimiters, how messages call it, and its node. -/
structure Group where
  opener : TokenKind
  closer : TokenKind
  what : String
  expected : String
  node : (closed : Bool) → Container

namespace Group

/-- Braces. -/
def block : Group := ⟨.blockOpen, .blockClose, "block", "\x7d", .block⟩

/-- Parentheses. -/
def parentheses : Group := ⟨.parenOpen, .parenClose, "parentheses", ")", .parentheses⟩

/-- Square brackets. -/
def brackets : Group := ⟨.bracketOpen, .bracketClose, "brackets", "]", .brackets⟩

/-- The rest of a container whose opener has just been taken. -/
def body (g : Group) (input : Input) (item : Production) (opener : Token) (c : Cursor) :
    Node × Cursor :=
  let inner := items input item (some g.closer) (c.push { closer := g.closer, start := opener.start })
  let after := inner.cursor.closeTo c
  match inner.closer with
  | some t => (.container opener.start t.stop (g.node true) inner.nodes, after)
  | none =>
    let after := after.note (.unclosed g.what g.expected) opener.start opener.stop
    (.container opener.start (after.unclosedEnd input) (g.node false) inner.nodes, after)

/-- A container whose children `item` reads. -/
def read (g : Group) (input : Input) (item : Production) : Production := fun c =>
  match c.acceptKind? g.opener with
  | none => none
  | some (opener, c) =>
    if c.tooDeep then
      let (stop, c) := skipBalanced input opener g.closer c
      some (.container opener.start stop (g.node true) [], c)
    else some (g.body input item opener c)

end Group

/-! ### Leaves and roots -/

/-- A comment. -/
def comment : Production := fun c =>
  match c.ahead with
  | [] => none
  | t :: _ =>
    if t.kind = .comment ∨ t.kind = .lineComment then some (.leaf t.start t.stop .comment, c.advance)
    else none

/-- Passes text and the whitespace between its pieces, and returns where the last piece
ends.  Whitespace after it is not passed. -/
def textLoop (stop : Int) : (turns : Nat) → Cursor → Int × Cursor
  | 0, c => (stop, c)
  | turns + 1, c =>
    let next := c.skipTrivia
    match next.ahead with
    | [] => (stop, c)
    | t :: _ =>
      if t.kind = .text ∨ t.kind = .entity then textLoop t.stop turns next.advance else (stop, c)

/-- A run of character data; nesting alone does without it. -/
def text (input : Input) : Production := fun c =>
  if input.rich then
    match c.ahead with
    | [] => none
    | t :: _ =>
      if t.kind = .text ∨ t.kind = .entity then
        let (stop, c) := textLoop t.stop input.bound c.advance
        some (.leaf t.start stop .text, c)
      else none
  else none

/-- A whole document: items until the tokens end. -/
def document (input : Input) (item : Production) : Production := fun c =>
  let all := items input item none c
  some (.container input.start input.stop .document all.nodes, all.cursor)

/-! ### Parses -/

/-- The outcome of a parse: the tree, the faults in the order they were noted, and which
parses noted any, embedded ones first. -/
structure Parse where
  tree : Node
  faults : List Fault
  reports : List Report

/-- A rule of a table: what it reads depends on the input. -/
abbrev Rule := Input → Production

/-- The parse by the start rule of a grammar.  The root is a document over the whole range
even when the start rule fails. -/
def Grammar.parse (g : Grammar Rule) (input : Input) : Parse :=
  let start : Production := match g.rules.lookup g.start with
    | some rule => rule input
    | none => fun _ => none
  let (node, c) := (start input.cursor).getD
    (.container input.start input.stop .document [], input.cursor)
  { tree := if node.isDocument then node else .container input.start input.stop .document []
    faults := c.faults.reverse
    reports := c.reports.reverse
      ++ if c.faults.isEmpty then [] else [⟨g.name, c.faults.length⟩] }

end SourceView.Parsing
