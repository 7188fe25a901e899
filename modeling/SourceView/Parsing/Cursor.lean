/-
The cursor of a parse.

A cursor is a place in the token sequence together with what the parse has noted on the way:
the faults and the containers that are open.  A cursor is a value, so a rule that fails
leaves no trace: whoever tried it goes on with the cursor that it was given.

The open containers say which closing delimiters are due.  A closer that does not end the
innermost container either ends one further out, which then ends all inside it, or ends
nothing at all.
-/
import SourceView.Lexing.Run
import SourceView.Config
import SourceView.Tree.Node
import SourceView.Text.Lowercase

namespace SourceView.Parsing

/-- How many containers may be open at once. -/
def maxDepth : Nat := 64

/-- A container that is open: what closes it, the name if it is an element, and where it
began. -/
structure OpenContainer where
  closer : TokenKind
  name : Option String := none
  start : Int
deriving DecidableEq

/-- That the parse in a grammar noted some faults. -/
structure Report where
  grammar : String
  faults : Nat

/-- A place in the token sequence.  What lies behind, the faults, the open containers and the
reports on embedded parses are kept with the latest first. -/
structure Cursor where
  behind : List Token := []
  ahead : List Token
  faults : List Fault := []
  opened : List OpenContainer := []
  reports : List Report := []

/-- What a parse reads: the tokens, the source that their offsets refer to, the range of it
that is parsed, and how. -/
structure Input where
  tokens : List Token
  source : List Char
  detail : Detail := .rich
  config : Config := {}
  start : Int
  stop : Int

namespace Input

/-- Whether the parse builds more than nesting. -/
def rich (input : Input) : Bool :=
  input.detail == .rich

/-- A bound on the turns of any loop that consumes a token in each. -/
def bound (input : Input) : Nat :=
  input.tokens.length + 1

/-- The source from offset `start` up to `stop`. -/
def text (input : Input) (start stop : Int) : String :=
  String.ofList (Text.slice input.source start stop)

/-- The cursor before the first token. -/
def cursor (input : Input) : Cursor :=
  { ahead := input.tokens }

end Input

namespace Cursor

/-! ### Looking and moving -/

/-- The number of tokens behind. -/
def pos (c : Cursor) : Nat :=
  c.behind.length

/-- The token at the cursor. -/
def peek? (c : Cursor) : Option Token :=
  c.ahead.head?

/-- The cursor past the token it is at. -/
def advance (c : Cursor) : Cursor :=
  match c.ahead with
  | [] => c
  | t :: rest => { c with behind := t :: c.behind, ahead := rest }

/-- The token at the cursor, if it is of the kind and its text is right, and the cursor past
it. -/
def accept? (c : Cursor) (kind : TokenKind) (right : String → Bool) : Option (Token × Cursor) :=
  match c.ahead with
  | [] => none
  | t :: _ => if t.kind = kind ∧ right t.value = true then some (t, c.advance) else none

/-- The token at the cursor, if it is of the kind, and the cursor past it. -/
def acceptKind? (c : Cursor) (kind : TokenKind) : Option (Token × Cursor) :=
  c.accept? kind fun _ => true

/-- The cursor past a token of the kind and text, if one is there. -/
def skip (c : Cursor) (kind : TokenKind) (right : String → Bool) : Cursor :=
  match c.accept? kind right with
  | some (_, c) => c
  | none => c

/-- Moves trivia from what is ahead to what is behind. -/
def passTrivia (behind : List Token) : List Token → List Token × List Token
  | [] => (behind, [])
  | t :: rest => if t.kind.isTrivia then passTrivia (t :: behind) rest else (behind, t :: rest)

/-- The cursor past whitespace and line breaks. -/
def skipTrivia (c : Cursor) : Cursor :=
  let (behind, ahead) := passTrivia c.behind c.ahead
  { c with behind, ahead }

/-- Whether a line break is among the whitespace at the cursor. -/
def atLineBreak (c : Cursor) : Bool :=
  (c.ahead.takeWhile (·.kind.isTrivia)).any (·.kind == .newline)

/-- The offset at which the last token behind ends. -/
def previousEnd (c : Cursor) (input : Input) : Int :=
  match c.behind with
  | [] => input.start
  | t :: _ => t.stop

/-- Where a container that is not closed ends: at the next token, or at the end of the
range. -/
def unclosedEnd (c : Cursor) (input : Input) : Int :=
  match c.ahead with
  | [] => input.stop
  | t :: _ => t.start

/-- The tokens between the cursor and a later one. -/
def tokensUntil (c later : Cursor) : List Token :=
  c.ahead.take (c.ahead.length - later.ahead.length)

/-! ### Noting -/

/-- Notes a fault. -/
def note (c : Cursor) (cause : Anomaly) (start stop : Int) : Cursor :=
  { c with faults := ⟨cause, start, stop⟩ :: c.faults }

/-- Opens a container. -/
def push (c : Cursor) (container : OpenContainer) : Cursor :=
  { c with opened := container :: c.opened }

/-- The cursor with the containers open that were open at `earlier`. -/
def closeTo (c earlier : Cursor) : Cursor :=
  { c with opened := earlier.opened }

/-- Whether an open container waits for a closer of the kind and, when a name is given, of
that name. -/
def expects (c : Cursor) (kind : TokenKind) (name : Option String) : Bool :=
  c.opened.any fun o => o.closer == kind && (name.isNone || o.name == name)

/-- Whether no further container may be opened. -/
def tooDeep (c : Cursor) : Bool :=
  maxDepth ≤ c.opened.length

end Cursor

/-! ### Closers -/

/-- The text of `s` from the character at `n` on. -/
def textFrom (s : String) (n : Nat) : String :=
  String.ofList (s.toList.drop n)

/-- The name written in the opening of a start or end tag. -/
def tagName (t : Token) : String :=
  textFrom t.value (if t.kind = .tagClose then 2 else 1)

/-- What a closer is called in messages; `name` stands in for the name of an end tag. -/
def describeCloser (t : Token) (name : Option String) : String :=
  if t.kind = .tagClose then s!"tag </{name.getD (textFrom t.value 2)}>" else s!"'{t.value}'"

/-- The fault of a closer that nothing waits for. -/
def unexpectedCloser (t : Token) : Anomaly :=
  if t.kind = .tagClose then .unexpectedEndTag (textFrom t.value 2) else .unexpectedDelimiter t.value

/-- Whether a token may stand between the name of an end tag and its `>`. -/
def isEndTagJunk (t : Token) : Bool :=
  t.kind.isTrivia || t.kind == .text

/-- Moves junk and the `>` after it from what is ahead to what is behind, if the `>` is
there. -/
def passEndTag (behind : List Token) : List Token → Option (List Token × List Token)
  | [] => none
  | t :: rest =>
    if t.kind = .tagEnd then some (t :: behind, rest)
    else if isEndTagJunk t then passEndTag (t :: behind) rest
    else none

namespace Cursor

/-- The cursor past an end tag.  Junk after the name is passed only when a `>` follows. -/
def pastEndTag (c : Cursor) : Cursor :=
  let c := c.advance
  match passEndTag c.behind c.ahead with
  | some (behind, ahead) => { c with behind, ahead }
  | none => c

/-- What to do about a closer that does not end the innermost container: none when a
container further out waits for it, else the cursor past it with the fault noted. -/
def recover? (c : Cursor) (t : Token) : Option Cursor :=
  let name := if t.kind = .tagClose then some (Text.lower (tagName t)) else none
  if c.expects t.kind name then none
  else
    let c := c.note (unexpectedCloser t) t.start t.stop
    some (if t.kind = .tagClose then c.pastEndTag else c.advance)

end Cursor

end SourceView.Parsing
