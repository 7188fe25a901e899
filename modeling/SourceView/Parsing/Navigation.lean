/-
Using a grammar's rules by their names, and moving a cursor by hand.

A rule that fails leaves the cursor where it was.  A name that is not in the grammar is an
error of the caller; the cursor then stays where the error was met, so what was read before
it stays read.
-/
import SourceView.Parsing.Production

namespace SourceView.Parsing

/-- The outcome of using rules by their names: the answer or the error, and the cursor. -/
structure Outcome (α : Type) where
  answer : Except TableError α
  cursor : Cursor

namespace Grammar

/-- Reads a node by the rule of a given name. -/
def apply (g : Grammar Rule) (input : Input) (name : String) (c : Cursor) : Outcome (Option Node) :=
  match g.rule name with
  | .error e => ⟨.error e, c⟩
  | .ok rule =>
    match rule input c with
    | some (node, c) => ⟨.ok (some node), c⟩
    | none => ⟨.ok none, c⟩

/-- Reads a node by the first rule that does not fail. -/
def oneOf (g : Grammar Rule) (input : Input) : List String → Cursor → Outcome (Option Node)
  | [], c => ⟨.ok none, c⟩
  | name :: names, c =>
    let first := g.apply input name c
    match first.answer with
    | .ok none => g.oneOf input names c
    | _ => first

/-- The name of a rule that may fail, without the mark that says so. -/
def optionalName? (name : String) : Option String :=
  match name.toList.reverse with
  | '?' :: rest => some (String.ofList rest.reverse)
  | _ => none

/-- Reads nodes by one rule after another, with whitespace between them. -/
def sequenceFrom (g : Grammar Rule) (input : Input) :
    List String → Cursor → Outcome (Option (List (Option Node)))
  | [], c => ⟨.ok (some []), c⟩
  | name :: names, c =>
    let optional := optionalName? name
    let first := g.apply input (optional.getD name) c.skipTrivia
    match first.answer with
    | .error e => ⟨.error e, first.cursor⟩
    | .ok node =>
      if node.isNone && optional.isNone then ⟨.ok none, first.cursor⟩
      else
        let others := g.sequenceFrom input names first.cursor
        ⟨others.answer.map fun nodes => nodes.map (node :: ·), others.cursor⟩

/-- Reads nodes by one rule after another, all or nothing.  A rule whose name ends with a
question mark may fail. -/
def sequence (g : Grammar Rule) (input : Input) (names : List String) (c : Cursor) :
    Outcome (Option (List (Option Node))) :=
  let all := g.sequenceFrom input names c
  match all.answer with
  | .ok none => ⟨.ok none, c⟩
  | _ => all

/-- Reads children by rules of the given names up to `closer`. -/
def itemsLoop (g : Grammar Rule) (input : Input) (names : List String) (closer : Option TokenKind) :
    (turns : Nat) → Cursor → Outcome (List Node × Option Token)
  | 0, c => ⟨.ok ([], none), c⟩
  | turns + 1, c =>
    let c := c.skipTrivia
    match c.peek? with
    | none => ⟨.ok ([], none), c⟩
    | some t =>
      if some t.kind = closer then ⟨.ok ([], some t), c.advance⟩
      else if t.kind.isCloser then
        match c.recover? t with
        | none => ⟨.ok ([], none), c⟩
        | some c => g.itemsLoop input names closer turns c
      else
        let first := g.oneOf input names c
        match first.answer with
        | .error e => ⟨.error e, first.cursor⟩
        | .ok none => g.itemsLoop input names closer turns first.cursor.advance
        | .ok (some node) =>
          let others := g.itemsLoop input names closer turns first.cursor
          ⟨others.answer.map fun (nodes, t) => (node :: nodes, t), others.cursor⟩

/-- Reads children by rules of the given names up to `closer`, with turns enough for all
tokens. -/
def items (g : Grammar Rule) (input : Input) (names : List String) (closer : Option TokenKind)
    (c : Cursor) : Outcome (List Node × Option Token) :=
  g.itemsLoop input names closer input.bound c

end Grammar

namespace Cursor

/-- The token at a distance from the cursor. -/
def peekAt? (c : Cursor) (offset : Int) : Option Token :=
  if 0 ≤ offset then c.ahead[offset.toNat]? else c.behind[(-offset - 1).toNat]?

/-- All tokens. -/
def tokens (c : Cursor) : List Token :=
  c.behind.reverse ++ c.ahead

/-- The cursor before the token of an index. -/
def moveTo (c : Cursor) (pos : Nat) : Cursor :=
  let tokens := c.tokens
  { c with behind := (tokens.take pos).reverse, ahead := tokens.drop pos }

/-- A place to which a cursor can go back: the index of a token and a number of faults. -/
structure Snapshot where
  pos : Nat
  faults : Nat

/-- The place of a cursor. -/
def snapshot (c : Cursor) : Snapshot :=
  ⟨c.pos, c.faults.length⟩

/-- The cursor at an earlier place, with the faults that were noted by then. -/
def restore (c : Cursor) (s : Snapshot) : Cursor :=
  { c.moveTo s.pos with faults := c.faults.drop (c.faults.length - s.faults) }

/-- The cursor with the innermost container closed. -/
def pop (c : Cursor) : Cursor :=
  { c with opened := c.opened.tail }

/-- Passes an end tag and returns where it ends. -/
def endTag (c : Cursor) (input : Input) : Int × Cursor :=
  let c := c.pastEndTag
  (c.previousEnd input, c)

end Cursor

/-- The name that an end tag is looked up by among the open containers. -/
def closerKey? (t : Token) : Option String :=
  if t.kind = .tagClose then some (Text.lower (tagName t)) else none

/-- A production that reads nothing. -/
def nothing : Production := fun _ => none

/-- A grammar with further rules. -/
def Grammar.extend (g : Grammar Rule) (rules : List (String × Rule)) : Grammar Rule :=
  { g with rules := g.rules ++ rules }

end SourceView.Parsing
