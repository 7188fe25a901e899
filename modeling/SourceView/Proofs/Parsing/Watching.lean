/-
Watching the open containers.

What a parse returns does not tell how many containers were open on the way: they are closed
again, and of an alternative that fails nothing is left at all.  So the grammars are watched
while they read.  A production that is watched also says which stacks of open containers it
comes to, each as it stands right after a container has been opened.  At all other moments the
stack is one of these, or what one of these was before, or the one that the production was
given.

Watching changes nothing about what is read: that comes from the productions themselves.  A
loop is watched turn by turn, and its turns are those of the loop, which goes on where a turn
goes on and ends where a turn ends.  A rule is watched along the stages that it is read in.
-/
import SourceView.Proofs.Embedding.Shift
import SourceView.Proofs.Parsing.Trace

namespace SourceView

open Parsing

namespace Parsing

/-- The containers that are open at some moment, the innermost first. -/
abbrev Stack := List OpenContainer

/-- A production that is watched: what it reads, and the stacks that it comes to at a cursor,
whether or not it reads a node there. -/
structure Watched where
  read : Production
  opens : Cursor → List Stack

namespace Watched

/-- What never reads anything. -/
def nothing : Watched :=
  ⟨fun _ => none, fun _ => []⟩

/-- The cursor after a node, or past a token if none is read. -/
def after (p : Watched) (c : Cursor) : Cursor :=
  match p.read c with
  | some (_, c) => c
  | none => c.advance

/-- The stacks of the productions up to the first that does not fail. -/
def choiceOpens : List Watched → Cursor → List Stack
  | [], _ => []
  | p :: ps, c => p.opens c ++ if (p.read c).isSome then [] else choiceOpens ps c

/-- The first of the productions that does not fail. -/
def choice (ps : List Watched) : Watched :=
  ⟨Parsing.choice (ps.map read), choiceOpens ps⟩

/-- The stacks of productions one after another, up to the first that fails. -/
def sequenceOpens : List Watched → Cursor → List Stack
  | [], _ => []
  | p :: ps, c =>
    p.opens c.skipTrivia ++ match p.read c.skipTrivia with
      | none => []
      | some (_, c) => sequenceOpens ps c

end Watched

/-! ### Loops -/

/-- A loop that is watched: what it comes to in so many turns, and for one turn the stacks that
it comes to and where the loop goes on, unless it ends there. -/
structure WatchedLoop (σ ρ : Type) where
  run : (turns : Nat) → σ → ρ
  turn : σ → List Stack × Option σ
  goes_on : ∀ {turns : Nat} {s s' : σ}, (turn s).2 = some s' → run (turns + 1) s = run turns s'
  ends : ∀ {turns : Nat} {s : σ}, (turn s).2 = none → run (turns + 1) s = run 1 s

/-- The stacks of a loop. -/
def WatchedLoop.opens {σ ρ : Type} (loop : WatchedLoop σ ρ) : (turns : Nat) → σ → List Stack
  | 0, _ => []
  | turns + 1, s =>
    (loop.turn s).1 ++ match (loop.turn s).2 with
      | none => []
      | some s => loop.opens turns s

section

variable (input : Input) (dialect : Dialect) (item child expression : Watched)

/-- A turn of the loop over children. -/
def itemsTurn (closer : Option TokenKind) (c : Cursor) : List Stack × Option Cursor :=
  let c := c.skipTrivia
  match c.peek? with
  | none => ([], none)
  | some t =>
    if some t.kind = closer then ([], none)
    else if t.kind.isCloser then ([], c.recover? t)
    else (item.opens c, some (item.after c))

/-- The loop over children. -/
def watchItems (closer : Option TokenKind) : WatchedLoop Cursor Cursor where
  run turns c := (itemsLoop item.read closer turns c).cursor
  turn := itemsTurn item closer
  goes_on {turns c d} h := by
    cases hpeek : c.skipTrivia.peek? with
    | none => simp [itemsTurn, hpeek] at h
    | some t =>
        simp only [itemsTurn, itemsLoop, Watched.after, hpeek] at h ⊢
        grind
  ends {turns c} h := by
    cases hpeek : c.skipTrivia.peek? with
    | none => simp [itemsLoop, hpeek]
    | some t =>
        simp only [itemsTurn, itemsLoop, hpeek] at h ⊢
        grind

/-- The stacks of the loop over children. -/
def itemsOpens (closer : Option TokenKind) (c : Cursor) : List Stack :=
  (watchItems item closer).opens input.bound c

/-- The stacks of an attribute from behind its name on. -/
def attributeOpens (c : Cursor) : List Stack :=
  match c.skipTrivia.acceptKind? .equals with
  | none => []
  | some (_, c) => expression.opens c.skipTrivia

/-- A turn of the loop over a start tag. -/
def startTagTurn (c : Cursor) : List Stack × Option Cursor :=
  let c := c.skipTrivia
  match c.peek? with
  | none => ([], none)
  | some t =>
    if t.kind = .tagEnd ∨ t.kind = .tagSelfCloseEnd then ([], none)
    else if t.kind = .attributeName then
      (attributeOpens expression c.advance,
        some (readAttribute input dialect expression.read t c.advance).cursor)
    else if t.kind = .tagOpen ∨ t.kind.isCloser then ([], none)
    else (expression.opens c, some (expression.after c))

/-- The loop over a start tag. -/
def watchStartTag : WatchedLoop Cursor Cursor where
  run turns c := (startTagLoop input dialect expression.read turns c).cursor
  turn := startTagTurn input dialect expression
  goes_on {turns c d} h := by
    cases hpeek : c.skipTrivia.peek? with
    | none => simp [startTagTurn, hpeek] at h
    | some t =>
        simp only [startTagTurn, startTagLoop, Watched.after, hpeek] at h ⊢
        grind
  ends {turns c} h := by
    cases hpeek : c.skipTrivia.peek? with
    | none => simp [startTagLoop, hpeek]
    | some t =>
        simp only [startTagTurn, startTagLoop, hpeek] at h ⊢
        grind

/-- A turn of the loop over the content of an element. -/
def contentTurn (e : OpenElement) (c : Cursor) : List Stack × Option Cursor :=
  let c := c.skipTrivia
  match c.peek? with
  | none => ([], none)
  | some t =>
    if t.kind = .tagClose ∧ Text.lower (tagName t) = e.key then ([], none)
    else if t.kind.isCloser then ([], c.recover? t)
    else if e.endsBefore dialect input t then ([], none)
    else (child.opens c, some (child.after c))

/-- The loop over the content of an element. -/
def watchContent (e : OpenElement) : WatchedLoop Cursor Cursor where
  run turns c := (contentLoop input dialect child.read e turns c).cursor
  turn := contentTurn input dialect child e
  goes_on {turns c d} h := by
    cases hpeek : c.skipTrivia.peek? with
    | none => simp [contentTurn, hpeek] at h
    | some t =>
        simp only [contentTurn, contentLoop, Watched.after, hpeek] at h ⊢
        grind
  ends {turns c} h := by
    cases hpeek : c.skipTrivia.peek? with
    | none => simp [contentLoop, hpeek]
    | some t =>
        simp only [contentTurn, contentLoop, hpeek] at h ⊢
        grind

/-! ### Containers -/

/-- The stacks of a document. -/
def documentOpens (c : Cursor) : List Stack :=
  itemsOpens input item none c

/-- The stacks of a group. -/
def Group.opens (g : Group) (c : Cursor) : List Stack :=
  match c.acceptKind? g.opener with
  | none => []
  | some (opener, c) =>
    if c.tooDeep then []
    else
      let inside := c.push { closer := g.closer, start := opener.start }
      inside.opened :: itemsOpens input item (some g.closer) inside

/-- The stacks of an element, those of its start tag first. -/
def elementOpens (c : Cursor) : List Stack :=
  match c.acceptKind? .tagOpen with
  | none => []
  | some (opener, c) =>
    let key := Text.lower (tagName opener)
    let tag := startTagLoop input dialect expression.read input.bound c
    let content : List Stack :=
      if tag.ending = some .tagSelfCloseEnd
          ∨ (tag.ending = some .tagEnd ∧ dialect.voidElements.contains key) then []
      else if tag.cursor.tooDeep then []
      else
        let e : OpenElement :=
          { opener, key, optional := dialect.implies input && Markup.optionalEndTags.contains key }
        let inside := tag.cursor.push { closer := .tagClose, name := some key, start := opener.start }
        inside.opened :: (watchContent input dialect child e).opens input.bound inside
    (watchStartTag input dialect expression).opens input.bound c ++ content

end

end Parsing

/-! ### Scripts -/

namespace Script

section

variable (input : Input) (item parentheses block : Watched)

/-- A turn of the loop over a template. -/
def templateTurn (c : Cursor) : List Stack × Option Cursor :=
  match c.peek? with
  | none => ([], none)
  | some t =>
    if t.kind.isCloser then ([], none)
    else if t.kind = .templateExprOpen then
      let c := c.advance
      let inside := c.push { closer := .templateExprClose, start := t.start }
      let inner := items input item.read (some .templateExprClose) inside
      (inside.opened :: itemsOpens input item (some .templateExprClose) inside,
        inner.closer.map fun _ => inner.cursor.closeTo c)
    else ([], some c.advance)

/-- The loop over a template. -/
def watchTemplate : WatchedLoop Cursor Cursor where
  run turns c := (templateLoop input item.read turns c).cursor
  turn := templateTurn input item
  goes_on {turns c d} h := by
    cases hpeek : c.peek? with
    | none => simp [templateTurn, hpeek] at h
    | some t =>
        simp only [templateTurn, templateLoop, hpeek] at h ⊢
        grind [TokenKind.isCloser]
  ends {turns c} h := by
    cases hpeek : c.peek? with
    | none => simp [templateLoop, hpeek]
    | some t =>
        simp only [templateTurn, templateLoop, hpeek] at h ⊢
        grind [TokenKind.isCloser]

/-- The stacks of a template. -/
def templateOpens (c : Cursor) : List Stack :=
  match c.acceptKind? .templateStart with
  | none => []
  | some (opener, c) =>
    if c.tooDeep then []
    else
      let inside := c.push { closer := .templateEnd, start := opener.start }
      inside.opened :: (watchTemplate input item).opens input.bound inside

/-- A turn of the loop over a statement. -/
def statementTurn : Progress × Cursor → List Stack × Option (Progress × Cursor)
  | (p, c) =>
    let crossed := c.atLineBreak
    let c := c.skipTrivia
    match c.peek? with
    | none => ([], none)
    | some t =>
      if t.kind.isCloser then ([], none)
      else if crossed && p.complete && !continues t then ([], none)
      else if t.kind = .punctuation ∧ t.value = ";" then ([], none)
      else
        (item.opens c, match item.read c with
          | some (node, c) => some (p.after node, c)
          | none => some ({ p with stop := t.stop, complete := completes t }, c.advance))

/-- The loop over a statement. -/
def watchStatement : WatchedLoop (Progress × Cursor) Cursor where
  run turns s := (statementLoop item.read turns s.1 s.2).cursor
  turn := statementTurn item
  goes_on {turns s s'} h := by
    obtain ⟨p, c⟩ := s
    cases hpeek : c.skipTrivia.peek? with
    | none => simp [statementTurn, hpeek] at h
    | some t =>
        simp only [statementTurn, statementLoop, hpeek] at h ⊢
        grind
  ends {turns s} h := by
    obtain ⟨p, c⟩ := s
    cases hpeek : c.skipTrivia.peek? with
    | none => simp [statementLoop, hpeek]
    | some t =>
        simp only [statementTurn, statementLoop, hpeek] at h ⊢
        grind

/-- The stacks of the rest of a statement. -/
def statementRestOpens (complete control : Bool) (c : Cursor) : List Stack :=
  (watchStatement item).opens input.bound
    ({ stop := c.previousEnd input, complete, control }, c)

/-- The stacks of a declaration of a function. -/
def functionOpens (c : Cursor) : List Stack :=
  match functionHead input c with
  | .error _ => []
  | .ok head => Watched.sequenceOpens [parentheses, block] head.cursor

/-- The stacks of a declaration of variables. -/
def variableOpens (c : Cursor) : List Stack :=
  match variableHead? input c with
  | none => []
  | some head => statementRestOpens input item head.name.isSome false head.cursor

/-- The stacks of any other statement. -/
def statementOpens (c : Cursor) : List Stack :=
  match statementStart? input c with
  | none => []
  | some first => statementRestOpens input item false (isControl first) c

end

/-- The stacks of each symbol, given the symbols inside it. -/
def opens (input : Input) (self : Symbol → Watched) : Symbol → Cursor → List Stack
  | .document => documentOpens input statements
  | .comment | .text => fun _ => []
  | .block => Group.opens input statements .block
  | .parentheses => Group.opens input structures .parentheses
  | .brackets => Group.opens input structures .brackets
  | .template => templateOpens input structures
  | .element =>
    elementOpens input Dialect.script (.choice (Symbol.children.map self)) (.choice [self .block])
  | .functionDeclaration => functionOpens input (self .parentheses) (self .block)
  | .variableDeclaration => variableOpens input structures
  | .statement => statementOpens input structures
where
  structures : Watched :=
    .choice (Symbol.structures.map self)
  statements : Watched :=
    .choice ((if input.rich then Symbol.statements else Symbol.structures).map self)

/-- The symbols, watched where they stand inside each other at most `height` deep. -/
def watch (input : Input) : (height : Nat) → Symbol → Watched
  | 0, _ => .nothing
  | height + 1, symbol =>
    ⟨readWithin input (height + 1) symbol, opens input (watch input height) symbol⟩

theorem watch_read (input : Input) (height : Nat) (symbol : Symbol) :
    (watch input height symbol).read = readWithin input height symbol := by
  cases height <;> rfl

/-- The document, watched. -/
def watched (input : Input) : Watched :=
  watch input (3 * input.bound + 1) .document

end Script

/-! ### Stylesheets -/

namespace Stylesheet

section

variable (input : Input) (starts : Array Bool) (item block : Watched)

/-- A turn of the loop over the part before a block. -/
def headTurn : Option Int × Cursor → List Stack × Option (Option Int × Cursor)
  | (_, c) =>
    let c := c.skipTrivia
    match c.peek? with
    | none => ([], none)
    | some t =>
      if t.kind = .blockOpen ∨ endsStatement t.kind ∨ t.kind.isCloser then ([], none)
      else if opensGroup t.kind || t.kind == .comment then
        (item.opens c, match item.read c with
          | some (node, c) => some (some node.stop, c)
          | none => some (some t.stop, c.advance))
      else ([], some (some t.stop, c.advance))

/-- The loop over the part before a block. -/
def watchHead : WatchedLoop (Option Int × Cursor) Cursor where
  run turns s := (headLoop item.read s.1 turns s.2).cursor
  turn := headTurn item
  goes_on {turns s s'} h := by
    obtain ⟨stop, c⟩ := s
    cases hpeek : c.skipTrivia.peek? with
    | none => simp [headTurn, hpeek] at h
    | some t =>
        simp only [headTurn, headLoop, hpeek] at h ⊢
        grind
  ends {turns s} h := by
    obtain ⟨stop, c⟩ := s
    cases hpeek : c.skipTrivia.peek? with
    | none => simp [headLoop, hpeek]
    | some t =>
        simp only [headTurn, headLoop, hpeek] at h ⊢
        grind

/-- The stacks of the part before a block. -/
def headOpens (c : Cursor) : List Stack :=
  (watchHead item).opens input.bound (none, c)

/-- A turn of the loop over the value of a declaration. -/
def valueTurn (v : Value) : List Stack × Option Value :=
  let c := v.cursor.skipTrivia
  match c.peek? with
  | none => ([], none)
  | some t =>
    if t.kind = .blockOpen ∨ t.kind = .semicolon ∨ t.kind.isCloser then ([], none)
    else if isImportant t then
      ([], some { v with important := true, stop := t.stop, cursor := c.advance })
    else if opensGroup t.kind then
      (item.opens c, match item.read c with
        | some (node, c) => some (v.extend node.start node.stop c)
        | none => some (v.extend t.start t.stop c.advance))
    else ([], some (v.extend t.start t.stop c.advance))

/-- The loop over the value of a declaration. -/
def watchValue : WatchedLoop Value (Except Cursor Value) where
  run turns v := valueLoop item.read turns v
  turn := valueTurn item
  goes_on {turns v w} h := by
    cases hpeek : v.cursor.skipTrivia.peek? with
    | none => simp [valueTurn, hpeek] at h
    | some t =>
        simp only [valueTurn, hpeek] at h
        by_cases hend : t.kind = .blockOpen ∨ t.kind = .semicolon ∨ t.kind.isCloser
        · simp [hend] at h
        rw [if_neg hend] at h
        simp only [not_or] at hend
        obtain ⟨hopen, hsemicolon, hcloser⟩ := hend
        have hclose : t.kind ≠ .blockClose := fun hkind => hcloser (by rw [hkind]; rfl)
        simp only [valueLoop, hpeek, if_neg hclose, if_neg hopen, if_neg hsemicolon, if_neg hcloser]
        by_cases himportant : isImportant t = true
        · rw [if_pos himportant] at h ⊢
          rw [← Option.some.inj h]
        rw [if_neg himportant] at h ⊢
        by_cases hgroup : opensGroup t.kind = true
        · rw [if_pos hgroup] at h ⊢
          cases hread : item.read v.cursor.skipTrivia <;> rw [hread] at h <;>
            rw [← Option.some.inj h]
        · rw [if_neg hgroup] at h ⊢
          rw [← Option.some.inj h]
  ends {turns v} h := by
    cases hpeek : v.cursor.skipTrivia.peek? with
    | none => simp [valueLoop, hpeek]
    | some t =>
        simp only [valueTurn, valueLoop, hpeek] at h ⊢
        grind

/-- The stacks of a rule. -/
def ruleOpens (c : Cursor) : List Stack :=
  match ruleStart? input starts c with
  | none => []
  | some _ =>
    let head := headLoop item.read none input.bound c
    headOpens input item c
      ++ if head.stop.isNone then [] else block.opens head.cursor.skipTrivia

/-- The stacks of an at-rule. -/
def atRuleOpens (c : Cursor) : List Stack :=
  match atKeyword? input c with
  | none => []
  | some (_, c) =>
    let after := (headLoop item.read none input.bound c).cursor.skipTrivia
    headOpens input item c
      ++ if (after.acceptKind? .semicolon).isSome then [] else block.opens after

/-- The stacks of a declaration. -/
def declarationOpens (c : Cursor) : List Stack :=
  match declarationStart input c with
  | .error _ => []
  | .ok (_, value) => (watchValue item).opens input.bound value

end

/-- The stacks of each symbol, given the symbols inside it. -/
def opens (input : Input) (starts : Array Bool) (self : Symbol → Watched) :
    Symbol → Cursor → List Stack
  | .document => documentOpens input statement
  | .comment => fun _ => []
  | .block => Group.opens input statement .block
  | .parentheses => Group.opens input structures .parentheses
  | .brackets => Group.opens input structures .brackets
  | .rule => ruleOpens input starts structures (self .block)
  | .atRule => atRuleOpens input structures (self .block)
  | .declaration => declarationOpens input structures
where
  structures : Watched :=
    .choice (Symbol.structures.map self)
  statement : Watched :=
    .choice ((if input.rich then Symbol.statements else Symbol.structures).map self)

/-- The symbols, watched where they stand inside each other at most `height` deep. -/
def watch (input : Input) (starts : Array Bool) : (height : Nat) → Symbol → Watched
  | 0, _ => .nothing
  | height + 1, symbol =>
    ⟨readWithin input starts (height + 1) symbol,
      opens input starts (watch input starts height) symbol⟩

theorem watch_read (input : Input) (starts : Array Bool) (height : Nat) (symbol : Symbol) :
    (watch input starts height symbol).read = readWithin input starts height symbol := by
  cases height <;> rfl

/-- The document, watched. -/
def watched (input : Input) : Watched :=
  watch input (ruleStarts input.tokens).toArray (3 * input.bound + 1) .document

end Stylesheet

/-! ### Markup -/

namespace Markup

/-- The stacks of the parse of a body, in the language that it is in. -/
def embeddedStacks : String → Input → List Stack
  | "css", input => (Stylesheet.watched input).opens input.cursor
  | "js", input => (Script.watched input).opens input.cursor
  | _, _ => []

/-- The stacks of the body of a raw-text element, whose parse has a cursor of its own. -/
def rawTextOpens (input : Input) (c : Cursor) : List Stack :=
  match c.acceptKind? .rawText with
  | none => []
  | some (t, _) =>
    if t.embedded.isEmpty then [] else embeddedStacks t.language (input.region t)

/-- The stacks of each symbol, given the symbols inside it. -/
def opens (input : Input) (self : Symbol → Watched) : Symbol → Cursor → List Stack
  | .document => documentOpens input (.choice (Symbol.outer.map self))
  | .comment | .text => fun _ => []
  | .element =>
    elementOpens input Dialect.markup (.choice (Symbol.children.map self)) (.choice [])
  | .rawText => rawTextOpens input

/-- The symbols, watched where they stand inside each other at most `height` deep. -/
def watch (input : Input) : (height : Nat) → Symbol → Watched
  | 0, _ => .nothing
  | height + 1, symbol =>
    ⟨readWithin input (height + 1) symbol, opens input (watch input height) symbol⟩

theorem watch_read (input : Input) (height : Nat) (symbol : Symbol) :
    (watch input height symbol).read = readWithin input height symbol := by
  cases height <;> rfl

/-- The document, watched. -/
def watched (input : Input) : Watched :=
  watch input (3 * input.bound + 1) .document

end Markup

/-! ### Passes -/

/-- The document of each language, watched. -/
def Language.watched : Language → Input → Watched
  | markup => Markup.watched
  | stylesheet => Stylesheet.watched
  | script => Script.watched

/-- **Watching changes nothing about what is read.**  The rule that a grammar starts with reads
what the watched document reads. -/
theorem Language.watched_read (language : Language) :
    language.grammar.rules.lookup language.grammar.start
      = some fun input => (language.watched input).read := by
  cases language with
  | markup => exact congrArg some (funext fun input => (Markup.watch_read input _ _).symm)
  | stylesheet => exact congrArg some (funext fun input => (Stylesheet.watch_read input _ _ _).symm)
  | script => exact congrArg some (funext fun input => (Script.watch_read input _ _).symm)

/-- The stacks of open containers that a pass over a text comes to, those of the bodies in it
among them. -/
def Language.openStacks (language : Language) (config : Config) (detail : Detail)
    (source : List Char) : List Stack :=
  let input := language.input config detail source
  (language.watched input).opens input.cursor

end SourceView
