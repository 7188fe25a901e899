/-
Parses of tokens that are told otherwise.

A parse reads the kinds and the texts of its tokens and copies their offsets.  So when every
offset is moved by the same amount, or what tokens carry besides is taken away, the parse
takes the same steps, and its nodes and faults are those of the first parse, told otherwise
in the same way.  A recast is one such way of telling: what becomes of a token, of a node,
and which of the faults are told at all.

What a production does from a cursor that is told otherwise is what it does from the cursor
itself, told otherwise (`Recasts`); that goes through choices, loops and containers, and so
to the parse as a whole.  Of the source a parse reads only parts within its range, by the
offsets of tokens and nodes; for them to be the same parts, cursors have to be `Sound`.
-/
import SourceView.Proofs.Lexing.Shift
import SourceView.Proofs.Parsing.Nesting

namespace SourceView.Parsing

open Cursor

/-- A way of telling tokens, nodes and faults otherwise.  A token keeps its kind and text and
a node its class and fields; offsets move by `offset`.  What lies in raw text may be told in
any way.  A fault is told when its start `keeps`. -/
structure Recast where
  offset : Int
  token : Token → Token
  node : Node → Node
  keeps : Int → Bool
  kind_token : ∀ t, (token t).kind = t.kind
  value_token : ∀ t, (token t).value = t.value
  start_token : ∀ t, (token t).start = t.start + offset
  stop_token : ∀ t, (token t).stop = t.stop + offset
  node_leaf : ∀ a b info, node (.leaf a b info) = .leaf (a + offset) (b + offset) info
  node_container : ∀ a b info children, ∃ children',
    node (.container a b info children) = .container (a + offset) (b + offset) info children'
      ∧ ((∀ language, info ≠ .rawText language) → children' = children.map node)
  node_element : ∀ a b info attributes children, node (.element a b info attributes children)
    = .element (a + offset) (b + offset) info (attributes.map node) (children.map node)

namespace Recast

variable (r : Recast)

theorem node_container_of_ne (info : Container) (h : ∀ language, info ≠ .rawText language)
    (a b : Int) (children : List Node) :
    r.node (.container a b info children)
      = .container (a + r.offset) (b + r.offset) info (children.map r.node) := by
  obtain ⟨children', hnode, hsame⟩ := r.node_container a b info children
  rw [hnode, hsame h]

theorem start_node (n : Node) : (r.node n).start = n.start + r.offset := by
  cases n with
  | leaf a b info => rw [r.node_leaf]; rfl
  | container a b info children =>
      obtain ⟨children', hnode, -⟩ := r.node_container a b info children
      rw [hnode]
      rfl
  | element a b info attributes children => rw [r.node_element]; rfl

theorem stop_node (n : Node) : (r.node n).stop = n.stop + r.offset := by
  cases n with
  | leaf a b info => rw [r.node_leaf]; rfl
  | container a b info children =>
      obtain ⟨children', hnode, -⟩ := r.node_container a b info children
      rw [hnode]
      rfl
  | element a b info attributes children => rw [r.node_element]; rfl

/-- The faults that are told, told otherwise. -/
def faults (fs : List Fault) : List Fault :=
  (fs.filter fun f => r.keeps f.start).map (Fault.shift r.offset)

theorem faults_append (fs gs : List Fault) : r.faults (fs ++ gs) = r.faults fs ++ r.faults gs := by
  rw [faults, List.filter_append, List.map_append]
  rfl

theorem faults_reverse (fs : List Fault) : r.faults fs.reverse = (r.faults fs).reverse := by
  rw [faults, faults, List.filter_reverse, List.map_reverse]

def container (o : OpenContainer) : OpenContainer :=
  { o with start := o.start + r.offset }

/-- The cursor at the same place in the tokens told otherwise.  Reports tell of parses inside
of raw text and are left out. -/
def cursor (c : Cursor) : Cursor :=
  { behind := c.behind.map r.token, ahead := c.ahead.map r.token, faults := r.faults c.faults
    opened := c.opened.map r.container }

/-- What a production read, told otherwise. -/
def read (found : Node × Cursor) : Node × Cursor :=
  (r.node found.1, r.cursor found.2)

/-- The input `input'` is `input` told otherwise. -/
structure Inputs (input input' : Input) : Prop where
  tokens : input'.tokens = input.tokens.map r.token
  detail : input'.detail = input.detail
  implied : input'.config.impliedEndTags = input.config.impliedEndTags
  start : input'.start = input.start + r.offset
  stop : input'.stop = input.stop + r.offset
  text : ∀ a b, input.start ≤ a → input.start ≤ b → b ≤ input.stop →
    input'.text (a + r.offset) (b + r.offset) = input.text a b

/-- What is asked of a cursor: its tokens are tokens of the input, in order within its range,
faults that start with one of them are told, and a rich run leaves nothing out between them
while any other has kept only what bounds something. -/
structure Sound (input : Input) (c : Cursor) : Prop where
  known : ∀ t ∈ c.ahead, t ∈ input.tokens
  ordered : c.Ordered input
  begun : input.start ≤ c.previousEnd input
  kept : ∀ t ∈ c.ahead, t.kind ≠ .rawText → r.keeps t.start = true
  snug : input.rich = true → c.Snug input
  bare : input.rich = false → ∀ t ∈ c.ahead, t.kind.isStructural = true

variable {r} {input input' : Input} {c d : Cursor} {t : Token} {rest : List Token}

/-! ### Inputs and sound cursors -/

theorem Inputs.rich (h : r.Inputs input input') : input'.rich = input.rich := by
  rw [Input.rich, Input.rich, h.detail]

theorem Inputs.bound (h : r.Inputs input input') : input'.bound = input.bound := by
  rw [Input.bound, Input.bound, h.tokens, List.length_map]

theorem Inputs.cursor (h : r.Inputs input input') : input'.cursor = r.cursor input.cursor := by
  simp [Input.cursor, Recast.cursor, faults, h.tokens]

/-- The cursor of an input is sound when its tokens are. -/
theorem sound_cursor (horder : Token.InOrder input.start input.stop input.tokens)
    (hkept : ∀ t ∈ input.tokens, t.kind ≠ .rawText → r.keeps t.start = true)
    (hsnug : input.detail = .rich → input.Snug)
    (hbare : input.detail = .structural → ∀ t ∈ input.tokens, t.kind.isStructural = true) :
    r.Sound input input.cursor := by
  refine ⟨fun _ ht => ht, ⟨horder, Nat.lt_succ_self _⟩, Int.le_refl _, hkept, ?_, ?_⟩
  · exact fun hrich => hsnug (beq_iff_eq.mp hrich)
  · intro hrich
    rw [Input.rich, beq_eq_false_iff_ne] at hrich
    cases hdetail : input.detail with
    | rich => exact absurd hdetail hrich
    | structural => exact hbare hdetail

theorem Sound.passes (hc : r.Sound input c) (h : c.Passes d) : r.Sound input d := by
  refine ⟨?_, hc.ordered.passes h, Int.le_trans hc.begun (hc.ordered.previousEnd_le h), ?_,
    fun hrich => (hc.snug hrich).passes h, ?_⟩ <;> obtain ⟨ts, hahead, -⟩ := h
  · intro t ht
    exact hc.known t (hahead ▸ List.mem_append_right ts ht)
  · intro t ht
    exact hc.kept t (hahead ▸ List.mem_append_right ts ht)
  · intro hrich t ht
    exact hc.bare hrich t (hahead ▸ List.mem_append_right ts ht)

theorem Sound.leads (hc : r.Sound input c) (h : c.Leads d) : r.Sound input d :=
  hc.passes h.passes

theorem Sound.skipTrivia (hc : r.Sound input c) : r.Sound input c.skipTrivia :=
  hc.leads (leads_skipTrivia c)

theorem Sound.advance (hc : r.Sound input c) : r.Sound input c.advance :=
  hc.leads (leads_advance c)

theorem Sound.push (hc : r.Sound input c) (o : OpenContainer) : r.Sound input (c.push o) :=
  hc.passes (passes_push c o)

theorem Sound.keeps (hc : r.Sound input c) (h : c.ahead = t :: rest) (ht : t.kind ≠ .rawText) :
    r.keeps t.start = true :=
  hc.kept t (by simp [h]) ht

theorem Sound.begun_start (hc : r.Sound input c) (h : c.ahead = t :: rest) :
    input.start ≤ t.start := by
  have hle := hc.ordered.previousEnd_le_unclosedEnd
  rw [unclosedEnd_cons h] at hle
  exact Int.le_trans hc.begun hle

/-! ### Cursors told otherwise -/

variable (r)

@[simp] theorem ahead_cursor (c : Cursor) : (r.cursor c).ahead = c.ahead.map r.token :=
  rfl

@[simp] theorem behind_cursor (c : Cursor) : (r.cursor c).behind = c.behind.map r.token :=
  rfl

@[simp] theorem tagName_token (t : Token) : tagName (r.token t) = tagName t := by
  rw [tagName, tagName, r.kind_token, r.value_token]

theorem unexpectedCloser_token (t : Token) :
    unexpectedCloser (r.token t) = unexpectedCloser t := by
  rw [unexpectedCloser, unexpectedCloser, r.kind_token, r.value_token]

@[simp] theorem peek?_cursor (c : Cursor) : (r.cursor c).peek? = c.peek?.map r.token := by
  simp [peek?]

@[simp] theorem pos_cursor (c : Cursor) : (r.cursor c).pos = c.pos := by
  simp [pos]

@[simp] theorem advance_cursor (c : Cursor) : (r.cursor c).advance = r.cursor c.advance := by
  unfold advance
  rw [ahead_cursor]
  cases hahead : c.ahead with
  | nil => rfl
  | cons t rest => rfl

theorem passTrivia_map (behind ahead : List Token) :
    passTrivia (behind.map r.token) (ahead.map r.token)
      = ((passTrivia behind ahead).1.map r.token, (passTrivia behind ahead).2.map r.token) := by
  induction ahead generalizing behind with
  | nil => rfl
  | cons t rest ih =>
      simp only [List.map_cons, passTrivia, r.kind_token]
      split
      · exact ih (t :: behind)
      · rfl

@[simp] theorem skipTrivia_cursor (c : Cursor) :
    (r.cursor c).skipTrivia = r.cursor c.skipTrivia := by
  simp only [Cursor.skipTrivia, ahead_cursor, behind_cursor, passTrivia_map]
  rfl

@[simp] theorem accept?_cursor (c : Cursor) (kind : TokenKind) (right : String → Bool) :
    (r.cursor c).accept? kind right
      = (c.accept? kind right).map (Prod.map r.token r.cursor) := by
  unfold accept?
  rw [ahead_cursor]
  cases hahead : c.ahead with
  | nil => rfl
  | cons t rest =>
      simp only [List.map_cons, r.kind_token, r.value_token, advance_cursor]
      split <;> rfl

@[simp] theorem acceptKind?_cursor (c : Cursor) (kind : TokenKind) :
    (r.cursor c).acceptKind? kind
      = (c.acceptKind? kind).map (Prod.map r.token r.cursor) :=
  r.accept?_cursor c kind _

@[simp] theorem skip_cursor (c : Cursor) (kind : TokenKind) (right : String → Bool) :
    (r.cursor c).skip kind right = r.cursor (c.skip kind right) := by
  unfold skip
  rw [accept?_cursor]
  cases c.accept? kind right <;> rfl

@[simp] theorem atLineBreak_cursor (c : Cursor) : (r.cursor c).atLineBreak = c.atLineBreak := by
  simp only [atLineBreak, ahead_cursor, List.takeWhile_map, List.any_map, Function.comp_def,
    r.kind_token]

@[simp] theorem tooDeep_cursor (c : Cursor) : (r.cursor c).tooDeep = c.tooDeep := by
  simp [tooDeep, cursor]

@[simp] theorem expects_cursor (c : Cursor) (kind : TokenKind) (name : Option String) :
    (r.cursor c).expects kind name = c.expects kind name := by
  simp [expects, cursor, container, List.any_map, Function.comp_def]

@[simp] theorem closeTo_cursor (c d : Cursor) :
    (r.cursor c).closeTo (r.cursor d) = r.cursor (c.closeTo d) :=
  rfl

theorem push_cursor (c : Cursor) (closer : TokenKind) (name : Option String) (start : Int) :
    (r.cursor c).push { closer, name, start := start + r.offset }
      = r.cursor (c.push { closer, name, start }) :=
  rfl

@[simp] theorem tokensUntil_cursor (c d : Cursor) :
    (r.cursor c).tokensUntil (r.cursor d) = (c.tokensUntil d).map r.token := by
  simp [tokensUntil]

variable {r}

theorem note_cursor {start : Int} (h : r.keeps start = true) (c : Cursor) (cause : Anomaly)
    (stop : Int) :
    (r.cursor c).note cause (start + r.offset) (stop + r.offset)
      = r.cursor (c.note cause start stop) := by
  simp [Cursor.note, cursor, faults, h, Fault.shift]

theorem Inputs.previousEnd (h : r.Inputs input input') (c : Cursor) :
    (r.cursor c).previousEnd input' = c.previousEnd input + r.offset := by
  unfold Cursor.previousEnd
  rw [behind_cursor]
  cases c.behind with
  | nil => exact h.start
  | cons t rest => exact r.stop_token t

theorem Inputs.unclosedEnd (h : r.Inputs input input') (c : Cursor) :
    (r.cursor c).unclosedEnd input' = c.unclosedEnd input + r.offset := by
  unfold Cursor.unclosedEnd
  rw [ahead_cursor]
  cases c.ahead with
  | nil => exact h.stop
  | cons t rest => exact r.start_token t

theorem passEndTag_map (r : Recast) (behind ahead : List Token) :
    passEndTag (behind.map r.token) (ahead.map r.token)
      = (passEndTag behind ahead).map (Prod.map (List.map r.token) (List.map r.token)) := by
  induction ahead generalizing behind with
  | nil => rfl
  | cons t rest ih =>
      have hjunk : isEndTagJunk (r.token t) = isEndTagJunk t := by
        rw [isEndTagJunk, isEndTagJunk, r.kind_token]
      rw [List.map_cons, passEndTag, passEndTag, r.kind_token, hjunk]
      split
      · rfl
      split
      · exact ih (t :: behind)
      · rfl

@[simp] theorem pastEndTag_cursor (r : Recast) (c : Cursor) :
    (r.cursor c).pastEndTag = r.cursor c.pastEndTag := by
  simp only [pastEndTag, advance_cursor, ahead_cursor, behind_cursor, passEndTag_map]
  cases passEndTag c.advance.behind c.advance.ahead <;> rfl

theorem recover?_cursor (h : r.keeps t.start = true) (c : Cursor) :
    (r.cursor c).recover? (r.token t) = (c.recover? t).map r.cursor := by
  simp only [recover?, r.kind_token, tagName_token, expects_cursor, unexpectedCloser_token,
    r.start_token, r.stop_token, note_cursor h, pastEndTag_cursor, advance_cursor]
  by_cases hexpects : c.expects t.kind
      (if t.kind = .tagClose then some (Text.lower (tagName t)) else none) = true
  · rw [if_pos hexpects, if_pos hexpects, Option.map_none]
  · rw [if_neg hexpects, if_neg hexpects, Option.map_some, apply_ite r.cursor]

/-! ### Productions -/

variable (r) in
/-- The production `p'` reads from cursors told otherwise what `p` reads from the cursors
themselves. -/
structure Recasts (input : Input) (p p' : Production) : Prop extends Fits input p where
  recasts : ∀ {c : Cursor}, r.Sound input c → p' (r.cursor c) = (p c).map r.read

variable {p p' : Production}

theorem Recasts.sound {node : Node} (h : r.Recasts input p p') (hc : r.Sound input c)
    (hnode : p c = some (node, d)) : r.Sound input d :=
  hc.leads (h.steps hnode).leads

/-- What is read in a rich run lies in the range of the input. -/
theorem Recasts.span {node : Node} (h : r.Recasts input p p') (hc : r.Sound input c)
    (hrich : input.rich = true) (hnode : p c = some (node, d)) :
    input.start ≤ node.start ∧ node.start ≤ node.stop ∧ node.stop ≤ input.stop := by
  have hread := h.reads hc.ordered hnode
  have hstart := Int.le_trans hc.begun hc.ordered.previousEnd_le_unclosedEnd
  have hend := (h.sound hc hnode).ordered.unclosedEnd_le_stop
  rw [← hread.start] at hstart
  exact ⟨hstart, (hread.nested (hc.snug hrich)).le, Int.le_trans hread.stop hend⟩

theorem recasts_nothing : r.Recasts input (fun _ => none) fun _ => none :=
  { fits_nothing with recasts := fun _ => rfl }

theorem Recasts.choice_map {α : Type} {f f' : α → Production} {as : List α}
    (h : ∀ a ∈ as, r.Recasts input (f a) (f' a)) :
    r.Recasts input (choice (as.map f)) (choice (as.map f')) := by
  refine { Fits.choice_map fun a ha => (h a ha).toFits with recasts := ?_ }
  intro c hc
  induction as with
  | nil => rfl
  | cons a as ih =>
      simp only [List.map_cons, choice, (h a (by simp)).recasts hc]
      cases f a c with
      | none => exact ih fun b hb => h b (by simp [hb])
      | some found => rfl

theorem sequence?_recasts (ps : List (Production × Production))
    (h : ∀ p ∈ ps, r.Recasts input p.1 p.2) (hc : r.Sound input c) :
    sequence? (ps.map Prod.snd) (r.cursor c)
      = (sequence? (ps.map Prod.fst) c).map (Prod.map (List.map r.node) r.cursor) := by
  induction ps generalizing c with
  | nil => rfl
  | cons p ps ih =>
      have hp := h p (by simp)
      simp only [List.map_cons, sequence?, skipTrivia_cursor, hp.recasts hc.skipTrivia]
      cases hnode : p.1 c.skipTrivia with
      | none => rfl
      | some found =>
          have hmore := ih (fun q hq => h q (by simp [hq])) (hp.sound hc.skipTrivia hnode)
          simp only [Option.map_some, read, hmore, Option.map_map]
          rfl

/-! ### Attempts -/

variable (r) in
/-- What an attempt comes to, told otherwise: what it found, or where it gave up. -/
def outcome {α : Type} (tell : α → α) (found : Except Cursor α) : Except Cursor α :=
  (found.map tell).mapError r.cursor

@[simp] theorem outcome_ok {α : Type} (tell : α → α) (a : α) :
    r.outcome tell (.ok a) = .ok (tell a) :=
  rfl

theorem Attempt.read_recasts {attempt attempt' : Attempt}
    (h : attempt' (r.cursor c) = r.outcome r.read (attempt c)) :
    attempt'.read (r.cursor c) = (attempt.read c).map r.read := by
  rw [Attempt.read, Attempt.read, h]
  cases attempt c <;> rfl

/-! ### Loops and containers -/

variable (r) in
def items (i : Items) : Items :=
  ⟨i.nodes.map r.node, i.closer.map r.token, r.cursor i.cursor⟩

theorem ne_rawText_of_isCloser {kind : TokenKind} (h : kind.isCloser = true) :
    kind ≠ .rawText := by
  rintro rfl
  exact absurd h (by decide)

theorem itemsLoop_recasts (h : r.Recasts input p p') (closer : Option TokenKind) (turns : Nat)
    (hc : r.Sound input c) :
    itemsLoop p' closer turns (r.cursor c) = r.items (itemsLoop p closer turns c) := by
  have hrun := itemsRun p closer turns c
  generalize itemsLoop p closer turns c = found at hrun
  induction hrun with
  | spent => rfl
  | ended hahead =>
      simp only [itemsLoop, skipTrivia_cursor, peek?_cursor, peek?_of_ahead_nil hahead]
      rfl
  | closed hahead ht =>
      simp only [itemsLoop, skipTrivia_cursor, peek?_cursor, peek?_of_ahead hahead, Option.map_some,
        r.kind_token, if_pos ht, advance_cursor]
      rfl
  | awaited hahead hother ht hrecover =>
      simp only [itemsLoop, skipTrivia_cursor, peek?_cursor, peek?_of_ahead hahead, Option.map_some,
        r.kind_token, if_neg hother, if_pos ht, hrecover,
        recover?_cursor (hc.skipTrivia.keeps hahead (ne_rawText_of_isCloser ht))]
      rfl
  | stray hahead hother ht hrecover _ ih =>
      simp only [itemsLoop, skipTrivia_cursor, peek?_cursor, peek?_of_ahead hahead, Option.map_some,
        r.kind_token, if_neg hother, if_pos ht, hrecover,
        recover?_cursor (hc.skipTrivia.keeps hahead (ne_rawText_of_isCloser ht))]
      exact ih (hc.skipTrivia.leads (steps_of_recover? hahead hrecover).leads)
  | node hahead hother ht hnode _ ih =>
      simp only [itemsLoop, skipTrivia_cursor, peek?_cursor, peek?_of_ahead hahead, Option.map_some,
        r.kind_token, if_neg hother, if_neg ht, h.recasts hc.skipTrivia, hnode, read,
        ih (h.sound hc.skipTrivia hnode)]
      rfl
  | filler hahead hother ht hnode _ ih =>
      simp only [itemsLoop, skipTrivia_cursor, peek?_cursor, peek?_of_ahead hahead, Option.map_some,
        r.kind_token, if_neg hother, if_neg ht, h.recasts hc.skipTrivia, hnode, Option.map_none,
        advance_cursor]
      exact ih hc.skipTrivia.advance

theorem items_recasts (hinput : r.Inputs input input') (h : r.Recasts input p p')
    (closer : Option TokenKind) (hc : r.Sound input c) :
    Parsing.items input' p' closer (r.cursor c) = r.items (Parsing.items input p closer c) := by
  rw [Parsing.items, Parsing.items, hinput.bound]
  exact itemsLoop_recasts h closer input.bound hc

theorem passBalanced_map (r : Recast) (opener closer : TokenKind) (depth : Nat)
    (behind ahead : List Token) :
    passBalanced opener closer depth (behind.map r.token) (ahead.map r.token)
      = ((passBalanced opener closer depth behind ahead).1.map (· + r.offset),
          (passBalanced opener closer depth behind ahead).2.1.map r.token,
          (passBalanced opener closer depth behind ahead).2.2.map r.token) := by
  induction ahead generalizing depth behind with
  | nil => rfl
  | cons t rest ih =>
      rw [List.map_cons, passBalanced, passBalanced, r.kind_token, ← List.map_cons]
      split
      · exact ih _ _
      split
      · split
        · rw [r.stop_token]
          rfl
        · exact ih _ _
      · exact ih _ _

theorem skipBalanced_recasts (hinput : r.Inputs input input') {opener : Token}
    (hkeeps : r.keeps opener.start = true) (closer : TokenKind) (c : Cursor) :
    skipBalanced input' (r.token opener) closer (r.cursor c)
      = Prod.map (· + r.offset) r.cursor (skipBalanced input opener closer c) := by
  simp only [skipBalanced, r.kind_token, r.start_token, r.stop_token, note_cursor hkeeps,
    behind_cursor, ahead_cursor, passBalanced_map, hinput.stop]
  cases (passBalanced opener.kind closer 1 (c.note .tooDeep opener.start opener.stop).behind
    (c.note .tooDeep opener.start opener.stop).ahead).1 <;> rfl

theorem recasts_group (hinput : r.Inputs input input') (g : Group)
    (hopener : g.opener ≠ .rawText) (hnode : ∀ closed language, g.node closed ≠ .rawText language)
    (h : r.Recasts input p p') : r.Recasts input (g.read input p) (g.read input' p') := by
  refine { g.fits_read h.toFits with recasts := ?_ }
  intro c hc
  simp only [Group.read, acceptKind?_cursor]
  cases haccept : c.acceptKind? g.opener with
  | none => rfl
  | some found =>
      obtain ⟨opener, after⟩ := found
      obtain ⟨hkind, -, rfl, hahead⟩ := accept?_eq_some haccept
      have hkeeps := hc.keeps hahead (hkind ▸ hopener)
      simp only [Option.map_some, Prod.map, tooDeep_cursor]
      by_cases hdeep : c.advance.tooDeep = true
      · rw [if_pos hdeep, if_pos hdeep, skipBalanced_recasts hinput hkeeps]
        simp only [Option.map_some, Prod.map, read, r.start_token,
          r.node_container_of_ne _ (hnode true), List.map_nil]
      · rw [if_neg hdeep, if_neg hdeep]
        simp only [Group.body, r.start_token, push_cursor,
          items_recasts hinput h (some g.closer) (hc.advance.push _), items]
        cases hcloser : (Parsing.items input p (some g.closer)
            (c.advance.push { closer := g.closer, start := opener.start })).closer with
        | some t =>
            simp only [Option.map_some, closeTo_cursor, read, r.stop_token,
              r.node_container_of_ne _ (hnode true)]
        | none =>
            simp only [Option.map_none, Option.map_some, closeTo_cursor, read, r.stop_token,
              note_cursor hkeeps, hinput.unclosedEnd, r.node_container_of_ne _ (hnode false)]

/-! ### Leaves and documents -/

theorem recasts_comment : r.Recasts input comment comment := by
  refine { fits_comment with recasts := ?_ }
  intro c hc
  simp only [comment, ahead_cursor]
  cases hahead : c.ahead with
  | nil => rfl
  | cons t rest =>
      simp only [List.map_cons, r.kind_token, r.start_token, r.stop_token, advance_cursor]
      split
      · simp only [Option.map_some, read, r.node_leaf]
      · rfl

theorem textLoop_recasts (r : Recast) (stop : Int) (turns : Nat) (c : Cursor) :
    textLoop (stop + r.offset) turns (r.cursor c)
      = Prod.map (· + r.offset) r.cursor (textLoop stop turns c) := by
  induction turns generalizing stop c with
  | zero => rfl
  | succ turns ih =>
      simp only [textLoop, skipTrivia_cursor, ahead_cursor]
      cases hahead : c.skipTrivia.ahead with
      | nil => rfl
      | cons t rest =>
          simp only [List.map_cons, r.kind_token, r.stop_token, advance_cursor]
          split
          · exact ih _ _
          · rfl

theorem recasts_text (hinput : r.Inputs input input') :
    r.Recasts input (text input) (text input') := by
  refine { fits_text with recasts := ?_ }
  intro c hc
  simp only [text, hinput.rich, hinput.bound, ahead_cursor]
  by_cases hrich : input.rich = true
  · rw [if_pos hrich, if_pos hrich]
    cases hahead : c.ahead with
    | nil => rfl
    | cons t rest =>
        simp only [List.map_cons, r.kind_token, r.start_token, r.stop_token, advance_cursor,
          textLoop_recasts]
        split
        · simp only [Option.map_some, read, Prod.map, r.node_leaf]
        · rfl
  · rw [if_neg hrich, if_neg hrich]
    rfl

end Recast

/-- The parses of a grammar whose items read otherwise what is told otherwise: the tree and the
faults are told otherwise too. -/
theorem Parse.recasts_ofItems {r : Recast} {input input' : Input}
    (hinput : r.Inputs input input') {p p' : Production} (h : r.Recasts input p p')
    (hc : r.Sound input input.cursor) (g : Grammar Rule) :
    (Parse.ofItems g input' (items input' p' none input'.cursor)).tree
        = r.node (Parse.ofItems g input (items input p none input.cursor)).tree
      ∧ (Parse.ofItems g input' (items input' p' none input'.cursor)).faults
        = r.faults (Parse.ofItems g input (items input p none input.cursor)).faults := by
  rw [hinput.cursor, Recast.items_recasts hinput h none hc]
  refine ⟨?_, (r.faults_reverse _).symm⟩
  simp only [Parse.ofItems, hinput.start, hinput.stop, Recast.items]
  rw [r.node_container_of_ne _ (by simp)]

end SourceView.Parsing
