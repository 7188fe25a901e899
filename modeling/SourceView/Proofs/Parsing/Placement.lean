/-
Where a parse puts its nodes.

A node begins where the cursor stands when it is read, and it ends no later than the token
at which the cursor stands afterwards.  That much holds whenever the tokens are in order,
with or without text between them, and it is why nodes that are read one after another do
not overlap.

Where the tokens have no text between them, the end of the last token behind the cursor is
the start of the next one.  Then it does not matter which of the two an end is taken from,
and whatever lies inside a node ends no later than the node does.
-/
import SourceView.Proofs.Lexing.Spans
import SourceView.Proofs.Parsing.Progress
import SourceView.Proofs.Tree.Nesting

namespace SourceView.Parsing

open Node (Row)

namespace Cursor

variable {input : Input} {c d : Cursor}

/-! ### Cursors in tokens that are in order -/

/-- Where what is behind a cursor ends: with the token passed last, or before any token. -/
def endBehind (input : Input) : List Token → Int
  | [] => input.start
  | t :: _ => t.stop

/-- The tokens ahead are in order, and loops have turns for all of them. -/
structure Ordered (input : Input) (c : Cursor) : Prop where
  order : Token.InOrder (c.previousEnd input) input.stop c.ahead
  short : c.ahead.length < input.bound

/-- The tokens ahead lie side by side, and so do those of the regions that they stand for. -/
structure Snug (input : Input) (c : Cursor) : Prop where
  tile : Token.Tile (c.previousEnd input) input.stop c.ahead
  regions : ∀ t ∈ c.ahead, t.embedded = [] ∨
    (Token.Tile t.start t.stop t.embedded ∧ ∀ u ∈ t.embedded, u.embedded = [])

theorem Ordered.passes (hc : c.Ordered input) (h : c.Passes d) : d.Ordered input := by
  refine ⟨?_, Nat.lt_of_le_of_lt h.length_le hc.short⟩
  refine h.preserves (P := fun behind ahead =>
    Token.InOrder (endBehind input behind) input.stop ahead) ?_ hc.order
  intro t behind ahead horder
  exact horder.2.2

theorem Snug.passes (hc : c.Snug input) (h : c.Passes d) : d.Snug input := by
  refine ⟨?_, ?_⟩
  · refine h.preserves (P := fun behind ahead =>
      Token.Tile (endBehind input behind) input.stop ahead) ?_ hc.tile
    intro t behind ahead htile
    exact htile.2.2
  · intro t ht
    obtain ⟨ts, hahead, -⟩ := h
    exact hc.regions t (hahead ▸ List.mem_append_right ts ht)

theorem Ordered.previousEnd_le_unclosedEnd (hc : c.Ordered input) :
    c.previousEnd input ≤ c.unclosedEnd input := by
  have horder := hc.order
  unfold unclosedEnd
  cases hahead : c.ahead with
  | nil => rw [hahead] at horder; exact horder
  | cons t rest => rw [hahead] at horder; exact horder.1

theorem Ordered.unclosedEnd_le_stop (hc : c.Ordered input) :
    c.unclosedEnd input ≤ input.stop := by
  have horder := hc.order
  unfold unclosedEnd
  cases hahead : c.ahead with
  | nil => exact Int.le_refl _
  | cons t rest =>
      rw [hahead] at horder
      exact Int.le_trans horder.2.1 (Token.InOrder.le horder.2.2)

/-- Without text between the tokens, the end of the last token behind is the start of the
next one. -/
theorem Snug.previousEnd_eq_unclosedEnd (hc : c.Snug input) :
    c.previousEnd input = c.unclosedEnd input := by
  have htile := hc.tile
  unfold unclosedEnd
  cases hahead : c.ahead with
  | nil => rw [hahead] at htile; exact htile
  | cons t rest => rw [hahead] at htile; exact htile.1

theorem Ordered.previousEnd_le (hc : c.Ordered input) (h : c.Passes d) :
    c.previousEnd input ≤ d.previousEnd input := by
  have hboth := h.preserves (P := fun behind ahead =>
    c.previousEnd input ≤ endBehind input behind
      ∧ Token.InOrder (endBehind input behind) input.stop ahead) ?_ ⟨Int.le_refl _, hc.order⟩
  · exact hboth.1
  · rintro t behind ahead ⟨hle, horder⟩
    exact ⟨Int.le_trans hle (Int.le_trans horder.1 horder.2.1), horder.2.2⟩

theorem Ordered.unclosedEnd_le (hc : c.Ordered input) (h : c.Passes d) :
    c.unclosedEnd input ≤ d.unclosedEnd input := by
  have hd := (hc.passes h).previousEnd_le_unclosedEnd
  obtain ⟨ts, hahead, hbehind⟩ := h
  cases ts with
  | nil =>
      rw [List.nil_append] at hahead
      refine Int.le_of_eq ?_
      unfold unclosedEnd
      rw [hahead]
  | cons t ts =>
      have horder := hc.order
      rw [hahead] at horder
      have hadvance : c.advance.Passes d :=
        ⟨ts, by simp [advance, hahead], by simp [advance, hahead, hbehind]⟩
      have hle := (hc.passes (leads_advance c).passes).previousEnd_le hadvance
      have hprevious : c.advance.previousEnd input = t.stop := by
        simp [previousEnd, advance, hahead]
      have hstart : c.unclosedEnd input = t.start := by
        simp [unclosedEnd, hahead]
      have hspan := horder.2.1
      omega

theorem unclosedEnd_cons {t : Token} {rest : List Token} (h : c.ahead = t :: rest) :
    c.unclosedEnd input = t.start := by
  simp [unclosedEnd, h]

theorem unclosedEnd_nil (h : c.ahead = []) : c.unclosedEnd input = input.stop := by
  simp [unclosedEnd, h]

theorem previousEnd_advance {t : Token} {rest : List Token} (h : c.ahead = t :: rest) :
    c.advance.previousEnd input = t.stop := by
  simp [previousEnd, advance, h]

theorem Ordered.advance (hc : c.Ordered input) : c.advance.Ordered input :=
  hc.passes (leads_advance c).passes

theorem Ordered.skipTrivia (hc : c.Ordered input) : c.skipTrivia.Ordered input :=
  hc.passes (leads_skipTrivia c).passes

theorem Ordered.span {t : Token} {rest : List Token} (hc : c.Ordered input)
    (h : c.ahead = t :: rest) : t.start ≤ t.stop := by
  have horder := hc.order
  rw [h] at horder
  exact horder.2.1

/-- The token at the cursor ends before whatever comes next. -/
theorem Ordered.stop_le {t : Token} {rest : List Token} (hc : c.Ordered input)
    (h : c.ahead = t :: rest) : t.stop ≤ c.advance.unclosedEnd input := by
  have hprevious : c.advance.previousEnd input = t.stop := previousEnd_advance h
  exact hprevious ▸ hc.advance.previousEnd_le_unclosedEnd

end Cursor

open Cursor

variable {input : Input}

/-! ### What productions read -/

/-- How the node that is read between two cursors lies: it begins at the first and ends before
the second. -/
structure Reads (input : Input) (c : Cursor) (node : Node) (d : Cursor) : Prop where
  start : node.start = c.unclosedEnd input
  stop : node.stop ≤ d.unclosedEnd input
  nested : c.Snug input → node.Nested

/-- A production moves on, and what it reads lies between where it began and where it got. -/
structure Fits (input : Input) (p : Production) : Prop extends Moves p where
  reads : ∀ {c : Cursor} {node : Node} {d : Cursor}, c.Ordered input → p c = some (node, d) →
    Reads input c node d

/-- Nodes that are read from a cursor on lie in a row up to `hi`. -/
def Rows (input : Input) (c : Cursor) (hi : Int) (nodes : List Node) : Prop :=
  c.Snug input → Row (c.unclosedEnd input) hi nodes

variable {c d : Cursor} {node : Node} {nodes : List Node} {hi : Int}

theorem Rows.nil (h : c.unclosedEnd input ≤ hi) : Rows input c hi [] :=
  fun _ => h

/-- What is passed before a row does not matter. -/
theorem Rows.of_passes (hc : c.Ordered input) (h : c.Passes d) (hrow : Rows input d hi nodes) :
    Rows input c hi nodes :=
  fun hsnug => (hrow (hsnug.passes h)).of_le (hc.unclosedEnd_le h)

theorem Rows.cons (h : c.Passes d) (hnode : Reads input c node d)
    (hrow : Rows input d hi nodes) : Rows input c hi (node :: nodes) :=
  fun hsnug => ⟨Int.le_of_eq hnode.start.symm, hnode.nested hsnug,
    (hrow (hsnug.passes h)).of_le hnode.stop⟩

theorem Rows.append {others : List Node} (h : c.Passes d)
    (hrow : Rows input c (d.unclosedEnd input) nodes) (hrow' : Rows input d hi others) :
    Rows input c hi (nodes ++ others) :=
  fun hsnug => (hrow hsnug).append (hrow' (hsnug.passes h))

theorem fits_nothing : Fits input fun _ => none :=
  { moves_nothing with reads := fun _ h => absurd h (by simp) }

theorem Fits.choice {ps : List Production} (h : ∀ p ∈ ps, Fits input p) :
    Fits input (choice ps) := by
  refine { Moves.choice fun p hp => (h p hp).toMoves with reads := ?_ }
  intro c node d hc hchoice
  obtain ⟨p, hp, hresult⟩ := choice_eq_some hchoice
  exact (h p hp).reads hc hresult

theorem Fits.choice_map {α : Type} {f : α → Production} {as : List α}
    (h : ∀ a ∈ as, Fits input (f a)) : Fits input (Parsing.choice (as.map f)) := by
  refine Fits.choice fun p hp => ?_
  obtain ⟨a, ha, rfl⟩ := List.mem_map.mp hp
  exact h a ha

/-! ### Loops and containers -/

/-- Where what a loop found ends: with its closer, or where the cursor stands. -/
def Items.stop (input : Input) (i : Items) : Int :=
  match i.closer with
  | some t => t.stop
  | none => i.cursor.unclosedEnd input

theorem itemsLoop_rows {item : Production} (hitem : Fits input item) (closer : Option TokenKind)
    (turns : Nat) {c : Cursor} (hc : c.Ordered input) :
    let found := itemsLoop item closer turns c
    found.stop input ≤ found.cursor.unclosedEnd input
      ∧ Rows input c (found.stop input) found.nodes := by
  have hrun := itemsRun item closer turns c
  generalize itemsLoop item closer turns c = found at hrun
  induction hrun with
  | spent => exact ⟨Int.le_refl _, Rows.nil (Int.le_refl _)⟩
  | @ended _ c | @awaited _ c =>
      exact ⟨Int.le_refl _, Rows.nil (hc.unclosedEnd_le (leads_skipTrivia c).passes)⟩
  | @closed _ c t _ hahead =>
      refine ⟨hc.skipTrivia.stop_le hahead, .of_passes hc (leads_skipTrivia c).passes (.nil ?_)⟩
      rw [unclosedEnd_cons hahead]
      exact hc.skipTrivia.span hahead
  | @stray _ c _ _ _ _ hahead _ _ hrecover _ ih =>
      have hpass := ((leads_skipTrivia c).trans (steps_of_recover? hahead hrecover).leads).passes
      obtain ⟨hstop, hrow⟩ := ih (hc.passes hpass)
      exact ⟨hstop, hrow.of_passes hc hpass⟩
  | @node _ c _ _ _ _ _ _ _ _ hnode _ ih =>
      have hpass := (hitem.steps hnode).leads.passes
      obtain ⟨hstop, hrow⟩ := ih (hc.skipTrivia.passes hpass)
      exact ⟨hstop, .of_passes hc (leads_skipTrivia c).passes
        (.cons hpass (hitem.reads hc.skipTrivia hnode) hrow)⟩
  | @filler _ c _ _ _ _ _ _ _ _ ih =>
      have hpass := ((leads_skipTrivia c).trans (leads_advance _)).passes
      obtain ⟨hstop, hrow⟩ := ih (hc.passes hpass)
      exact ⟨hstop, hrow.of_passes hc hpass⟩

theorem passBalanced_stop (opener closer : TokenKind) (depth : Nat) (behind ahead : List Token) :
    match (passBalanced opener closer depth behind ahead).1 with
    | some stop => ∃ t others, (passBalanced opener closer depth behind ahead).2.1 = t :: others
        ∧ t.stop = stop
    | none => (passBalanced opener closer depth behind ahead).2.2 = [] := by
  induction ahead generalizing depth behind with
  | nil => rfl
  | cons t rest ih =>
      unfold passBalanced
      by_cases hopener : t.kind = opener
      · rw [if_pos hopener]
        exact ih _ _
      rw [if_neg hopener]
      by_cases hcloser : t.kind = closer
      · rw [if_pos hcloser]
        by_cases hdepth : depth = 1
        · rw [if_pos hdepth]
          exact ⟨t, behind, rfl, rfl⟩
        · rw [if_neg hdepth]
          exact ih _ _
      · rw [if_neg hcloser]
        exact ih _ _

/-- A container that is passed whole ends after its opener and before what comes next. -/
theorem skipBalanced_stop (opener : Token) (closer : TokenKind) {c : Cursor}
    (hc : c.Ordered input) :
    c.previousEnd input ≤ (skipBalanced input opener closer c).1
      ∧ (skipBalanced input opener closer c).1
        ≤ (skipBalanced input opener closer c).2.unclosedEnd input := by
  have hpass := (leads_skipBalanced input opener closer c).passes
  have hd := hc.passes hpass
  have hend := passBalanced_stop opener.kind closer 1 c.behind c.ahead
  have hle := hc.previousEnd_le hpass
  have hhere := hd.previousEnd_le_unclosedEnd
  cases hstop : (passBalanced opener.kind closer 1 c.behind c.ahead).1 with
  | none =>
      rw [hstop] at hend
      have hvalue : (skipBalanced input opener closer c).1 = input.stop := by
        simp [skipBalanced, note, hstop]
      have hunclosed : (skipBalanced input opener closer c).2.unclosedEnd input = input.stop :=
        unclosedEnd_nil hend
      rw [hvalue, hunclosed]
      rw [hunclosed] at hhere
      exact ⟨Int.le_trans hle hhere, Int.le_refl _⟩
  | some stop =>
      rw [hstop] at hend
      obtain ⟨t, others, hbehind, rfl⟩ := hend
      have hvalue : (skipBalanced input opener closer c).1 = t.stop := by
        simp [skipBalanced, note, hstop]
      have hprevious : (skipBalanced input opener closer c).2.previousEnd input = t.stop := by
        simp [skipBalanced, note, previousEnd, hbehind]
      rw [hvalue, ← hprevious]
      exact ⟨hle, hhere⟩

theorem passes_push (c : Cursor) (o : OpenContainer) : c.Passes (c.push o) :=
  Passes.refl c

/-- What a container holds, from its opener to its end. -/
theorem Rows.nested_container {opener : Token} {rest : List Token} (hc : c.Ordered input)
    (hahead : c.ahead = opener :: rest) (hpass : c.advance.Passes d)
    (hrow : Rows input d hi nodes) (info : Container) (hsnug : c.Snug input) :
    (Node.container opener.start hi info nodes).Nested := by
  have hle := hc.unclosedEnd_le ((leads_advance c).passes.trans hpass)
  rw [unclosedEnd_cons hahead] at hle
  exact (hrow (hsnug.passes ((leads_advance c).passes.trans hpass))).of_le hle

theorem Group.fits_read (g : Group) {item : Production} (hitem : Fits input item) :
    Fits input (g.read input item) := by
  refine { g.moves_read input hitem.toMoves with reads := ?_ }
  intro c node d hc h
  unfold read at h
  cases hopener : c.acceptKind? g.opener with
  | none => simp [hopener] at h
  | some found =>
      obtain ⟨opener, c'⟩ := found
      obtain ⟨-, -, rfl, hahead⟩ := accept?_eq_some hopener
      have hc' := hc.advance
      simp only [hopener] at h
      by_cases hdeep : c.advance.tooDeep = true
      · simp only [hdeep, if_true, Option.some.injEq, Prod.mk.injEq] at h
        obtain ⟨rfl, rfl⟩ := h
        obtain ⟨hstart, hstop⟩ := skipBalanced_stop opener g.closer hc'
        rw [previousEnd_advance hahead] at hstart
        have hspan := hc.span hahead
        exact ⟨(unclosedEnd_cons hahead).symm, hstop, fun _ => Int.le_trans hspan hstart⟩
      · simp only [if_neg hdeep, Option.some.injEq] at h
        obtain ⟨hstop, hrow⟩ := itemsLoop_rows hitem (some g.closer) input.bound
          (hc'.passes (passes_push _ { closer := g.closer, start := opener.start }))
        unfold body items at h
        unfold Items.stop at hstop hrow
        cases hcloser : (itemsLoop item (some g.closer) input.bound
          (c.advance.push { closer := g.closer, start := opener.start })).closer with
        | some t =>
            simp only [hcloser, Prod.mk.injEq] at h hstop hrow
            obtain ⟨rfl, rfl⟩ := h
            exact ⟨(unclosedEnd_cons hahead).symm, hstop,
              hrow.nested_container hc hahead (passes_push _ _) _⟩
        | none =>
            simp only [hcloser, Prod.mk.injEq] at h hstop hrow
            obtain ⟨rfl, rfl⟩ := h
            exact ⟨(unclosedEnd_cons hahead).symm, Int.le_refl _,
              hrow.nested_container hc hahead (passes_push _ _) _⟩

/-! ### Leaves and documents -/

theorem fits_comment : Fits input comment := by
  refine { moves_comment with reads := ?_ }
  intro c node d hc h
  unfold comment at h
  cases hahead : c.ahead with
  | nil => simp [hahead] at h
  | cons t rest =>
      simp only [hahead] at h
      by_cases hkind : t.kind = .comment ∨ t.kind = .lineComment
      · simp only [if_pos hkind, Option.some.injEq, Prod.mk.injEq] at h
        obtain ⟨rfl, rfl⟩ := h
        exact ⟨(unclosedEnd_cons hahead).symm, hc.stop_le hahead, fun _ => hc.span hahead⟩
      · simp [if_neg hkind] at h

theorem textLoop_stop (turns : Nat) {stop : Int} {c : Cursor} (hc : c.Ordered input)
    (hstop : stop ≤ c.unclosedEnd input) :
    stop ≤ (textLoop stop turns c).1
      ∧ (textLoop stop turns c).1 ≤ (textLoop stop turns c).2.unclosedEnd input := by
  induction turns generalizing stop c with
  | zero => exact ⟨Int.le_refl _, hstop⟩
  | succ turns ih =>
      have hskip := (leads_skipTrivia c).passes
      have hc' := hc.passes hskip
      simp only [textLoop]
      cases hahead : c.skipTrivia.ahead with
      | nil => exact ⟨Int.le_refl _, hstop⟩
      | cons t rest =>
          simp only
          by_cases hkind : t.kind = .text ∨ t.kind = .entity
          · rw [if_pos hkind]
            obtain ⟨hle, hend⟩ := ih hc'.advance (hc'.stop_le hahead)
            have hstart := hc.unclosedEnd_le hskip
            rw [unclosedEnd_cons hahead] at hstart
            have hspan := hc'.span hahead
            exact ⟨by omega, hend⟩
          · rw [if_neg hkind]
            exact ⟨Int.le_refl _, hstop⟩

theorem fits_text : Fits input (text input) := by
  refine { moves_text input with reads := ?_ }
  intro c node d hc h
  unfold text at h
  by_cases hrich : input.rich = true
  · rw [if_pos hrich] at h
    cases hahead : c.ahead with
    | nil => simp [hahead] at h
    | cons t rest =>
        simp only [hahead] at h
        by_cases hkind : t.kind = .text ∨ t.kind = .entity
        · simp only [if_pos hkind, Option.some.injEq, Prod.mk.injEq] at h
          obtain ⟨rfl, rfl⟩ := h
          obtain ⟨hle, hend⟩ := textLoop_stop input.bound hc.advance (hc.stop_le hahead)
          have hspan := hc.span hahead
          exact ⟨(unclosedEnd_cons hahead).symm, hend, fun _ => Int.le_trans hspan hle⟩
        · simp [if_neg hkind] at h
  · rw [if_neg hrich] at h
    exact absurd h (by simp)

/-- The children of a document lie in the range of its input. -/
theorem document_row {item : Production} (hitem : Fits input item)
    (hc : input.cursor.Ordered input) (hsnug : input.cursor.Snug input) :
    Row input.start input.stop (items input item none input.cursor).nodes := by
  obtain ⟨hstop, hrow⟩ := itemsLoop_rows hitem none input.bound hc
  have hrow := hrow hsnug
  rw [← hsnug.previousEnd_eq_unclosedEnd] at hrow
  have hend := (hc.passes (leads_itemsLoop hitem.toMoves none input.bound _).passes)
  exact hrow.to_le (Int.le_trans hstop hend.unclosedEnd_le_stop)

/-! ### Elements -/

/-- An attribute begins with its name, and an expression that is its value lies in it. -/
theorem readAttribute_reads (d : Dialect) {expression : Production}
    (hexpression : Fits input expression) {c : Cursor} {name : Token} {rest : List Token}
    (hc : c.Ordered input) (hahead : c.ahead = name :: rest) :
    let read := readAttribute input d expression name c.advance
    Reads input c read.node read.cursor
      ∧ Rows input c (read.cursor.unclosedEnd input) read.expression.toList := by
  have hname := hc.span hahead
  have hstart : c.unclosedEnd input = name.start := unclosedEnd_cons hahead
  have hstop := hc.stop_le hahead
  simp only [readAttribute]
  cases hequals : c.advance.skipTrivia.acceptKind? .equals with
  | none =>
      refine ⟨⟨hstart.symm, hstop, fun _ => hname⟩, Rows.nil ?_⟩
      rw [hstart]
      exact Int.le_trans hname hstop
  | some found =>
      obtain ⟨equals, after⟩ := found
      obtain ⟨-, -, rfl, hequals'⟩ := accept?_eq_some hequals
      have hc₁ := hc.advance.passes (leads_skipTrivia _).passes
      have hc₂ := hc₁.advance.passes (leads_skipTrivia _).passes
      have hle₁ := hc.advance.unclosedEnd_le (leads_skipTrivia _).passes
      have hle₂ := hc₁.advance.unclosedEnd_le (leads_skipTrivia _).passes
      rw [unclosedEnd_cons hequals'] at hle₁
      have hspan := hc₁.span hequals'
      have hstop₁ := hc₁.stop_le hequals'
      have hpass : c.Passes c.advance.skipTrivia.advance.skipTrivia :=
        (((leads_advance c).trans (leads_skipTrivia _)).trans
          ((leads_advance _).trans (leads_skipTrivia _))).passes
      simp only
      -- No value comes after the equals sign, or an expression, or a literal value.
      have hnothing : Reads input c
            (.leaf name.start equals.stop (.attribute (d.name name.value) (some "")))
            c.advance.skipTrivia.advance.skipTrivia
          ∧ Rows input c (c.advance.skipTrivia.advance.skipTrivia.unclosedEnd input) [] := by
        refine ⟨⟨hstart.symm, Int.le_trans hstop₁ hle₂, fun _ => ?_⟩,
          Rows.nil (hc.unclosedEnd_le hpass)⟩
        show name.start ≤ equals.stop
        omega
      have hread {node : Node} {e : Cursor}
          (hnode : expression c.advance.skipTrivia.advance.skipTrivia = some (node, e)) :
          Reads input c (.leaf name.start node.stop
              (.attribute (d.name name.value) (some (input.text node.start node.stop)))) e
            ∧ Rows input c (e.unclosedEnd input) [node] := by
        have hfound := hexpression.reads hc₂ hnode
        have hbegin := hfound.start
        refine ⟨⟨hstart.symm, hfound.stop, fun hsnug => ?_⟩, ?_⟩
        · have hle := (hfound.nested (hsnug.passes hpass)).le
          show name.start ≤ node.stop
          omega
        · refine Rows.of_passes hc hpass ?_
          exact Rows.cons (hexpression.steps hnode).leads.passes hfound (Rows.nil (Int.le_refl _))
      split
      · rename_i t hpeek
        split
        · obtain ⟨others, ht⟩ := ahead_of_peek? hpeek
          have hspan₂ := hc₂.span ht
          have hstop₂ := hc₂.stop_le ht
          rw [unclosedEnd_cons ht] at hle₂
          refine ⟨⟨hstart.symm, hstop₂, fun _ => ?_⟩,
            Rows.nil (hc.unclosedEnd_le (hpass.trans (leads_advance _).passes))⟩
          show name.start ≤ t.stop
          omega
        · split
          · exact hread ‹_›
          · exact hnothing
      · split
        · exact hread ‹_›
        · exact hnothing

/-- The attributes of a start tag are a row, and so are its expressions. -/
theorem startTagLoop_rows (d : Dialect) {expression : Production}
    (hexpression : Fits input expression) (turns : Nat) {c : Cursor} (hc : c.Ordered input) :
    let tag := startTagLoop input d expression turns c
    Rows input c (tag.cursor.unclosedEnd input) tag.attributes
      ∧ Rows input c (tag.cursor.unclosedEnd input) tag.expressions := by
  have hrun := startTagRun input d expression turns c
  generalize startTagLoop input d expression turns c = tag at hrun
  -- It is enough to look at the tag from the token after the whitespace on.
  have hskip {c : Cursor} {tag : StartTag} (hc : c.Ordered input)
      (h : Rows input c.skipTrivia (tag.cursor.unclosedEnd input) tag.attributes
        ∧ Rows input c.skipTrivia (tag.cursor.unclosedEnd input) tag.expressions) :
      Rows input c (tag.cursor.unclosedEnd input) tag.attributes
        ∧ Rows input c (tag.cursor.unclosedEnd input) tag.expressions :=
    ⟨h.1.of_passes hc (leads_skipTrivia c).passes, h.2.of_passes hc (leads_skipTrivia c).passes⟩
  induction hrun with
  | spent => exact ⟨Rows.nil (Int.le_refl _), Rows.nil (Int.le_refl _)⟩
  | exhausted | cut => exact hskip hc ⟨Rows.nil (Int.le_refl _), Rows.nil (Int.le_refl _)⟩
  | ended =>
      have hle := hc.skipTrivia.unclosedEnd_le (leads_advance _).passes
      exact hskip hc ⟨Rows.nil hle, Rows.nil hle⟩
  | @named _ c t _ _ _ hahead _ hread _ ih =>
      subst hread
      obtain ⟨hnode, hvalue⟩ := readAttribute_reads d hexpression hc.skipTrivia hahead
      have hpass := ((leads_advance c.skipTrivia).trans
        (leads_readAttribute input d hexpression.toMoves t _)).passes
      obtain ⟨hattributes, hexpressions⟩ := ih (hc.skipTrivia.passes hpass)
      exact hskip hc ⟨Rows.cons hpass hnode hattributes, Rows.append hpass hvalue hexpressions⟩
  | expression _ _ _ _ hnode _ ih =>
      have hpass := (hexpression.steps hnode).leads.passes
      obtain ⟨hattributes, hexpressions⟩ := ih (hc.skipTrivia.passes hpass)
      exact hskip hc ⟨hattributes.of_passes hc.skipTrivia hpass,
        Rows.cons hpass (hexpression.reads hc.skipTrivia hnode) hexpressions⟩
  | @filler _ c _ _ _ _ _ _ _ _ _ ih =>
      have hpass := (leads_advance c.skipTrivia).passes
      obtain ⟨hattributes, hexpressions⟩ := ih (hc.skipTrivia.passes hpass)
      exact hskip hc ⟨hattributes.of_passes hc.skipTrivia hpass,
        hexpressions.of_passes hc.skipTrivia hpass⟩

theorem OpenElement.unclosedEnd_complain (e : OpenElement) (cause : Anomaly) (blame : Token)
    (c : Cursor) : (e.complain cause blame c).unclosedEnd input = c.unclosedEnd input := by
  unfold complain
  by_cases hoptional : e.optional = true
  · rw [if_pos hoptional]
  · rw [if_neg hoptional]
    rfl

/-- The children of an element are a row up to where its content ends. -/
theorem contentLoop_rows (d : Dialect) {child : Production} (hchild : Fits input child)
    (e : OpenElement) (turns : Nat) {c : Cursor} (hc : c.Ordered input)
    (hturns : c.ahead.length < turns) :
    let content := contentLoop input d child e turns c
    content.stop ≤ content.cursor.unclosedEnd input
      ∧ Rows input c content.stop content.children := by
  have hrun := contentRun input d child e turns c
  generalize contentLoop input d child e turns c = content at hrun
  -- What comes behind a step counts from before it.
  have hmore {c c' : Cursor} {turns : Nat} {content : Content} (hc : c.Ordered input)
      (hturns : c.ahead.length < turns + 1) (hsteps : c.skipTrivia.Steps c')
      (ih : c'.Ordered input → c'.ahead.length < turns →
        content.stop ≤ content.cursor.unclosedEnd input
          ∧ Rows input c' content.stop content.children) :
      content.stop ≤ content.cursor.unclosedEnd input
        ∧ Rows input c content.stop content.children := by
    have hsteps := (leads_skipTrivia c).trans_steps hsteps
    have hlen := hsteps.shorter
    obtain ⟨hstop, hrow⟩ := ih (hc.passes hsteps.leads.passes) (by omega)
    exact ⟨hstop, hrow.of_passes hc hsteps.leads.passes⟩
  induction hrun with
  | spent => exact absurd hturns (Nat.not_lt_zero _)
  | @exhausted _ c hahead =>
      rw [← unclosedEnd_nil hahead]
      exact ⟨Int.le_of_eq (e.unclosedEnd_complain ..).symm,
        Rows.nil (hc.unclosedEnd_le (leads_skipTrivia c).passes)⟩
  | @closed _ c _ _ hahead =>
      have hpass := ((leads_skipTrivia c).trans (steps_pastEndTag hahead).leads).passes
      refine ⟨(hc.passes hpass).previousEnd_le_unclosedEnd, fun hsnug => ?_⟩
      have hle := hc.unclosedEnd_le hpass
      rwa [← (hsnug.passes hpass).previousEnd_eq_unclosedEnd] at hle
  | @interrupted _ c _ _ hahead =>
      rw [← unclosedEnd_cons hahead]
      exact ⟨Int.le_of_eq (e.unclosedEnd_complain ..).symm,
        Rows.nil (hc.unclosedEnd_le (leads_skipTrivia c).passes)⟩
  | @implied _ c _ _ hahead =>
      rw [← unclosedEnd_cons hahead]
      exact ⟨Int.le_refl _, Rows.nil (hc.unclosedEnd_le (leads_skipTrivia c).passes)⟩
  | stray hahead _ _ hrecover _ ih =>
      exact hmore hc hturns (steps_of_recover? hahead hrecover) ih
  | filler hahead _ _ _ _ ih => exact hmore hc hturns (steps_advance hahead) ih
  | @child _ c c' _ _ _ content _ _ _ hnode _ ih =>
      have hsteps := hchild.steps hnode
      have hlen := ((leads_skipTrivia c).trans_steps hsteps).shorter
      obtain ⟨hstop, hrow⟩ := ih (hc.skipTrivia.passes hsteps.leads.passes) (by omega)
      exact ⟨hstop, .of_passes hc (leads_skipTrivia c).passes
        (.cons hsteps.leads.passes (hchild.reads hc.skipTrivia hnode) hrow)⟩

theorem fits_element (d : Dialect) {child expression : Production} (hchild : Fits input child)
    (hexpression : Fits input expression) : Fits input (element input d child expression) := by
  refine { moves_element input d hchild.toMoves hexpression.toMoves with reads := ?_ }
  intro c node c' hc h
  obtain ⟨opener, rest, hahead, -, hread⟩ := elementRead h
  have hstart : c.unclosedEnd input = opener.start := unclosedEnd_cons hahead
  have hpass := (leads_advance c).passes.trans
    (leads_startTagLoop input d hexpression.toMoves input.bound c.advance).passes
  have htag := hc.passes hpass
  obtain ⟨hattributes, hexpressions⟩ := startTagLoop_rows d hexpression input.bound hc.advance
  have hattributes := hattributes.of_passes hc (leads_advance c).passes
  have hexpressions := hexpressions.of_passes hc (leads_advance c).passes
  generalize startTagLoop input d expression input.bound c.advance = tag at *
  -- An element without content ends where its start tag does.
  have hbare (info : ElementInfo) (e : Cursor) (hpass' : tag.cursor.Passes e)
      (hsame : e.unclosedEnd input = tag.cursor.unclosedEnd input) :
      Reads input c (.element opener.start (e.previousEnd input) info tag.attributes
        tag.expressions) e := by
    refine ⟨hstart.symm, (htag.passes hpass').previousEnd_le_unclosedEnd, fun hsnug => ?_⟩
    have hprevious := (hsnug.passes (hpass.trans hpass')).previousEnd_eq_unclosedEnd
    rw [hprevious, hsame, ← hstart]
    exact ⟨hattributes hsnug, hexpressions hsnug⟩
  cases hread with
  | empty => exact hbare _ _ (Passes.refl _) rfl
  | tooDeep =>
      exact hbare _ (tag.cursor.note .tooDeep opener.start opener.stop) (Passes.refl _) rfl
  | @content _ _ e _ _ hcontent =>
      obtain ⟨hstop, hrow⟩ := contentLoop_rows d hchild e input.bound (htag.passes (passes_push _
        { closer := .tagClose, name := some e.key, start := opener.start })) htag.short
      rw [hcontent] at hstop hrow
      refine ⟨hstart.symm, hstop, fun hsnug => ?_⟩
      have hchildren := hrow (hsnug.passes (hpass.trans (passes_push _ _)))
      have hattributes := hattributes hsnug
      have hexpressions := hexpressions hsnug
      rw [hstart] at hattributes hexpressions
      exact ⟨hattributes.to_le hchildren.le, hexpressions.append hchildren⟩

end SourceView.Parsing
