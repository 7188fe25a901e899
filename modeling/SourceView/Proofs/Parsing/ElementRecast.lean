/-
Elements that are told otherwise.

Start tags, attributes and content keep to what `Proofs/Parsing/Recast.lean` says of other
productions.  One attribute value is cut from the source, that of an expression; attribute
names are no boundaries, so this happens in rich runs alone, where the span of the expression
is known to lie in the range of the input.
-/
import SourceView.Proofs.Parsing.Recast

namespace SourceView.Parsing.Recast

open Cursor

variable {r : Recast} {input input' : Input} {c : Cursor} {p p' child child' : Production}

/-! ### Start tags -/

variable (r) in
def attributeRead (read : AttributeRead) : AttributeRead :=
  { node := r.node read.node, expression := read.expression.map r.node
    cursor := r.cursor read.cursor }

theorem readAttribute_recasts (hinput : r.Inputs input input') (d : Dialect)
    (h : r.Recasts input p p') (hrich : input.rich = true) (name : Token) (hc : r.Sound input c) :
    readAttribute input' d p' (r.token name) (r.cursor c)
      = r.attributeRead (readAttribute input d p name c) := by
  simp only [readAttribute, skipTrivia_cursor, acceptKind?_cursor, r.start_token, r.value_token,
    r.stop_token]
  cases haccept : c.skipTrivia.acceptKind? .equals with
  | none => simp only [Option.map_none, attributeRead, r.node_leaf]
  | some found =>
      obtain ⟨equals, after⟩ := found
      obtain ⟨-, -, rfl, -⟩ := accept?_eq_some haccept
      have hvalue := hc.skipTrivia.advance.skipTrivia
      simp only [Option.map_some, Prod.map, skipTrivia_cursor, peek?_cursor, r.stop_token,
        h.recasts hvalue, advance_cursor]
      -- The value is a literal, an expression, or nothing.
      cases hnode : p c.skipTrivia.advance.skipTrivia with
      | none =>
          cases c.skipTrivia.advance.skipTrivia.peek? with
          | none => simp only [Option.map_none, attributeRead, r.node_leaf]
          | some t =>
              simp only [Option.map_some, Option.map_none, r.kind_token]
              split <;>
                simp only [attributeRead, r.node_leaf, r.stop_token, r.value_token, Option.map_none]
      | some found =>
          obtain ⟨hstart, hspan, hstop⟩ := h.span hvalue hrich hnode
          have htext := hinput.text _ _ hstart (Int.le_trans hstart hspan) hstop
          cases c.skipTrivia.advance.skipTrivia.peek? with
          | none =>
              simp only [Option.map_some, Option.map_none, read, r.start_node, r.stop_node,
                attributeRead, r.node_leaf, htext]
          | some t =>
              simp only [Option.map_some, r.kind_token]
              split <;>
                simp only [read, r.start_node, r.stop_node, attributeRead, r.node_leaf, htext,
                  r.stop_token, r.value_token, Option.map_none, Option.map_some]

variable (r) in
def startTag (tag : StartTag) : StartTag :=
  { ending := tag.ending, attributes := tag.attributes.map r.node
    expressions := tag.expressions.map r.node, cursor := r.cursor tag.cursor }

/-- A token that names an attribute is no boundary, so only a rich parse sees one. -/
theorem rich_of_attribute (hc : r.Sound input c) {t : Token} {rest : List Token}
    (hahead : c.ahead = t :: rest) (ht : t.kind = .attributeName) : input.rich = true := by
  cases hrich : input.rich with
  | true => rfl
  | false =>
      have hbare := hc.bare hrich t (by simp [hahead])
      rw [ht] at hbare
      exact absurd hbare (by decide)

theorem startTagLoop_recasts (hinput : r.Inputs input input') (d : Dialect)
    (h : r.Recasts input p p') (turns : Nat) (hc : r.Sound input c) :
    startTagLoop input' d p' turns (r.cursor c) = r.startTag (startTagLoop input d p turns c) := by
  have hrun := startTagRun input d p turns c
  generalize startTagLoop input d p turns c = tag at hrun
  induction hrun with
  | spent => rfl
  | exhausted hahead =>
      simp only [startTagLoop, skipTrivia_cursor, peek?_cursor, peek?_of_ahead_nil hahead]
      rfl
  | ended hahead ht =>
      simp only [startTagLoop, skipTrivia_cursor, peek?_cursor, peek?_of_ahead hahead,
        Option.map_some, r.kind_token, if_pos ht, advance_cursor]
      rfl
  | @named _ _ t _ read _ hahead ht hread _ ih =>
      have hrich := rich_of_attribute hc.skipTrivia hahead ht
      have hnext := hc.skipTrivia.advance.leads (leads_readAttribute input d h.toMoves t _)
      rw [hread] at hnext
      simp only [startTagLoop, skipTrivia_cursor, peek?_cursor, peek?_of_ahead hahead,
        Option.map_some, r.kind_token, ht, reduceCtorEq, or_self, if_false, if_true, advance_cursor,
        readAttribute_recasts hinput d h hrich t hc.skipTrivia.advance, hread, attributeRead,
        ih hnext]
      cases read.expression <;> rfl
  | cut hahead hend hname hcut =>
      simp only [startTagLoop, skipTrivia_cursor, peek?_cursor, peek?_of_ahead hahead,
        Option.map_some, r.kind_token, if_neg hend, if_neg hname, if_pos hcut]
      rfl
  | expression hahead hend hname hcut hnode _ ih =>
      simp only [startTagLoop, skipTrivia_cursor, peek?_cursor, peek?_of_ahead hahead,
        Option.map_some, r.kind_token, if_neg hend, if_neg hname, if_neg hcut,
        h.recasts hc.skipTrivia, hnode, read, ih (h.sound hc.skipTrivia hnode)]
      rfl
  | filler hahead hend hname hcut hnode _ ih =>
      simp only [startTagLoop, skipTrivia_cursor, peek?_cursor, peek?_of_ahead hahead,
        Option.map_some, r.kind_token, if_neg hend, if_neg hname, if_neg hcut,
        h.recasts hc.skipTrivia, hnode, Option.map_none, advance_cursor]
      exact ih hc.skipTrivia.advance

/-! ### Content -/

variable (r) in
def openElement (e : OpenElement) : OpenElement :=
  { e with opener := r.token e.opener }

variable (r) in
def content (found : Content) : Content :=
  { children := found.children.map r.node, closed := found.closed, stop := found.stop + r.offset
    cursor := r.cursor found.cursor }

theorem written_openElement (r : Recast) (e : OpenElement) :
    (r.openElement e).written = e.written :=
  r.tagName_token e.opener

theorem interruptedBy_openElement (r : Recast) (e : OpenElement) (t : Token) :
    (r.openElement e).interruptedBy (r.token t) = e.interruptedBy t := by
  simp only [OpenElement.interruptedBy, written_openElement, r.kind_token, tagName_token]

theorem complain_cursor (e : OpenElement) (cause : Anomaly) {blame : Token}
    (h : r.keeps blame.start = true) (c : Cursor) :
    (r.openElement e).complain cause (r.token blame) (r.cursor c)
      = r.cursor (e.complain cause blame c) := by
  simp only [OpenElement.complain, r.start_token, r.stop_token, note_cursor h,
    apply_ite r.cursor]
  rfl

theorem implies_eq (hinput : r.Inputs input input') (d : Dialect) :
    d.implies input' = d.implies input := by
  rw [Dialect.implies, Dialect.implies, hinput.implied]

theorem endsBefore_token (hinput : r.Inputs input input') (d : Dialect) (e : OpenElement)
    (t : Token) : (r.openElement e).endsBefore d input' (r.token t) = e.endsBefore d input t := by
  rw [OpenElement.endsBefore, OpenElement.endsBefore, r.kind_token, tagName_token,
    implies_eq hinput]
  rfl

theorem contentLoop_recasts (hinput : r.Inputs input input') (d : Dialect)
    (h : r.Recasts input child child') {e : OpenElement} (hkeeps : r.keeps e.opener.start = true)
    (turns : Nat) (hc : r.Sound input c) :
    contentLoop input' d child' (r.openElement e) turns (r.cursor c)
      = r.content (contentLoop input d child e turns c) := by
  have hrun := contentRun input d child e turns c
  generalize contentLoop input d child e turns c = found at hrun
  have hkey : (r.openElement e).key = e.key := rfl
  have hopener : (r.openElement e).opener = r.token e.opener := rfl
  have hnot {t : Token} (ht : ¬t.kind.isCloser = true) :
      ¬(t.kind = .tagClose ∧ Text.lower (tagName t) = e.key) :=
    fun h => ht (by rw [h.1]; rfl)
  induction hrun with
  | spent => simp only [contentLoop, content, hinput.stop, List.map_nil]
  | exhausted hahead =>
      simp only [contentLoop, skipTrivia_cursor, peek?_cursor, peek?_of_ahead_nil hahead,
        Option.map_none, hopener, written_openElement, complain_cursor e _ hkeeps, content,
        hinput.stop, List.map_nil]
  | closed hahead ht hname =>
      simp only [contentLoop, skipTrivia_cursor, peek?_cursor, peek?_of_ahead hahead,
        Option.map_some, r.kind_token, tagName_token, hkey, if_pos (And.intro ht hname),
        pastEndTag_cursor, hinput.previousEnd]
      rfl
  | interrupted hahead hother ht hrecover =>
      have hblame := hc.skipTrivia.keeps hahead (ne_rawText_of_isCloser ht)
      simp only [contentLoop, skipTrivia_cursor, peek?_cursor, peek?_of_ahead hahead,
        Option.map_some, r.kind_token, tagName_token, hkey, if_neg hother, if_pos ht,
        recover?_cursor hblame, hrecover, Option.map_none, interruptedBy_openElement,
        complain_cursor e _ hblame, r.start_token]
      rfl
  | stray hahead hother ht hrecover _ ih =>
      have hblame := hc.skipTrivia.keeps hahead (ne_rawText_of_isCloser ht)
      simp only [contentLoop, skipTrivia_cursor, peek?_cursor, peek?_of_ahead hahead,
        Option.map_some, r.kind_token, tagName_token, hkey, if_neg hother, if_pos ht,
        recover?_cursor hblame, hrecover]
      exact ih (hc.skipTrivia.leads (steps_of_recover? hahead hrecover).leads)
  | implied hahead ht hends =>
      simp only [contentLoop, skipTrivia_cursor, peek?_cursor, peek?_of_ahead hahead,
        Option.map_some, r.kind_token, tagName_token, hkey, if_neg (hnot ht), if_neg ht,
        endsBefore_token hinput, if_pos hends, r.start_token]
      rfl
  | child hahead ht hends hnode _ ih =>
      simp only [contentLoop, skipTrivia_cursor, peek?_cursor, peek?_of_ahead hahead,
        Option.map_some, r.kind_token, tagName_token, hkey, if_neg (hnot ht), if_neg ht,
        endsBefore_token hinput, if_neg hends, h.recasts hc.skipTrivia, hnode, read,
        ih (h.sound hc.skipTrivia hnode)]
      rfl
  | filler hahead ht hends hnode _ ih =>
      simp only [contentLoop, skipTrivia_cursor, peek?_cursor, peek?_of_ahead hahead,
        Option.map_some, r.kind_token, tagName_token, hkey, if_neg (hnot ht), if_neg ht,
        endsBefore_token hinput, if_neg hends, h.recasts hc.skipTrivia, hnode, Option.map_none,
        advance_cursor]
      exact ih hc.skipTrivia.advance

theorem recasts_element (hinput : r.Inputs input input') (d : Dialect)
    (hchild : r.Recasts input child child') (h : r.Recasts input p p') :
    r.Recasts input (element input d child p) (element input' d child' p') := by
  refine { fits_element d hchild.toFits h.toFits with recasts := ?_ }
  intro c hc
  simp only [element, acceptKind?_cursor]
  cases haccept : c.acceptKind? .tagOpen with
  | none => rfl
  | some found =>
      obtain ⟨opener, after⟩ := found
      obtain ⟨hkind, -, rfl, hahead⟩ := accept?_eq_some haccept
      have hkeeps : r.keeps opener.start = true := hc.keeps hahead (by simp [hkind])
      have htag := hc.advance.leads (leads_startTagLoop input d h.toMoves input.bound c.advance)
      simp only [Option.map_some, Prod.map, tagName_token, hinput.bound, implies_eq hinput,
        startTagLoop_recasts hinput d h input.bound hc.advance, startTag, tooDeep_cursor]
      split
      · simp only [Option.map_some, read, r.node_element, r.start_token, hinput.previousEnd]
      split
      · simp only [Option.map_some, read, r.node_element, r.start_token, r.stop_token,
          note_cursor hkeeps, hinput.previousEnd]
      · have hcontent := contentLoop_recasts hinput d hchild
          (e := { opener, key := Text.lower (tagName opener)
                  optional := d.implies input
                    && Markup.optionalEndTags.contains (Text.lower (tagName opener)) })
          hkeeps input.bound (htag.push
            { closer := .tagClose, name := some (Text.lower (tagName opener))
              start := opener.start })
        simp only [openElement] at hcontent
        simp only [r.start_token, push_cursor, hcontent, content, Option.map_some, read,
          r.node_element, List.map_append, closeTo_cursor]

end SourceView.Parsing.Recast
