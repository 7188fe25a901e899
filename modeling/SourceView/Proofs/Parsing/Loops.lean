/-
Runs of the loops of a parse.

A loop over tokens is told turn by turn: at what token the turn stands, what it does about it, and
where the loop goes on.  A run is a row of such turns, with as many as the loop has, and what the
loop finds is what its run finds.  So what holds of a loop is shown by induction on its runs, with
one case for each thing that a turn may do.

The whitespace at the cursor is passed first in every turn.  An element has two such loops, and
there is more than one way for it to end; these ways are told once as well.
-/
import SourceView.Parsing.Element

namespace SourceView.Parsing

namespace Cursor

variable {c : Cursor} {t : Token}

theorem ahead_of_peek? (h : c.peek? = some t) : ∃ rest, c.ahead = t :: rest := by
  unfold peek? at h
  cases hahead : c.ahead with
  | nil => simp [hahead] at h
  | cons u rest =>
      rw [hahead, List.head?_cons, Option.some.injEq] at h
      exact ⟨rest, by rw [h]⟩

theorem ahead_of_peek?_none (h : c.peek? = none) : c.ahead = [] :=
  List.head?_eq_none_iff.mp h

theorem peek?_of_ahead {rest : List Token} (h : c.ahead = t :: rest) : c.peek? = some t := by
  rw [peek?, h, List.head?_cons]

theorem peek?_of_ahead_nil (h : c.ahead = []) : c.peek? = none := by
  rw [peek?, h, List.head?_nil]

theorem accept?_eq_some {d : Cursor} {kind : TokenKind} {right : String → Bool}
    (h : c.accept? kind right = some (t, d)) :
    t.kind = kind ∧ right t.value = true ∧ d = c.advance ∧ c.ahead = t :: d.ahead := by
  unfold accept? at h
  cases hahead : c.ahead with
  | nil => simp [hahead] at h
  | cons u rest =>
      simp only [hahead] at h
      by_cases hright : u.kind = kind ∧ right u.value = true
      · rw [if_pos hright, Option.some.injEq, Prod.mk.injEq] at h
        obtain ⟨rfl, rfl⟩ := h
        exact ⟨hright.1, hright.2, rfl, by simp [advance, hahead]⟩
      · rw [if_neg hright] at h
        exact absurd h (by simp)

end Cursor

open Cursor

/-! ### Attempts -/

/-- A rule that reads a node has been tried with success. -/
theorem Attempt.read_eq_some {attempt : Attempt} {c d : Cursor} {node : Node} :
    attempt.read c = some (node, d) ↔ attempt c = .ok (node, d) := by
  unfold read
  cases attempt c <;> simp [Except.toOption]

theorem Attempt.leftAt_of_read {attempt : Attempt} {c d : Cursor} {node : Node}
    (h : attempt.read c = some (node, d)) : attempt.leftAt c = d := by
  rw [leftAt, read_eq_some.mp h]

/-! ### Children -/

section

variable (item : Production) (closer : Option TokenKind)

/-- The runs of the loop over children. -/
inductive ItemsRun : (turns : Nat) → Cursor → Items → Prop
  | spent {c : Cursor} : ItemsRun 0 c ⟨[], none, c⟩
  | ended {turns : Nat} {c : Cursor} (hahead : c.skipTrivia.ahead = []) :
      ItemsRun (turns + 1) c ⟨[], none, c.skipTrivia⟩
  | closed {turns : Nat} {c : Cursor} {t : Token} {rest : List Token}
      (hahead : c.skipTrivia.ahead = t :: rest) (ht : some t.kind = closer) :
      ItemsRun (turns + 1) c ⟨[], some t, c.skipTrivia.advance⟩
  | awaited {turns : Nat} {c : Cursor} {t : Token} {rest : List Token}
      (hahead : c.skipTrivia.ahead = t :: rest) (hother : some t.kind ≠ closer)
      (ht : t.kind.isCloser = true) (hrecover : c.skipTrivia.recover? t = none) :
      ItemsRun (turns + 1) c ⟨[], none, c.skipTrivia⟩
  | stray {turns : Nat} {c d : Cursor} {t : Token} {rest : List Token} {found : Items}
      (hahead : c.skipTrivia.ahead = t :: rest) (hother : some t.kind ≠ closer)
      (ht : t.kind.isCloser = true) (hrecover : c.skipTrivia.recover? t = some d)
      (more : ItemsRun turns d found) : ItemsRun (turns + 1) c found
  | node {turns : Nat} {c d : Cursor} {t : Token} {rest : List Token} {node : Node}
      {found : Items} (hahead : c.skipTrivia.ahead = t :: rest) (hother : some t.kind ≠ closer)
      (ht : ¬t.kind.isCloser = true) (hnode : item c.skipTrivia = some (node, d))
      (more : ItemsRun turns d found) :
      ItemsRun (turns + 1) c { found with nodes := node :: found.nodes }
  | filler {turns : Nat} {c : Cursor} {t : Token} {rest : List Token} {found : Items}
      (hahead : c.skipTrivia.ahead = t :: rest) (hother : some t.kind ≠ closer)
      (ht : ¬t.kind.isCloser = true) (hnode : item c.skipTrivia = none)
      (more : ItemsRun turns c.skipTrivia.advance found) : ItemsRun (turns + 1) c found

theorem itemsRun (turns : Nat) (c : Cursor) :
    ItemsRun item closer turns c (itemsLoop item closer turns c) := by
  induction turns generalizing c with
  | zero => exact .spent
  | succ turns ih =>
      unfold itemsLoop
      cases hpeek : c.skipTrivia.peek? with
      | none =>
          simp only [hpeek]
          exact .ended (ahead_of_peek?_none hpeek)
      | some t =>
          obtain ⟨rest, hahead⟩ := ahead_of_peek? hpeek
          simp only [hpeek]
          by_cases hcloser : some t.kind = closer
          · rw [if_pos hcloser]
            exact .closed hahead hcloser
          rw [if_neg hcloser]
          by_cases ht : t.kind.isCloser = true
          · rw [if_pos ht]
            cases hrecover : c.skipTrivia.recover? t with
            | none => exact .awaited hahead hcloser ht hrecover
            | some d => exact .stray hahead hcloser ht hrecover (ih d)
          rw [if_neg ht]
          cases hnode : item c.skipTrivia with
          | none => exact .filler hahead hcloser ht hnode (ih _)
          | some read => exact .node hahead hcloser ht hnode (ih _)

variable {item closer}

/-- There is no other run. -/
theorem ItemsRun.eq {turns : Nat} {c : Cursor} {found : Items}
    (h : ItemsRun item closer turns c found) : itemsLoop item closer turns c = found := by
  induction h with
  | spent => rfl
  | ended hahead => simp only [itemsLoop, peek?_of_ahead_nil hahead]
  | closed hahead ht => simp only [itemsLoop, peek?_of_ahead hahead, if_pos ht]
  | awaited hahead hother ht hrecover =>
      simp only [itemsLoop, peek?_of_ahead hahead, if_neg hother, if_pos ht, hrecover]
  | stray hahead hother ht hrecover _ ih =>
      simp only [itemsLoop, peek?_of_ahead hahead, if_neg hother, if_pos ht, hrecover, ih]
  | node hahead hother ht hnode _ ih =>
      simp only [itemsLoop, peek?_of_ahead hahead, if_neg hother, if_neg ht, hnode, ih]
  | filler hahead hother ht hnode _ ih =>
      simp only [itemsLoop, peek?_of_ahead hahead, if_neg hother, if_neg ht, hnode, ih]

end

/-! ### Start tags -/

section

variable (input : Input) (d : Dialect) (expression : Production)

/-- The runs of the loop over a start tag. -/
inductive StartTagRun : (turns : Nat) → Cursor → StartTag → Prop
  | spent {c : Cursor} : StartTagRun 0 c ⟨none, [], [], c⟩
  | exhausted {turns : Nat} {c : Cursor} (hahead : c.skipTrivia.ahead = []) :
      StartTagRun (turns + 1) c ⟨none, [], [], c.skipTrivia⟩
  | ended {turns : Nat} {c : Cursor} {t : Token} {rest : List Token}
      (hahead : c.skipTrivia.ahead = t :: rest)
      (ht : t.kind = .tagEnd ∨ t.kind = .tagSelfCloseEnd) :
      StartTagRun (turns + 1) c ⟨some t.kind, [], [], c.skipTrivia.advance⟩
  | named {turns : Nat} {c : Cursor} {t : Token} {rest : List Token} {read : AttributeRead}
      {tag : StartTag} (hahead : c.skipTrivia.ahead = t :: rest) (ht : t.kind = .attributeName)
      (hread : readAttribute input d expression t c.skipTrivia.advance = read)
      (more : StartTagRun turns read.cursor tag) :
      StartTagRun (turns + 1) c
        { tag with
          attributes := read.node :: tag.attributes
          expressions := read.expression.toList ++ tag.expressions }
  | cut {turns : Nat} {c : Cursor} {t : Token} {rest : List Token}
      (hahead : c.skipTrivia.ahead = t :: rest)
      (hend : ¬(t.kind = .tagEnd ∨ t.kind = .tagSelfCloseEnd)) (hname : t.kind ≠ .attributeName)
      (hcut : t.kind = .tagOpen ∨ t.kind.isCloser = true) :
      StartTagRun (turns + 1) c ⟨none, [], [], c.skipTrivia⟩
  | expression {turns : Nat} {c c' : Cursor} {t : Token} {rest : List Token} {node : Node}
      {tag : StartTag} (hahead : c.skipTrivia.ahead = t :: rest)
      (hend : ¬(t.kind = .tagEnd ∨ t.kind = .tagSelfCloseEnd)) (hname : t.kind ≠ .attributeName)
      (hcut : ¬(t.kind = .tagOpen ∨ t.kind.isCloser = true))
      (hnode : expression c.skipTrivia = some (node, c')) (more : StartTagRun turns c' tag) :
      StartTagRun (turns + 1) c { tag with expressions := node :: tag.expressions }
  | filler {turns : Nat} {c : Cursor} {t : Token} {rest : List Token} {tag : StartTag}
      (hahead : c.skipTrivia.ahead = t :: rest)
      (hend : ¬(t.kind = .tagEnd ∨ t.kind = .tagSelfCloseEnd)) (hname : t.kind ≠ .attributeName)
      (hcut : ¬(t.kind = .tagOpen ∨ t.kind.isCloser = true))
      (hnode : expression c.skipTrivia = none)
      (more : StartTagRun turns c.skipTrivia.advance tag) : StartTagRun (turns + 1) c tag

theorem startTagRun (turns : Nat) (c : Cursor) :
    StartTagRun input d expression turns c (startTagLoop input d expression turns c) := by
  induction turns generalizing c with
  | zero => exact .spent
  | succ turns ih =>
      unfold startTagLoop
      cases hpeek : c.skipTrivia.peek? with
      | none =>
          simp only [hpeek]
          exact .exhausted (ahead_of_peek?_none hpeek)
      | some t =>
          obtain ⟨rest, hahead⟩ := ahead_of_peek? hpeek
          simp only [hpeek]
          by_cases hend : t.kind = .tagEnd ∨ t.kind = .tagSelfCloseEnd
          · rw [if_pos hend]
            exact .ended hahead hend
          rw [if_neg hend]
          by_cases hname : t.kind = .attributeName
          · rw [if_pos hname]
            exact .named hahead hname rfl (ih _)
          rw [if_neg hname]
          by_cases hcut : t.kind = .tagOpen ∨ t.kind.isCloser = true
          · rw [if_pos hcut]
            exact .cut hahead hend hname hcut
          rw [if_neg hcut]
          cases hnode : expression c.skipTrivia with
          | none => exact .filler hahead hend hname hcut hnode (ih _)
          | some found => exact .expression hahead hend hname hcut hnode (ih _)

variable {input d expression}

/-- There is no other run. -/
theorem StartTagRun.eq {turns : Nat} {c : Cursor} {tag : StartTag}
    (h : StartTagRun input d expression turns c tag) :
    startTagLoop input d expression turns c = tag := by
  induction h with
  | spent => rfl
  | exhausted hahead => simp only [startTagLoop, peek?_of_ahead_nil hahead]
  | ended hahead ht => simp only [startTagLoop, peek?_of_ahead hahead, if_pos ht]
  | named hahead ht hread _ ih =>
      simp only [startTagLoop, peek?_of_ahead hahead, ht, reduceCtorEq, or_self, if_false, if_true,
        hread, ih]
  | cut hahead hend hname hcut =>
      simp only [startTagLoop, peek?_of_ahead hahead, if_neg hend, if_neg hname, if_pos hcut]
  | expression hahead hend hname hcut hnode _ ih =>
      simp only [startTagLoop, peek?_of_ahead hahead, if_neg hend, if_neg hname, if_neg hcut, hnode,
        ih]
  | filler hahead hend hname hcut hnode _ ih =>
      simp only [startTagLoop, peek?_of_ahead hahead, if_neg hend, if_neg hname, if_neg hcut, hnode,
        ih]

end

/-! ### Content -/

section

variable (input : Input) (d : Dialect) (child : Production) (e : OpenElement)

/-- The runs of the loop over the content of an element. -/
inductive ContentRun : (turns : Nat) → Cursor → Content → Prop
  | spent {c : Cursor} : ContentRun 0 c ⟨[], false, input.stop, c⟩
  | exhausted {turns : Nat} {c : Cursor} (hahead : c.skipTrivia.ahead = []) :
      ContentRun (turns + 1) c
        ⟨[], false, input.stop, e.complain (.unclosedElement e.written) e.opener c.skipTrivia⟩
  | closed {turns : Nat} {c : Cursor} {t : Token} {rest : List Token}
      (hahead : c.skipTrivia.ahead = t :: rest) (ht : t.kind = .tagClose)
      (hname : Text.lower (tagName t) = e.key) :
      ContentRun (turns + 1) c
        ⟨[], true, c.skipTrivia.pastEndTag.previousEnd input, c.skipTrivia.pastEndTag⟩
  | interrupted {turns : Nat} {c : Cursor} {t : Token} {rest : List Token}
      (hahead : c.skipTrivia.ahead = t :: rest)
      (hother : ¬(t.kind = .tagClose ∧ Text.lower (tagName t) = e.key))
      (ht : t.kind.isCloser = true) (hrecover : c.skipTrivia.recover? t = none) :
      ContentRun (turns + 1) c
        ⟨[], false, t.start, e.complain (e.interruptedBy t) t c.skipTrivia⟩
  | stray {turns : Nat} {c c' : Cursor} {t : Token} {rest : List Token} {content : Content}
      (hahead : c.skipTrivia.ahead = t :: rest)
      (hother : ¬(t.kind = .tagClose ∧ Text.lower (tagName t) = e.key))
      (ht : t.kind.isCloser = true) (hrecover : c.skipTrivia.recover? t = some c')
      (more : ContentRun turns c' content) : ContentRun (turns + 1) c content
  | implied {turns : Nat} {c : Cursor} {t : Token} {rest : List Token}
      (hahead : c.skipTrivia.ahead = t :: rest) (ht : ¬t.kind.isCloser = true)
      (hends : e.endsBefore d input t = true) :
      ContentRun (turns + 1) c ⟨[], false, t.start, c.skipTrivia⟩
  | child {turns : Nat} {c c' : Cursor} {t : Token} {rest : List Token} {node : Node}
      {content : Content} (hahead : c.skipTrivia.ahead = t :: rest)
      (ht : ¬t.kind.isCloser = true) (hends : ¬e.endsBefore d input t = true)
      (hnode : child c.skipTrivia = some (node, c')) (more : ContentRun turns c' content) :
      ContentRun (turns + 1) c { content with children := node :: content.children }
  | filler {turns : Nat} {c : Cursor} {t : Token} {rest : List Token} {content : Content}
      (hahead : c.skipTrivia.ahead = t :: rest) (ht : ¬t.kind.isCloser = true)
      (hends : ¬e.endsBefore d input t = true) (hnode : child c.skipTrivia = none)
      (more : ContentRun turns c.skipTrivia.advance content) : ContentRun (turns + 1) c content

theorem contentRun (turns : Nat) (c : Cursor) :
    ContentRun input d child e turns c (contentLoop input d child e turns c) := by
  induction turns generalizing c with
  | zero => exact .spent
  | succ turns ih =>
      unfold contentLoop
      cases hpeek : c.skipTrivia.peek? with
      | none =>
          simp only [hpeek]
          exact .exhausted (ahead_of_peek?_none hpeek)
      | some t =>
          obtain ⟨rest, hahead⟩ := ahead_of_peek? hpeek
          simp only [hpeek]
          by_cases hend : t.kind = .tagClose ∧ Text.lower (tagName t) = e.key
          · rw [if_pos hend]
            exact .closed hahead hend.1 hend.2
          rw [if_neg hend]
          by_cases ht : t.kind.isCloser = true
          · rw [if_pos ht]
            cases hrecover : c.skipTrivia.recover? t with
            | none => exact .interrupted hahead hend ht hrecover
            | some c' => exact .stray hahead hend ht hrecover (ih c')
          rw [if_neg ht]
          by_cases hends : e.endsBefore d input t = true
          · rw [if_pos hends]
            exact .implied hahead ht hends
          rw [if_neg hends]
          cases hnode : child c.skipTrivia with
          | none => exact .filler hahead ht hends hnode (ih _)
          | some found => exact .child hahead ht hends hnode (ih _)

variable {input d child e}

/-- There is no other run. -/
theorem ContentRun.eq {turns : Nat} {c : Cursor} {content : Content}
    (h : ContentRun input d child e turns c content) :
    contentLoop input d child e turns c = content := by
  have hnot {t : Token} (ht : ¬t.kind.isCloser = true) :
      ¬(t.kind = .tagClose ∧ Text.lower (tagName t) = e.key) :=
    fun h => ht (by rw [h.1]; rfl)
  induction h with
  | spent => rfl
  | exhausted hahead => simp only [contentLoop, peek?_of_ahead_nil hahead]
  | closed hahead ht hname =>
      simp only [contentLoop, peek?_of_ahead hahead, if_pos (And.intro ht hname)]
  | interrupted hahead hother ht hrecover =>
      simp only [contentLoop, peek?_of_ahead hahead, if_neg hother, if_pos ht, hrecover]
  | stray hahead hother ht hrecover _ ih =>
      simp only [contentLoop, peek?_of_ahead hahead, if_neg hother, if_pos ht, hrecover, ih]
  | implied hahead ht hends =>
      simp only [contentLoop, peek?_of_ahead hahead, if_neg (hnot ht), if_neg ht, if_pos hends]
  | child hahead ht hends hnode _ ih =>
      simp only [contentLoop, peek?_of_ahead hahead, if_neg (hnot ht), if_neg ht, if_neg hends,
        hnode, ih]
  | filler hahead ht hends hnode _ ih =>
      simp only [contentLoop, peek?_of_ahead hahead, if_neg (hnot ht), if_neg ht, if_neg hends,
        hnode, ih]

end

/-! ### Elements -/

section

variable {input : Input} {d : Dialect} {child expression : Production}

/-- The ways an element is read behind its start tag `tag`: it ends there, it is in too many
others for anything to be read into it, or its content follows. -/
inductive ElementRead (input : Input) (d : Dialect) (child : Production) (opener : Token)
    (tag : StartTag) : Node → Cursor → Prop
  | empty (hempty : tag.ending = some .tagSelfCloseEnd
      ∨ (tag.ending = some .tagEnd ∧ d.voidElements.contains (Text.lower (tagName opener)))) :
      ElementRead input d child opener tag
        (.element opener.start (tag.cursor.previousEnd input)
          { name := d.name (tagName opener), selfClosing := true } tag.attributes tag.expressions)
        tag.cursor
  | tooDeep (hopen : ¬(tag.ending = some .tagSelfCloseEnd
      ∨ (tag.ending = some .tagEnd ∧ d.voidElements.contains (Text.lower (tagName opener)))))
      (hdeep : tag.cursor.tooDeep = true) :
      ElementRead input d child opener tag
        (.element opener.start (tag.cursor.previousEnd input)
          { name := d.name (tagName opener), closed := false } tag.attributes tag.expressions)
        (tag.cursor.note .tooDeep opener.start opener.stop)
  | content (hopen : ¬(tag.ending = some .tagSelfCloseEnd
      ∨ (tag.ending = some .tagEnd ∧ d.voidElements.contains (Text.lower (tagName opener)))))
      (hdeep : ¬tag.cursor.tooDeep = true) {e : OpenElement}
      (he : e = { opener, key := Text.lower (tagName opener)
                  optional := d.implies input
                    && Markup.optionalEndTags.contains (Text.lower (tagName opener)) })
      {content : Content}
      (hcontent : contentLoop input d child e input.bound (tag.cursor.push
        { closer := .tagClose, name := some e.key, start := opener.start }) = content) :
      ElementRead input d child opener tag
        (.element opener.start content.stop
          { name := d.name (tagName opener), closed := content.closed } tag.attributes
          (tag.expressions ++ content.children))
        (content.cursor.closeTo tag.cursor)

/-- An element begins with its opener, and is read in one of these ways. -/
theorem elementRead {c after : Cursor} {node : Node}
    (h : element input d child expression c = some (node, after)) :
    ∃ opener rest, c.ahead = opener :: rest ∧ opener.kind = .tagOpen
      ∧ ElementRead input d child opener
        (startTagLoop input d expression input.bound c.advance) node after := by
  unfold element at h
  cases hopener : c.acceptKind? .tagOpen with
  | none => simp [hopener] at h
  | some found =>
      obtain ⟨opener, c'⟩ := found
      obtain ⟨hopen, -, rfl, hahead⟩ := accept?_eq_some hopener
      refine ⟨opener, _, hahead, hopen, ?_⟩
      simp only [hopener] at h
      split at h
      · rename_i hempty
        obtain ⟨rfl, rfl⟩ := Prod.mk.inj (Option.some.inj h)
        exact .empty hempty
      rename_i hempty
      split at h
      · rename_i hdeep
        obtain ⟨rfl, rfl⟩ := Prod.mk.inj (Option.some.inj h)
        exact .tooDeep hempty hdeep
      · rename_i hdeep
        obtain ⟨rfl, rfl⟩ := Prod.mk.inj (Option.some.inj h)
        exact .content hempty hdeep rfl rfl

end

end SourceView.Parsing
