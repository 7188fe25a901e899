/-
How elements are outlined.

The tags of an element are boundaries, and so are the braces of the expressions in its start
tag.  Attributes are not: a rich parse reads them where an outline stands still, until the
brace of an attribute's value or the end of the tag comes up for both.

Where an element ends does not depend on what is passed on the way.  It ends at its end tag,
at a token that both parses see, or with the text; only a start tag that is cut short past
the nesting limit ends wherever the parse has got to, so a relation between nodes must not
look at elements once that limit was met.
-/
import SourceView.Proofs.Parsing.Outline

namespace SourceView

/-- Whether a node is an attribute. -/
def Node.isAttribute : Node → Bool
  | leaf _ _ (.attribute ..) => true
  | _ => false

namespace Parsing

open Cursor

variable {good : List Token → List Token → Prop} {R : List Fault → List Node → List Node → Prop}
variable {n m : Nat} {input outline : Input} {d : Dialect} {expression expression' : Production}
variable {child child' : Production} {r s : Cursor}

/-- The production reads nothing but blocks. -/
def ReadsBlocks (p : Production) : Prop :=
  ∀ {c : Cursor} {found : Node × Cursor}, p c = some found →
    ∃ t rest, c.ahead = t :: rest ∧ t.kind = .blockOpen

theorem ReadsBlocks.none_of_ne {p : Production} (h : ReadsBlocks p) {c : Cursor} {t : Token}
    {rest : List Token} (hahead : c.ahead = t :: rest) (ht : t.kind ≠ .blockOpen) :
    p c = none := by
  cases hread : p c with
  | none => rfl
  | some found =>
      obtain ⟨u, us, hu, hkind⟩ := h hread
      rw [hahead, List.cons.injEq] at hu
      exact absurd (hu.1 ▸ hkind) ht

/-! ### Start tags -/

theorem readAttribute_isAttribute (input : Input) (d : Dialect) (expression : Production)
    (name : Token) (c : Cursor) :
    (readAttribute input d expression name c).node.isAttribute = true := by
  unfold readAttribute
  simp only
  split
  · rfl
  · rename_i equals c' _
    split
    · split
      · rfl
      · split <;> rfl
    · split <;> rfl

/-- What stands after the name of an attribute is passed by the rich parse alone, unless it
is an expression: that one both parses read. -/
theorem readAttribute_mirrors (hgood : Streams good) (input : Input) (d : Dialect)
    (h : Pairs good R n m expression expression') (hblocks : ReadsBlocks expression) (name : Token)
    (hmirrors : r.Mirrors good s)
    (hn : r.ahead.length < n) (hm : s.ahead.length < m) :
    let read := readAttribute input d expression name r
    (read.expression = none ∧ read.cursor.Mirrors good s)
      ∨ ∃ node other s' u rest, read.expression = some node ∧ s.ahead = u :: rest
        ∧ u.kind = .blockOpen ∧ expression' s = some (other, s')
        ∧ read.cursor.Mirrors good s' ∧ R s'.faults [node] [other] := by
  have hskip := hmirrors.skipTrivia hgood
  have hshort := (leads_skipTrivia r).length_le
  unfold readAttribute
  cases hequals : r.skipTrivia.acceptKind? .equals with
  | none => exact Or.inl ⟨rfl, hmirrors⟩
  | some found =>
      obtain ⟨equals, c⟩ := found
      obtain ⟨hkind, -, rfl, hahead⟩ := accept?_eq_some hequals
      have hvalue := (hskip.filler hgood hahead (by rw [hkind]; rfl)).skipTrivia hgood
      have hlen := ((steps_advance hahead).leads.trans (leads_skipTrivia _)).length_le
      simp only
      generalize r.skipTrivia.advance.skipTrivia = c at hvalue hlen
      cases hpeek : c.peek? with
      | none =>
          cases hnode : expression c with
          | none => exact Or.inl ⟨rfl, hvalue⟩
          | some found =>
              obtain ⟨t, rest, hopen, -⟩ := hblocks hnode
              rw [ahead_of_peek?_none hpeek] at hopen
              exact absurd hopen (by simp)
      | some t =>
          obtain ⟨rest, hahead'⟩ := ahead_of_peek? hpeek
          by_cases hliteral : t.kind = .attributeValue ∨ t.kind = .error
          · have hfiller : t.kind.isStructural = false := by
              rcases hliteral with hliteral | hliteral <;> rw [hliteral] <;> rfl
            simp only [if_pos hliteral]
            exact Or.inl ⟨trivial, hvalue.filler hgood hahead' hfiller⟩
          simp only [if_neg hliteral]
          cases hnode : expression c with
          | none => exact Or.inl ⟨rfl, hvalue⟩
          | some found =>
              obtain ⟨u, us, hopen, hblock⟩ := hblocks hnode
              have hboundary : u.kind.isStructural = true := by rw [hblock]; rfl
              obtain ⟨v, vs, hs, hbare, -⟩ := hvalue.boundary hgood hopen hboundary
              obtain ⟨other, s', hother, hcursor, hrelated⟩ :=
                h.reads hvalue (by omega) hm hopen hboundary hnode
              exact Or.inr ⟨_, _, _, v, vs, rfl, hs, (Token.kind_of_bare hbare).trans hblock,
                hother, hcursor, hrelated⟩

/-- The start tags end alike, and hold the same expressions; attributes are left out of an
outline. -/
structure StartTag.Matched (good : List Token → List Token → Prop)
    (R : List Fault → List Node → List Node → Prop) (a b : StartTag) : Prop where
  ending : b.ending = a.ending
  cursor : a.cursor.Mirrors good b.cursor
  expressions : R b.cursor.faults a.expressions b.expressions
  attributes : ∀ x ∈ a.attributes, x.isAttribute = true
  bare : b.attributes = []
  stop : a.ending ≠ none → ∀ input outline : Input,
    b.cursor.previousEnd outline = a.cursor.previousEnd input

theorem StartTag.Matched.withExpression (hR : Relates R) {a b : StartTag} (h : a.Matched good R b)
    {f : List Fault} {node other : Node} (hnode : R f [node] [other])
    (hf : f <:+ b.cursor.faults) :
    StartTag.Matched good R { a with expressions := node :: a.expressions }
      { b with expressions := other :: b.expressions } :=
  ⟨h.ending, h.cursor, hR.append (hR.mono hnode hf) h.expressions, h.attributes, h.bare, h.stop⟩

theorem StartTag.Matched.withAttribute {a b : StartTag} (h : a.Matched good R b) {node : Node}
    (hnode : node.isAttribute = true) :
    StartTag.Matched good R { a with attributes := node :: a.attributes } b := by
  refine ⟨h.ending, h.cursor, h.expressions, fun x hx => ?_, h.bare, h.stop⟩
  rcases List.mem_cons.mp hx with rfl | hx
  · exact hnode
  · exact h.attributes x hx

/-- Both stop where they are, and no token ended the start tag. -/
theorem Cursor.Mirrors.cutTag (hR : Relates R) (h : r.Mirrors good s) :
    StartTag.Matched good R ⟨none, [], [], r⟩ ⟨none, [], [], s⟩ :=
  ⟨rfl, h, hR.nil _, by simp, rfl, fun habsurd => absurd rfl habsurd⟩

/-- Both pass the token that ends the start tag. -/
theorem Cursor.Mirrors.endedTag (hgood : Streams good) (hR : Relates R) (h : r.Mirrors good s)
    {t : Token} {rest : List Token} (hahead : r.ahead = t :: rest)
    (ht : t.kind = .tagEnd ∨ t.kind = .tagSelfCloseEnd) :
    ∃ u us, s.ahead = u :: us ∧ (u.kind = .tagEnd ∨ u.kind = .tagSelfCloseEnd)
      ∧ StartTag.Matched good R ⟨some t.kind, [], [], r.advance⟩ ⟨some u.kind, [], [], s.advance⟩ := by
  have hboundary : t.kind.isStructural = true := by
    rcases ht with ht | ht <;> rw [ht] <;> rfl
  obtain ⟨u, us, hs, hbare, hnext⟩ := h.boundary hgood hahead hboundary
  have hkind := Token.kind_of_bare hbare
  refine ⟨u, us, hs, hkind ▸ ht, congrArg some hkind, hnext, hR.nil _, by simp, rfl,
    fun _ _ _ => ?_⟩
  simp [previousEnd, advance, hahead, hs, Token.stop_of_bare hbare]

/-- What is found from where the rich loop stands matches what a loop finds from any cursor that
mirrors it. -/
def StartTag.Mirrored (good : List Token → List Token → Prop)
    (R : List Fault → List Node → List Node → Prop) (m : Nat) (outline : Input) (d : Dialect)
    (expression' : Production) (r : Cursor) (tag : StartTag) : Prop :=
  ∀ ⦃s : Cursor⦄ ⦃turns : Nat⦄, r.Mirrors good s → s.ahead.length < m → s.ahead.length < turns →
    tag.Matched good R (startTagLoop outline d expression' turns s)

namespace StartTag.Mirrored

variable {tag : StartTag} {t u : Token} {rest us : List Token} {node other : Node} {r' s' : Cursor}
variable {turns : Nat}

/-- An expression takes a turn of both loops. -/
theorem withExpression (hR : Relates R) (hexpression' : Moves expression')
    (h : tag.Mirrored good R m outline d expression' r') (hmirrors : r'.Mirrors good s')
    (hskip : s.skipTrivia = s) (hs : s.ahead = u :: us) (hu : u.kind = .blockOpen)
    (hother : expression' s = some (other, s')) (hrelated : R s'.faults [node] [other])
    (hm : s.ahead.length < m) (hturns : s.ahead.length < turns) :
    StartTag.Matched good R { tag with expressions := node :: tag.expressions }
      (startTagLoop outline d expression' turns s) := by
  obtain ⟨turns, rfl⟩ : ∃ k, turns = k + 1 := ⟨turns - 1, by omega⟩
  have hstep := (hexpression'.steps hother).shorter
  have hrun : StartTagRun outline d expression' (turns + 1) s _ :=
    .expression (hskip.symm ▸ hs) (by simp [hu]) (by simp [hu]) (by simp [hu, TokenKind.isCloser])
      (hskip.symm ▸ hother) (startTagRun outline d expression' turns s')
  rw [hrun.eq]
  exact (h hmirrors (by omega) (by omega)).withExpression hR hrelated
    (leads_startTagLoop outline d hexpression' turns s').faults

/-- An attribute is read by the rich loop alone, unless its value is an expression. -/
theorem withAttribute (hgood : Streams good) (hR : Relates R) (hexpression' : Moves expression')
    (hpairs : Pairs good R n m expression expression') (hblocks : ReadsBlocks expression)
    (h : tag.Mirrored good R m outline d expression'
      (readAttribute input d expression t r).cursor)
    (hmirrors : r.Mirrors good s) (hn : r.ahead.length < n) (hm : s.ahead.length < m)
    (hturns : s.ahead.length < turns) :
    StartTag.Matched good R
      { tag with
        attributes := (readAttribute input d expression t r).node :: tag.attributes
        expressions := (readAttribute input d expression t r).expression.toList ++ tag.expressions }
      (startTagLoop outline d expression' turns s) := by
  have hattribute := readAttribute_isAttribute input d expression t r
  rcases readAttribute_mirrors hgood input d hpairs hblocks t hmirrors hn hm with
    ⟨hnone, hcursor⟩ | ⟨node, other, s', u, us, hsome, hs, hu, hother, hcursor, hrelated⟩
  · rw [hnone]
    exact (h hcursor hm hturns).withAttribute hattribute
  · rw [hsome]
    exact (h.withExpression hR hexpression' hcursor hmirrors.skipTrivia_eq hs hu hother hrelated hm
      hturns).withAttribute hattribute

/-- A token that neither reads is passed by both, or by the rich loop alone. -/
theorem passed (hgood : Streams good) (hpairs : Pairs good R n m expression expression')
    (h : tag.Mirrored good R m outline d expression' r.advance) (hmirrors : r.Mirrors good s)
    (hahead : r.ahead = t :: rest) (hend : ¬(t.kind = .tagEnd ∨ t.kind = .tagSelfCloseEnd))
    (hname : t.kind ≠ .attributeName) (hcut : ¬(t.kind = .tagOpen ∨ t.kind.isCloser = true))
    (hnode : expression r = none) (hn : r.ahead.length < n) (hm : s.ahead.length < m)
    (hturns : s.ahead.length < turns) :
    tag.Matched good R (startTagLoop outline d expression' turns s) := by
  cases ht : t.kind.isStructural with
  | false => exact h (hmirrors.filler hgood hahead ht) hm hturns
  | true =>
      obtain ⟨u, us, hs, hbare, hnext⟩ := hmirrors.boundary hgood hahead ht
      obtain ⟨turns, rfl⟩ : ∃ k, turns = k + 1 := ⟨turns - 1, by omega⟩
      have hkind := Token.kind_of_bare hbare
      have hshort := (steps_advance hs).shorter
      have hskip := hmirrors.skipTrivia_eq
      have hother := hpairs.fails hmirrors hn hm hahead ht hnode
      have hrun : StartTagRun outline d expression' (turns + 1) s _ :=
        .filler (hskip.symm ▸ hs) (hkind ▸ hend) (hkind ▸ hname) (hkind ▸ hcut)
          (hskip.symm ▸ hother) (startTagRun outline d expression' turns s.skipTrivia.advance)
      rw [hrun.eq, hskip]
      exact h hnext (by omega) (by omega)

end StartTag.Mirrored

theorem startTagLoop_mirrors (hgood : Streams good) (hR : Relates R) (input outline : Input)
    (d : Dialect) (hexpression : Moves expression) (hexpression' : Moves expression')
    (h : Pairs good R n m expression expression') (hblocks : ReadsBlocks expression) {turns : Nat}
    (hturns : r.ahead.length < turns) (hn : r.ahead.length < n) :
    (startTagLoop input d expression turns r).Mirrored good R m outline d expression' r := by
  have hrun := startTagRun input d expression turns r
  generalize startTagLoop input d expression turns r = tag at hrun
  induction hrun with
  | spent => exact absurd hturns (Nat.not_lt_zero _)
  | exhausted hahead =>
      intro s turns' hmirrors hm hturns'
      obtain ⟨turns', rfl⟩ : ∃ k, turns' = k + 1 := ⟨turns' - 1, by omega⟩
      have hskip := hmirrors.skipTrivia hgood
      rw [(StartTagRun.exhausted (hmirrors.skipTrivia_eq.symm ▸ hskip.ahead_nil hahead)).eq,
        hmirrors.skipTrivia_eq]
      exact hskip.cutTag hR
  | ended hahead ht =>
      intro s turns' hmirrors hm hturns'
      obtain ⟨turns', rfl⟩ : ∃ k, turns' = k + 1 := ⟨turns' - 1, by omega⟩
      obtain ⟨u, us, hs, hu, hmatched⟩ := (hmirrors.skipTrivia hgood).endedTag hgood hR hahead ht
      rw [(StartTagRun.ended (hmirrors.skipTrivia_eq.symm ▸ hs) hu).eq, hmirrors.skipTrivia_eq]
      exact hmatched
  | @named turns r t rest read tag hahead ht hread _ ih =>
      intro s turns' hmirrors hm hturns'
      have hnext := (hmirrors.skipTrivia hgood).filler hgood hahead (by rw [ht]; rfl)
      have hlen := (leads_readAttribute input d hexpression t r.skipTrivia.advance).length_le
      have hshort := (steps_advance hahead).shorter
      have hskipped := (leads_skipTrivia r).length_le
      subst hread
      have hmore : tag.Mirrored good R m outline d expression' _ := ih (by omega) (by omega)
      exact hmore.withAttribute hgood hR hexpression' h hblocks hnext (by omega) hm hturns'
  | @cut _ _ t _ hahead hend hname hcut =>
      intro s turns' hmirrors hm hturns'
      obtain ⟨turns', rfl⟩ : ∃ k, turns' = k + 1 := ⟨turns' - 1, by omega⟩
      have hskip := hmirrors.skipTrivia hgood
      have hboundary : t.kind.isStructural = true := by
        rcases hcut with hcut | hcut
        · rw [hcut]; rfl
        · exact isStructural_of_isCloser hcut
      obtain ⟨u, us, hs, hbare, -⟩ := hskip.boundary hgood hahead hboundary
      have hkind := Token.kind_of_bare hbare
      rw [(StartTagRun.cut (hmirrors.skipTrivia_eq.symm ▸ hs) (hkind ▸ hend) (hkind ▸ hname)
        (hkind ▸ hcut)).eq, hmirrors.skipTrivia_eq]
      exact hskip.cutTag hR
  | @expression turns r r' t rest node tag hahead hend hname hcut hnode _ ih =>
      intro s turns' hmirrors hm hturns'
      have hskip := hmirrors.skipTrivia hgood
      have hskipped := (leads_skipTrivia r).length_le
      have hstep := (hexpression.steps hnode).shorter
      obtain ⟨v, vs, hv, hblock⟩ := hblocks hnode
      obtain ⟨rfl, rfl⟩ := List.cons.inj (hahead.symm.trans hv)
      have hboundary : t.kind.isStructural = true := by rw [hblock]; rfl
      obtain ⟨u, us, hs, hbare, -⟩ := hskip.boundary hgood hahead hboundary
      obtain ⟨other, s', hother, hcursor, hrelated⟩ :=
        h.reads hskip (by omega) hm hahead hboundary hnode
      have hmore : tag.Mirrored good R m outline d expression' r' := ih (by omega) (by omega)
      exact hmore.withExpression hR hexpression' hcursor hmirrors.skipTrivia_eq hs
        ((Token.kind_of_bare hbare).trans hblock) hother hrelated hm hturns'
  | @filler turns r t rest tag hahead hend hname hcut hnode _ ih =>
      intro s turns' hmirrors hm hturns'
      have hshort := (steps_advance hahead).shorter
      have hskipped := (leads_skipTrivia r).length_le
      have hmore : tag.Mirrored good R m outline d expression' _ := ih (by omega) (by omega)
      exact hmore.passed hgood h (hmirrors.skipTrivia hgood) hahead hend hname hcut hnode (by omega)
        hm hturns'

/-! ### Content -/

/-- What stands between the tags is alike, and ends alike. -/
structure Content.Matched (good : List Token → List Token → Prop)
    (R : List Fault → List Node → List Node → Prop) (a b : Content) : Prop where
  closed : b.closed = a.closed
  stop : b.stop = a.stop
  cursor : a.cursor.Mirrors good b.cursor
  children : R b.cursor.faults a.children b.children

theorem Content.Matched.prepend (hR : Relates R) {a b : Content} (h : a.Matched good R b)
    {f : List Fault} {node : Node} {nodes : List Node} (hnode : R f [node] nodes)
    (hf : f <:+ b.cursor.faults) :
    Content.Matched good R { a with children := node :: a.children }
      { b with children := nodes ++ b.children } :=
  ⟨h.closed, h.stop, h.cursor, hR.append (hR.mono hnode hf) h.children⟩

/-- The two open elements are the same to their content. -/
structure OpenElement.Same (e e' : OpenElement) : Prop where
  opener : e'.opener.bare = e.opener.bare
  key : e'.key = e.key
  optional : e'.optional = e.optional

theorem tagName_of_bare {t u : Token} (h : u.bare = t.bare) : tagName u = tagName t := by
  rw [tagName, tagName, Token.kind_of_bare h, Token.value_of_bare h]

namespace OpenElement.Same

variable {e e' : OpenElement}

theorem written (h : e.Same e') : e'.written = e.written :=
  tagName_of_bare h.opener

theorem interruptedBy (h : e.Same e') {t u : Token} (hbare : u.bare = t.bare) :
    e'.interruptedBy u = e.interruptedBy t := by
  rw [OpenElement.interruptedBy, OpenElement.interruptedBy, Token.kind_of_bare hbare,
    tagName_of_bare hbare, h.written]

/-- A fault is noted by both or by none. -/
theorem complain (h : e.Same e') (hmirrors : r.Mirrors good s) (cause : Anomaly) {t u : Token}
    (hbare : u.bare = t.bare) :
    (e.complain cause t r).Mirrors good (e'.complain cause u s) := by
  rw [OpenElement.complain, OpenElement.complain, h.optional, Token.start_of_bare hbare,
    Token.stop_of_bare hbare]
  by_cases hoptional : e.optional = true
  · rw [if_pos hoptional, if_pos hoptional]
    exact hmirrors
  · rw [if_neg hoptional, if_neg hoptional]
    exact hmirrors.note cause t.start t.stop

end OpenElement.Same

theorem implies_eq (hconfig : outline.config = input.config) :
    d.implies outline = d.implies input := by
  rw [Dialect.implies, Dialect.implies, hconfig]

theorem OpenElement.Same.endsBefore {e e' : OpenElement} (h : e.Same e')
    (hconfig : outline.config = input.config) {t u : Token} (hbare : u.bare = t.bare) :
    e'.endsBefore d outline u = e.endsBefore d input t := by
  rw [OpenElement.endsBefore, OpenElement.endsBefore, Token.kind_of_bare hbare,
    tagName_of_bare hbare, h.key, implies_eq hconfig]

/-- What is found from where the rich loop stands matches what a loop finds from any cursor that
mirrors it. -/
def Content.Mirrored (good : List Token → List Token → Prop)
    (R : List Fault → List Node → List Node → Prop) (m : Nat) (outline : Input) (d : Dialect)
    (child' : Production) (e' : OpenElement) (r : Cursor) (content : Content) : Prop :=
  ∀ ⦃s : Cursor⦄ ⦃turns : Nat⦄, r.Mirrors good s → s.ahead.length < m → s.ahead.length < turns →
    content.Matched good R (contentLoop outline d child' e' turns s)

namespace Content.Mirrored

variable {e e' : OpenElement} {content : Content} {t : Token} {rest : List Token} {r' : Cursor}
variable {turns : Nat}

/-- A stray closer takes a turn of both loops. -/
theorem strayed (hgood : Streams good) (he : e.Same e')
    (h : content.Mirrored good R m outline d child' e' r') (hmirrors : r.Mirrors good s)
    (hahead : r.ahead = t :: rest)
    (hother : ¬(t.kind = .tagClose ∧ Text.lower (tagName t) = e.key))
    (ht : t.kind.isCloser = true) (hrecover : r.recover? t = some r') (hm : s.ahead.length < m)
    (hturns : s.ahead.length < turns) :
    content.Matched good R (contentLoop outline d child' e' turns s) := by
  obtain ⟨turns, rfl⟩ : ∃ k, turns = k + 1 := ⟨turns - 1, by omega⟩
  obtain ⟨u, us, hs, hbare, -⟩ := hmirrors.boundary hgood hahead (isStructural_of_isCloser ht)
  obtain ⟨s', hs', hmirrors'⟩ := hmirrors.recover?_some hgood hahead ht hbare hrecover
  have hkind := Token.kind_of_bare hbare
  have hskip := hmirrors.skipTrivia_eq
  have hshort := (steps_of_recover? hs hs').shorter
  have hrun : ContentRun outline d child' e' (turns + 1) s _ :=
    .stray (hskip.symm ▸ hs) (by rw [hkind, tagName_of_bare hbare, he.key]; exact hother)
      (hkind ▸ ht) (hskip.symm ▸ hs') (contentRun outline d child' e' turns s')
  rw [hrun.eq]
  exact h hmirrors' (by omega) (by omega)

/-- A child takes a turn of both loops, or is read by the rich loop alone. -/
theorem withChild (hgood : Streams good) (hR : Relates R) (he : e.Same e')
    (hconfig : outline.config = input.config) (hchild' : Moves child')
    (hpairs : Pairs good R n m child child')
    (h : content.Mirrored good R m outline d child' e' r') (hmirrors : r.Mirrors good s)
    (hahead : r.ahead = t :: rest) (ht : ¬t.kind.isCloser = true)
    (hends : ¬e.endsBefore d input t = true) {node : Node} (hnode : child r = some (node, r'))
    (hn : r.ahead.length < n) (hm : s.ahead.length < m) (hturns : s.ahead.length < turns) :
    Content.Matched good R { content with children := node :: content.children }
      (contentLoop outline d child' e' turns s) := by
  cases hboundary : t.kind.isStructural with
  | false =>
      obtain ⟨hcursor, hrelated⟩ := hpairs.filler hmirrors hn hm hahead hboundary hnode
      exact (h hcursor hm hturns).prepend hR
        (hR.mono hrelated (leads_contentLoop outline d hchild' e' turns s).faults)
        (List.suffix_refl _)
  | true =>
      obtain ⟨turns, rfl⟩ : ∃ k, turns = k + 1 := ⟨turns - 1, by omega⟩
      obtain ⟨u, us, hs, hbare, -⟩ := hmirrors.boundary hgood hahead hboundary
      obtain ⟨other, s', hother, hcursor, hrelated⟩ :=
        hpairs.reads hmirrors hn hm hahead hboundary hnode
      have hskip := hmirrors.skipTrivia_eq
      have hstep := (hchild'.steps hother).shorter
      have hrun : ContentRun outline d child' e' (turns + 1) s _ :=
        .child (hskip.symm ▸ hs) (Token.kind_of_bare hbare ▸ ht)
          (he.endsBefore hconfig hbare ▸ hends) (hskip.symm ▸ hother)
          (contentRun outline d child' e' turns s')
      rw [hrun.eq]
      exact (h hcursor (by omega) (by omega)).prepend hR hrelated
        (leads_contentLoop outline d hchild' e' turns s').faults

/-- A token that neither reads is passed by both, or by the rich loop alone. -/
theorem passed (hgood : Streams good) (he : e.Same e') (hconfig : outline.config = input.config)
    (hpairs : Pairs good R n m child child')
    (h : content.Mirrored good R m outline d child' e' r.advance) (hmirrors : r.Mirrors good s)
    (hahead : r.ahead = t :: rest) (ht : ¬t.kind.isCloser = true)
    (hends : ¬e.endsBefore d input t = true) (hnode : child r = none) (hn : r.ahead.length < n)
    (hm : s.ahead.length < m) (hturns : s.ahead.length < turns) :
    content.Matched good R (contentLoop outline d child' e' turns s) := by
  cases hboundary : t.kind.isStructural with
  | false => exact h (hmirrors.filler hgood hahead hboundary) hm hturns
  | true =>
      obtain ⟨turns, rfl⟩ : ∃ k, turns = k + 1 := ⟨turns - 1, by omega⟩
      obtain ⟨u, us, hs, hbare, hnext⟩ := hmirrors.boundary hgood hahead hboundary
      have hother := hpairs.fails hmirrors hn hm hahead hboundary hnode
      have hskip := hmirrors.skipTrivia_eq
      have hshort := (steps_advance hs).shorter
      have hrun : ContentRun outline d child' e' (turns + 1) s _ :=
        .filler (hskip.symm ▸ hs) (Token.kind_of_bare hbare ▸ ht)
          (he.endsBefore hconfig hbare ▸ hends) (hskip.symm ▸ hother)
          (contentRun outline d child' e' turns s.skipTrivia.advance)
      rw [hrun.eq, hskip]
      exact h hnext (by omega) (by omega)

end Content.Mirrored

theorem contentLoop_mirrors (hgood : Streams good) (hR : Relates R) (d : Dialect)
    (hchild : Moves child) (hchild' : Moves child') (h : Pairs good R n m child child')
    (hstop : outline.stop = input.stop) (hconfig : outline.config = input.config)
    {e e' : OpenElement} (he : e.Same e') {turns : Nat} (hturns : r.ahead.length < turns)
    (hn : r.ahead.length < n) :
    (contentLoop input d child e turns r).Mirrored good R m outline d child' e' r := by
  have hrun := contentRun input d child e turns r
  generalize contentLoop input d child e turns r = content at hrun
  induction hrun with
  | spent => exact absurd hturns (Nat.not_lt_zero _)
  | exhausted hahead =>
      intro s turns' hmirrors hm hturns'
      obtain ⟨turns', rfl⟩ : ∃ k, turns' = k + 1 := ⟨turns' - 1, by omega⟩
      have hskip := hmirrors.skipTrivia hgood
      rw [(ContentRun.exhausted (hmirrors.skipTrivia_eq.symm ▸ hskip.ahead_nil hahead)).eq,
        hmirrors.skipTrivia_eq, he.written, hstop]
      exact ⟨rfl, rfl, he.complain hskip _ he.opener, hR.nil _⟩
  | closed hahead ht hname =>
      intro s turns' hmirrors hm hturns'
      obtain ⟨turns', rfl⟩ : ∃ k, turns' = k + 1 := ⟨turns' - 1, by omega⟩
      have hskip := hmirrors.skipTrivia hgood
      obtain ⟨u, us, hs, hbare, -⟩ := hskip.boundary hgood hahead (by rw [ht]; rfl)
      obtain ⟨hcursor, hlast⟩ := hskip.pastEndTag hgood hahead ht
      rw [(ContentRun.closed (hmirrors.skipTrivia_eq.symm ▸ hs)
        ((Token.kind_of_bare hbare).trans ht)
        (by rw [tagName_of_bare hbare, he.key, hname])).eq, hmirrors.skipTrivia_eq]
      exact ⟨rfl, hlast input outline, hcursor, hR.nil _⟩
  | interrupted hahead hother ht hrecover =>
      intro s turns' hmirrors hm hturns'
      obtain ⟨turns', rfl⟩ : ∃ k, turns' = k + 1 := ⟨turns' - 1, by omega⟩
      have hskip := hmirrors.skipTrivia hgood
      obtain ⟨u, us, hs, hbare, -⟩ := hskip.boundary hgood hahead (isStructural_of_isCloser ht)
      have hkind := Token.kind_of_bare hbare
      have hs' := hskip.recover?_none hgood hahead ht hbare hrecover
      rw [(ContentRun.interrupted (hmirrors.skipTrivia_eq.symm ▸ hs)
        (by rw [hkind, tagName_of_bare hbare, he.key]; exact hother) (hkind ▸ ht)
        (hmirrors.skipTrivia_eq.symm ▸ hs')).eq, hmirrors.skipTrivia_eq, he.interruptedBy hbare]
      exact ⟨rfl, Token.start_of_bare hbare, he.complain hskip _ hbare, hR.nil _⟩
  | @stray turns r r' t rest content hahead hother ht hrecover _ ih =>
      intro s turns' hmirrors hm hturns'
      have hskipped := (leads_skipTrivia r).length_le
      have hshort := (steps_of_recover? hahead hrecover).shorter
      have hmore : content.Mirrored good R m outline d child' e' r' := ih (by omega) (by omega)
      exact hmore.strayed hgood he (hmirrors.skipTrivia hgood) hahead hother ht hrecover hm hturns'
  | @implied _ _ t _ hahead ht hends =>
      intro s turns' hmirrors hm hturns'
      obtain ⟨turns', rfl⟩ : ∃ k, turns' = k + 1 := ⟨turns' - 1, by omega⟩
      have hskip := hmirrors.skipTrivia hgood
      have hboundary : t.kind.isStructural = true := by
        simp only [OpenElement.endsBefore, Bool.and_eq_true, beq_iff_eq] at hends
        rw [hends.1.1]
        rfl
      obtain ⟨u, us, hs, hbare, -⟩ := hskip.boundary hgood hahead hboundary
      rw [(ContentRun.implied (hmirrors.skipTrivia_eq.symm ▸ hs) (Token.kind_of_bare hbare ▸ ht)
        ((he.endsBefore hconfig hbare).trans hends)).eq, hmirrors.skipTrivia_eq]
      exact ⟨rfl, Token.start_of_bare hbare, hskip, hR.nil _⟩
  | @child turns r r' t rest node content hahead ht hends hnode _ ih =>
      intro s turns' hmirrors hm hturns'
      have hskipped := (leads_skipTrivia r).length_le
      have hstep := (hchild.steps hnode).shorter
      have hmore : content.Mirrored good R m outline d child' e' r' := ih (by omega) (by omega)
      exact hmore.withChild hgood hR he hconfig hchild' h (hmirrors.skipTrivia hgood) hahead ht hends
        hnode (by omega) hm hturns'
  | @filler turns r t rest content hahead ht hends hnode _ ih =>
      intro s turns' hmirrors hm hturns'
      have hskipped := (leads_skipTrivia r).length_le
      have hshort := (steps_advance hahead).shorter
      have hmore : content.Mirrored good R m outline d child' e' _ := ih (by omega) (by omega)
      exact hmore.passed hgood he hconfig h (hmirrors.skipTrivia hgood) hahead ht hends hnode
        (by omega) hm hturns'

/-! ### Elements -/

/-- Elements are read alike when their children and the expressions in their start tags
are. -/
theorem element_pairs (hgood : Streams good) (hR : Relates R) (hchild : Moves child)
    (hchild' : Moves child') (hexpression : Moves expression) (hexpression' : Moves expression')
    (h : Pairs good R n m child child') (htag : Pairs good R n m expression expression')
    (hblocks : ReadsBlocks expression) (hstop : outline.stop = input.stop)
    (hconfig : outline.config = input.config) (hn : n ≤ input.bound) (hm : m ≤ outline.bound)
    (hnode : ∀ {f start stop info us xs ys}, (∀ u ∈ us, u.isAttribute = true) → R f xs ys →
      R f [.element start stop info us xs] [.element start stop info [] ys])
    (hdeep : ∀ {f xs ys}, (∃ fault ∈ f, fault.cause = .tooDeep) → R f xs ys) :
    Pairs good R (n + 1) (m + 1) (element input d child expression)
      (element outline d child' expression') := by
  refine ⟨?_, ?_⟩
  · intro r s t rest hmirrors hn' hm' hahead ht
    obtain ⟨u, us, hs, hbare, hnext⟩ := hmirrors.boundary hgood hahead ht
    have hkind := Token.kind_of_bare hbare
    by_cases hopen : t.kind = .tagOpen
    · have hr' := (steps_advance hahead).shorter
      have hs' := (steps_advance hs).shorter
      have htags := startTagLoop_mirrors hgood hR input outline d hexpression hexpression' htag
        hblocks (show r.advance.ahead.length < input.bound by omega) (by omega) hnext (by omega)
        (show s.advance.ahead.length < outline.bound by omega)
      have hlen := (leads_startTagLoop input d hexpression input.bound r.advance).length_le
      have hlen' := (leads_startTagLoop outline d hexpression' outline.bound s.advance).length_le
      simp only [element, acceptKind?_of_eq hahead hopen, acceptKind?_of_eq hs (hkind.trans hopen),
        Token.start_of_bare hbare, Token.stop_of_bare hbare, tagName_of_bare hbare,
        implies_eq hconfig]
      generalize startTagLoop input d expression input.bound r.advance = a at *
      generalize startTagLoop outline d expression' outline.bound s.advance = b at *
      rw [htags.ending, htags.bare]
      by_cases hself : a.ending = some .tagSelfCloseEnd
          ∨ (a.ending = some .tagEnd ∧ d.voidElements.contains (Text.lower (tagName t)) = true)
      · have hended : a.ending ≠ none := by
          rcases hself with hself | ⟨hself, -⟩ <;> rw [hself] <;> simp
        rw [if_pos hself, if_pos hself, htags.stop hended input outline]
        exact .some htags.cursor (hnode htags.attributes htags.expressions)
      rw [if_neg hself, if_neg hself, htags.cursor.tooDeep]
      by_cases hdeeper : a.cursor.tooDeep = true
      · rw [if_pos hdeeper, if_pos hdeeper]
        exact .some (htags.cursor.note .tooDeep t.start t.stop)
          (hdeep ⟨_, List.mem_cons_self, rfl⟩)
      · rw [if_neg hdeeper, if_neg hdeeper]
        have hsame : OpenElement.Same
            ⟨t, Text.lower (tagName t), d.implies input
              && Markup.optionalEndTags.contains (Text.lower (tagName t))⟩
            ⟨u, Text.lower (tagName t), d.implies input
              && Markup.optionalEndTags.contains (Text.lower (tagName t))⟩ :=
          ⟨hbare, rfl, rfl⟩
        let opened : OpenContainer := ⟨.tagClose, some (Text.lower (tagName t)), t.start⟩
        have hmirrored := contentLoop_mirrors hgood hR d hchild hchild' h hstop hconfig hsame
          (r := a.cursor.push opened) (show a.cursor.ahead.length < input.bound by omega)
          (show a.cursor.ahead.length < n by omega)
        have hcontent := hmirrored (htags.cursor.push opened)
          (show b.cursor.ahead.length < m by omega)
          (show b.cursor.ahead.length < outline.bound by omega)
        rw [hcontent.stop, hcontent.closed]
        refine .some (hcontent.cursor.closeTo htags.cursor) (hnode htags.attributes ?_)
        exact hR.append (hR.mono htags.expressions
          (leads_contentLoop outline d hchild' _ _ _).close.faults) hcontent.children
    · simp only [element, acceptKind?_of_ne hahead hopen, acceptKind?_of_ne hs (hkind ▸ hopen)]
      exact .none
  · intro r s r' t rest node hmirrors hn' hm' hahead ht hread
    have hopen : t.kind ≠ .tagOpen := ne_of_filler ht rfl
    simp [element, acceptKind?_of_ne hahead hopen] at hread

end Parsing

end SourceView
