/-
What becomes of the tags of markup.

An element is opened by its start tag.  Its end tag closes it; or the end of an element
further out ends it, or a start tag that implies its end, or the end of the tokens.  What is
noted of it then depends on whether its end tag may be left out.  An end tag that is not an
element's is a fault of its own.

All other tokens do not matter here: passing them adds nothing to account for.
-/
import SourceView.Proofs.Parsing.Ledger
import SourceView.Proofs.Parsing.Turns
import SourceView.Proofs.Tree.Walks

namespace SourceView

/-- Whether the node is an element. -/
def Node.isElement : Node → Bool
  | element .. => true
  | _ => false

/-- The elements in some trees, in preorder. -/
def Node.elementsIn (nodes : List Node) : List Node :=
  (preorderAll nodes).filter isElement

theorem Node.elementsIn_append (nodes others : List Node) :
    elementsIn (nodes ++ others) = elementsIn nodes ++ elementsIn others := by
  rw [elementsIn, preorderAll_append, List.filter_append, elementsIn, elementsIn]

theorem Node.elementsIn_element (start stop : Int) (info : ElementInfo)
    (attributes children : List Node) :
    elementsIn [element start stop info attributes children]
      = element start stop info attributes children :: elementsIn children := by
  rw [elementsIn, preorderAll, preorder_eq, preorderAll, List.append_nil]
  rfl

namespace Parsing

open Cursor

/-! ### Passing what is no tag -/

/-- Whether tokens of this kind begin or end an element. -/
def isTag (kind : TokenKind) : Bool :=
  kind == .tagOpen || kind.isCloser

theorem isStructural_of_isTag {kind : TokenKind} (h : isTag kind = true) :
    kind.isStructural = true := by
  revert h
  cases kind <;> decide

namespace Cursor

/-- The cursor `d` is where `c` gets by passing tokens none of which is a tag. -/
structure PassesNoTag (c d : Cursor) : Prop where
  passes : ∃ ts, c.ahead = ts ++ d.ahead ∧ d.behind = ts.reverse ++ c.behind
    ∧ ∀ t ∈ ts, isTag t.kind = false
  faults : d.faults = c.faults

variable {c d e : Cursor} {t : Token} {rest : List Token}

theorem PassesNoTag.refl (c : Cursor) : c.PassesNoTag c :=
  ⟨⟨[], rfl, rfl, by simp⟩, rfl⟩

theorem PassesNoTag.trans (h : c.PassesNoTag d) (h' : d.PassesNoTag e) : c.PassesNoTag e := by
  obtain ⟨⟨ts, hahead, hbehind, hts⟩, hfaults⟩ := h
  obtain ⟨⟨us, hahead', hbehind', hus⟩, hfaults'⟩ := h'
  refine ⟨⟨ts ++ us, ?_, ?_, ?_⟩, hfaults'.trans hfaults⟩
  · rw [hahead, hahead', List.append_assoc]
  · rw [hbehind', hbehind, List.reverse_append, List.append_assoc]
  · intro t ht
    rcases List.mem_append.mp ht with ht | ht
    · exact hts t ht
    · exact hus t ht

theorem Skims.passesNoTag (h : c.Skims d) : c.PassesNoTag d := by
  obtain ⟨ts, hahead, hbehind⟩ := h.passes
  refine ⟨⟨ts, hahead, hbehind, ?_⟩, h.faults⟩
  have hnone : ts.filter (·.kind.isStructural) = [] := by
    have hsame := h.boundaries
    rw [hahead, List.filter_append] at hsame
    have hlength := congrArg List.length hsame
    rw [List.length_append] at hlength
    exact List.length_eq_zero_iff.mp (by omega)
  intro t ht
  refine Bool.eq_false_iff.mpr fun htag => ?_
  exact List.filter_eq_nil_iff.mp hnone t ht (isStructural_of_isTag htag)

theorem passesNoTag_advance (hahead : c.ahead = t :: rest) (ht : isTag t.kind = false) :
    c.PassesNoTag c.advance := by
  refine ⟨⟨[t], ?_, ?_, by simpa using ht⟩, ?_⟩ <;> simp [advance, hahead]

end Cursor

/-! ### Start tags -/

variable {input : Input} {c d : Cursor} {t : Token} {rest : List Token}

/-- An attribute passes no tag, and its value is no expression. -/
theorem readAttribute_passesNoTag (input : Input) (dialect : Dialect) (name : Token) (c : Cursor) :
    c.PassesNoTag (readAttribute input dialect (choice []) name c).cursor
      ∧ (readAttribute input dialect (choice []) name c).expression = none := by
  unfold readAttribute
  cases hequals : c.skipTrivia.acceptKind? .equals with
  | none => exact ⟨.refl c, rfl⟩
  | some found =>
      obtain ⟨equals, c'⟩ := found
      have hvalue : c.PassesNoTag c'.skipTrivia :=
        (((skims_skipTrivia c).trans (skims_of_accept? hequals rfl)).trans
          (skims_skipTrivia c')).passesNoTag
      simp only [choice]
      cases hpeek : c'.skipTrivia.peek? with
      | none => exact ⟨hvalue, rfl⟩
      | some t =>
          obtain ⟨rest, hahead⟩ := ahead_of_peek? hpeek
          simp only
          by_cases ht : t.kind = .attributeValue ∨ t.kind = .error
          · rw [if_pos ht]
            refine ⟨hvalue.trans (passesNoTag_advance hahead ?_), rfl⟩
            rcases ht with ht | ht <;> rw [ht] <;> rfl
          · rw [if_neg ht]
            exact ⟨hvalue, rfl⟩

/-- A start tag passes no other tag, and nothing in it is a child. -/
theorem startTagLoop_passesNoTag (input : Input) (dialect : Dialect) (turns : Nat) (c : Cursor) :
    c.PassesNoTag (startTagLoop input dialect (choice []) turns c).cursor
      ∧ (startTagLoop input dialect (choice []) turns c).expressions = [] := by
  have hrun := startTagRun input dialect (choice []) turns c
  generalize startTagLoop input dialect (choice []) turns c = tag at hrun
  induction hrun with
  | spent => exact ⟨.refl _, rfl⟩
  | @exhausted _ c => exact ⟨(skims_skipTrivia c).passesNoTag, rfl⟩
  | @ended _ c _ _ hahead ht =>
      refine ⟨(skims_skipTrivia c).passesNoTag.trans (passesNoTag_advance hahead ?_), rfl⟩
      rcases ht with ht | ht <;> rw [ht] <;> rfl
  | @named _ c t _ _ _ hahead ht hread _ ih =>
      obtain ⟨hvalue, hnone⟩ := readAttribute_passesNoTag input dialect t c.skipTrivia.advance
      rw [hread] at hvalue hnone
      have hname := passesNoTag_advance hahead (by rw [ht]; rfl)
      refine ⟨(((skims_skipTrivia c).passesNoTag.trans hname).trans hvalue).trans ih.1, ?_⟩
      rw [hnone, ih.2]
      rfl
  | @cut _ c => exact ⟨(skims_skipTrivia c).passesNoTag, rfl⟩
  | expression _ _ _ _ hnode => exact absurd hnode (by simp [choice])
  | @filler _ c _ _ _ hahead _ _ hcut _ _ ih =>
      have hpass := passesNoTag_advance hahead (by simpa [isTag] using hcut)
      exact ⟨((skims_skipTrivia c).passesNoTag.trans hpass).trans ih.1, ih.2⟩

/-! ### End tags -/

/-- Where the end tag ends that `t` begins, with the tokens `after` behind it. -/
def endTagStop (t : Token) (after : List Token) : Int :=
  match passEndTag [] after with
  | some (last :: _, _) => last.stop
  | _ => t.stop

/-- What is passed of an end tag does not depend on what lies behind. -/
theorem passEndTag_behind (behind ahead : List Token) :
    passEndTag behind ahead
      = (passEndTag [] ahead).map fun (passed, rest) => (passed ++ behind, rest) := by
  induction ahead generalizing behind with
  | nil => rfl
  | cons t rest ih =>
      unfold passEndTag
      by_cases hend : t.kind = .tagEnd
      · simp [hend]
      · by_cases hjunk : isEndTagJunk t = true
        · simp only [if_neg hend, if_pos hjunk]
          rw [ih (t :: behind), ih [t], Option.map_map]
          congr 1
          funext passed
          simp
        · simp [hend, hjunk]

theorem not_isTag_of_junk (h : isEndTagJunk t = true) : isTag t.kind = false := by
  have hplain := not_isStructural_of_junk h
  refine Bool.eq_false_iff.mpr fun htag => ?_
  rw [isStructural_of_isTag htag] at hplain
  exact absurd hplain (by simp)

theorem passEndTag_idle {behind ahead behind' ahead' : List Token}
    (h : passEndTag behind ahead = some (behind', ahead')) :
    ∃ ts, ahead = ts ++ ahead' ∧ behind' = ts.reverse ++ behind
      ∧ ∀ t ∈ ts, isTag t.kind = false := by
  induction ahead generalizing behind with
  | nil => exact absurd h (by simp [passEndTag])
  | cons t rest ih =>
      unfold passEndTag at h
      by_cases hend : t.kind = .tagEnd
      · rw [if_pos hend, Option.some.injEq, Prod.mk.injEq] at h
        obtain ⟨rfl, rfl⟩ := h
        refine ⟨[t], rfl, rfl, ?_⟩
        intro u hu
        rw [List.mem_singleton.mp hu, hend]
        rfl
      · rw [if_neg hend] at h
        by_cases hjunk : isEndTagJunk t = true
        · rw [if_pos hjunk] at h
          obtain ⟨ts, rfl, rfl, hts⟩ := ih h
          refine ⟨t :: ts, rfl, by simp, ?_⟩
          intro u hu
          rcases List.mem_cons.mp hu with rfl | hu
          · exact not_isTag_of_junk hjunk
          · exact hts u hu
        · rw [if_neg hjunk] at h
          exact absurd h (by simp)

/-- Past the token that begins an end tag no tag is passed. -/
theorem pastEndTag_passesNoTag (c : Cursor) : c.advance.PassesNoTag c.pastEndTag := by
  simp only [pastEndTag]
  cases hpass : passEndTag c.advance.behind c.advance.ahead with
  | none => exact .refl _
  | some moved => exact ⟨passEndTag_idle hpass, rfl⟩

theorem previousEnd_pastEndTag (hahead : c.ahead = t :: rest) :
    c.pastEndTag.previousEnd input = endTagStop t rest := by
  have hadvance : c.advance.behind = t :: c.behind := by simp [advance, hahead]
  simp only [pastEndTag, endTagStop]
  rw [passEndTag_behind c.advance.behind, ahead_advance hahead]
  cases hpass : passEndTag [] rest with
  | none => simp [previousEnd, hadvance]
  | some moved =>
      obtain ⟨passed, ahead⟩ := moved
      cases passed with
      | nil => simp [previousEnd, hadvance]
      | cons last passed => simp [previousEnd]

/-! ### Entries -/

/-- What may become of a start tag, among these tokens and where end tags may be `implied` or
not.  An element is empty, or its end tag closes it; and if it is not closed, that is noted of
it unless its end tag may be left out. -/
inductive Tagged (tokens : List Token) (implied : Bool) : Entry → Prop
  | empty {t : Token} (stop : Int) (attributes children : List Node) :
      Tagged tokens implied
        { node := .element t.start stop { name := Text.lower (tagName t), selfClosing := true }
            attributes children
          opener := t }
  | closed {t u : Token} {before after : List Token} (hplace : tokens = before ++ u :: after)
      (hu : u.kind = .tagClose) (hname : Text.lower (tagName u) = Text.lower (tagName t))
      (attributes children : List Node) :
      Tagged tokens implied
        { node := .element t.start (endTagStop u after) { name := Text.lower (tagName t) }
            attributes children
          opener := t, closer := some u }
  | omitted {t : Token} (himplied : implied = true)
      (hoptional : Markup.optionalEndTags.contains (Text.lower (tagName t)) = true) (stop : Int)
      (attributes children : List Node) :
      Tagged tokens implied
        { node := .element t.start stop { name := Text.lower (tagName t), closed := false }
            attributes children
          opener := t }
  | unclosed {t : Token}
      (hneeded : (implied && Markup.optionalEndTags.contains (Text.lower (tagName t))) = false)
      (stop : Int) (attributes children : List Node) :
      Tagged tokens implied
        { node := .element t.start stop { name := Text.lower (tagName t), closed := false }
            attributes children
          opener := t, fault := some ⟨.unclosedElement (tagName t), t.start, t.stop⟩ }
  | mismatched {t u : Token} (hmem : u ∈ tokens) (hu : u.kind = .tagClose)
      (hneeded : (implied && Markup.optionalEndTags.contains (Text.lower (tagName t))) = false)
      (stop : Int) (attributes children : List Node) :
      Tagged tokens implied
        { node := .element t.start stop { name := Text.lower (tagName t), closed := false }
            attributes children
          opener := t
          fault := some ⟨.mismatchedTag (tagName t) (tagName u), u.start, u.stop⟩ }

namespace Tagged

variable {tokens : List Token} {implied : Bool} {e : Entry}

/-- No fault of an element is that of a stray closer. -/
theorem not_isUnexpected (h : Tagged tokens implied e) :
    ∀ f ∈ e.fault, f.cause.isUnexpected = false := by
  intro f hf
  cases h with
  | empty => exact absurd hf (by simp)
  | closed => exact absurd hf (by simp)
  | omitted => exact absurd hf (by simp)
  | unclosed => exact Option.some.inj hf ▸ rfl
  | mismatched => exact Option.some.inj hf ▸ rfl

/-- Nothing is noted of an element that is not closed just if its end tag may be left out. -/
theorem fault_eq_none_iff (h : Tagged tokens implied e) (hclosed : e.node.closed? = some false) :
    e.fault = none ↔ implied = true
      ∧ Markup.optionalEndTags.contains (Text.lower (tagName e.opener)) = true := by
  rw [← Bool.and_eq_true]
  cases h with
  | empty => exact absurd hclosed (by simp [Node.closed?])
  | closed => exact absurd hclosed (by simp [Node.closed?])
  | omitted himplied hoptional => exact iff_of_true rfl (by rw [himplied, hoptional]; rfl)
  | unclosed hneeded => exact iff_of_false (by simp) (Bool.eq_false_iff.mp hneeded)
  | mismatched _ _ hneeded => exact iff_of_false (by simp) (Bool.eq_false_iff.mp hneeded)

end Tagged

/-! ### Accounting for tags -/

/-- From `c` the parse got to `d` and read the nodes: the elements among them account for the
tags that were passed and for the faults that were noted. -/
def TagsAccounted (tokens : List Token) (implied : Bool) (c d : Cursor) (nodes : List Node) : Prop :=
  ∃ ts faults, c.ahead = ts ++ d.ahead ∧ d.behind = ts.reverse ++ c.behind
    ∧ d.faults = faults.reverse ++ c.faults
    ∧ Accounted (Tagged tokens implied) (Node.elementsIn nodes) (ts.filter (·.kind == .tagOpen))
      (ts.filter (·.kind.isCloser)) faults

namespace TagsAccounted

variable {tokens : List Token} {implied : Bool} {e : Cursor} {xs ys : List Node}

theorem passes (h : TagsAccounted tokens implied c d xs) : c.Passes d := by
  obtain ⟨ts, -, hahead, hbehind, -⟩ := h
  exact ⟨ts, hahead, hbehind⟩

theorem filter_tags {ts : List Token} (hts : ∀ t ∈ ts, isTag t.kind = false) :
    ts.filter (·.kind == .tagOpen) = [] ∧ ts.filter (·.kind.isCloser) = [] := by
  have htag (t : Token) (ht : t ∈ ts) : t.kind ≠ .tagOpen ∧ ¬ t.kind.isCloser = true := by
    simpa [isTag] using hts t ht
  refine ⟨List.filter_eq_nil_iff.mpr ?_, List.filter_eq_nil_iff.mpr ?_⟩
  · intro t ht
    simpa using (htag t ht).1
  · exact fun t ht => (htag t ht).2

/-- Where no tag is passed, nothing is to account for. -/
theorem of_passesNoTag (h : c.PassesNoTag d) (hnone : Node.elementsIn xs = []) :
    TagsAccounted tokens implied c d xs := by
  obtain ⟨⟨ts, hahead, hbehind, hts⟩, hfaults⟩ := h
  obtain ⟨hopeners, hclosers⟩ := filter_tags hts
  refine ⟨ts, [], hahead, hbehind, hfaults, ?_⟩
  rw [hnone, hopeners, hclosers]
  exact .nil

theorem trans (h : TagsAccounted tokens implied c d xs) (h' : TagsAccounted tokens implied d e ys) :
    TagsAccounted tokens implied c e (xs ++ ys) := by
  obtain ⟨ts, faults, hahead, hbehind, hfaults, haccounted⟩ := h
  obtain ⟨us, faults', hahead', hbehind', hfaults', haccounted'⟩ := h'
  refine ⟨ts ++ us, faults ++ faults', ?_, ?_, ?_, ?_⟩
  · rw [hahead, hahead', List.append_assoc]
  · rw [hbehind', hbehind, List.reverse_append, List.append_assoc]
  · rw [hfaults', hfaults, List.reverse_append, List.append_assoc]
  · rw [Node.elementsIn_append, List.filter_append, List.filter_append]
    exact haccounted.append haccounted'

/-- A closer that nothing waits for is passed, with what belongs to an end tag. -/
theorem of_recover? (hahead : c.ahead = t :: rest) (ht : t.kind.isCloser = true)
    (hrecover : c.recover? t = some d) : TagsAccounted tokens implied c d [] := by
  have hidles : (c.note (unexpectedCloser t) t.start t.stop).advance.PassesNoTag d := by
    unfold recover? at hrecover
    by_cases hexpects : c.expects t.kind
        (if t.kind = .tagClose then some (Text.lower (tagName t)) else none) = true
    · simp [hexpects] at hrecover
    · rw [if_neg hexpects, Option.some.injEq] at hrecover
      rw [← hrecover]
      by_cases hclose : t.kind = .tagClose
      · rw [if_pos hclose]
        exact pastEndTag_passesNoTag _
      · rw [if_neg hclose]
        exact .refl _
  obtain ⟨⟨ts, hts, hbehind, hidle⟩, hfaults⟩ := hidles
  obtain ⟨hopeners, hclosers⟩ := filter_tags hidle
  have hopener : t.kind ≠ .tagOpen := by
    intro hopen
    rw [hopen] at ht
    exact absurd ht (by simp [TokenKind.isCloser])
  refine ⟨t :: ts, [strayFault t], ?_, ?_, ?_, ?_⟩
  · rw [hahead, List.cons_append, ← hts]
    exact congrArg (t :: ·)
      (ahead_advance (r := c.note (unexpectedCloser t) t.start t.stop) hahead).symm
  · rw [hbehind, List.reverse_cons, List.append_assoc]
    simp [advance, note, hahead]
  · rw [hfaults]
    simp [advance, note, hahead, strayFault]
  · have hstart : (t.kind == .tagOpen) = false := beq_eq_false_iff_ne.mpr hopener
    simp only [List.filter_cons, hstart, ht, hopeners, hclosers, if_true, Bool.false_eq_true,
      if_false]
    exact Accounted.nil.astray t

/-- An element: its start tag, the tags in it, which are accounted for, and what ends it. -/
theorem element {opener : Token} (hahead : c.ahead = opener :: rest) (hopen : opener.kind = .tagOpen)
    {b : Cursor} (htag : c.advance.PassesNoTag b) {children : List Node}
    (hinner : TagsAccounted tokens implied b d children) {ending : Option Token} {fault : Option Fault}
    {start stop : Int} {info : ElementInfo} {attributes : List Node}
    (hending : ∃ ts, d.ahead = ending.toList ++ (ts ++ e.ahead)
      ∧ e.behind = ts.reverse ++ (ending.toList ++ d.behind) ∧ ∀ t ∈ ts, isTag t.kind = false)
    (hcloser : ∀ t ∈ ending, t.kind.isCloser = true) (hfaults : e.faults = fault.toList ++ d.faults)
    (hfits : Tagged tokens implied
      { node := .element start stop info attributes children, opener, closer := ending, fault }) :
    TagsAccounted tokens implied c e [.element start stop info attributes children] := by
  obtain ⟨⟨us, hus, hbehind, hidle⟩, hsame⟩ := htag
  obtain ⟨ts, faults, hts, hbehind', hfaults', haccounted⟩ := hinner
  obtain ⟨vs, hvs, hbehind'', hidle'⟩ := hending
  obtain ⟨hopeners, hclosers⟩ := filter_tags hidle
  obtain ⟨hopeners', hclosers'⟩ := filter_tags hidle'
  have hstart : ending.toList.filter (·.kind == .tagOpen) = [] := by
    refine List.filter_eq_nil_iff.mpr fun t ht hopen => ?_
    have hcloser := hcloser t (Option.mem_toList.mp ht)
    rw [beq_iff_eq.mp hopen] at hcloser
    exact absurd hcloser (by simp [TokenKind.isCloser])
  have hend : ending.toList.filter (·.kind.isCloser) = ending.toList :=
    List.filter_eq_self.mpr fun t ht => hcloser t (Option.mem_toList.mp ht)
  have hnoted : fault.toList.reverse = fault.toList := by cases fault <;> rfl
  have hlast : ending.toList.reverse = ending.toList := by cases ending <;> rfl
  have hadvance : c.advance.behind = opener :: c.behind ∧ c.advance.faults = c.faults := by
    simp [advance, hahead]
  rw [ahead_advance hahead] at hus
  rw [hadvance.1] at hbehind
  refine ⟨opener :: (us ++ (ts ++ (ending.toList ++ vs))), faults ++ fault.toList, ?_, ?_, ?_, ?_⟩
  · rw [hahead, hus, hts, hvs]
    simp only [List.cons_append, List.append_assoc]
  · rw [hbehind'', hbehind', hbehind]
    simp only [List.reverse_cons, List.reverse_append, List.append_assoc, hlast]
    rfl
  · rw [hfaults, hfaults', hsame, hadvance.2, List.reverse_append, hnoted, List.append_assoc]
  · have hopener : opener.kind.isCloser = false := by rw [hopen]; rfl
    have hfirst : (opener.kind == .tagOpen) = true := beq_iff_eq.mpr hopen
    simp only [List.filter_cons, List.filter_append, hfirst, hopener, hopeners, hclosers, hopeners',
      hclosers', hstart, hend, if_true, Bool.false_eq_true, if_false, List.nil_append,
      List.append_nil, Node.elementsIn_element]
    exact (haccounted.cons hfits).of_perm List.perm_append_comm List.perm_append_comm

end TagsAccounted

/-! ### Elements -/

/-- What is asked of a production that reads the children of elements, from cursors in the
tokens with fewer than `n` of them ahead: it reads something at every start tag, and what it
reads accounts for the tags that are passed. -/
structure AccountsForTags (input : Input) (n : Nat) (p : Production) : Prop extends Moves p where
  opens : ∀ {c : Cursor} {t : Token} {rest : List Token}, c.ahead = t :: rest →
    t.kind = .tagOpen → c.ahead.length < n → ∃ found, p c = some found
  accounted : ∀ {c : Cursor} {node : Node} {d : Cursor}, c.Within input.tokens → c.ahead.length < n →
    Shallow d.faults → p c = some (node, d) →
    TagsAccounted input.tokens input.config.impliedEndTags c d [node]

/-- Where nothing is read, there is no tag. -/
theorem AccountsForTags.idle_of_none {n : Nat} {p : Production} (h : AccountsForTags input n p)
    (hahead : c.ahead = t :: rest) (hn : c.ahead.length < n) (ht : ¬ t.kind.isCloser = true)
    (hnone : p c = none) : isTag t.kind = false := by
  have hopen : t.kind ≠ .tagOpen := by
    intro hopen
    obtain ⟨found, hfound⟩ := h.opens hahead hopen hn
    rw [hnone] at hfound
    cases hfound
  simpa [isTag, hopen] using ht

/-- The ways in which the content of an element may end at a cursor. -/
inductive Ends (input : Input) (e : OpenElement) (d : Cursor) : Content → Prop
  | closed {t : Token} {rest : List Token} {children : List Node} (hahead : d.ahead = t :: rest)
      (ht : t.kind = .tagClose) (hname : Text.lower (tagName t) = e.key) :
      Ends input e d ⟨children, true, d.pastEndTag.previousEnd input, d.pastEndTag⟩
  | exhausted {children : List Node} :
      Ends input e d ⟨children, false, input.stop,
        e.complain (.unclosedElement e.written) e.opener d⟩
  | interrupted {t : Token} {rest : List Token} {children : List Node}
      (hahead : d.ahead = t :: rest) (ht : t.kind.isCloser = true) :
      Ends input e d ⟨children, false, t.start, e.complain (e.interruptedBy t) t d⟩
  | implied {stop : Int} {children : List Node} (himplied : input.config.impliedEndTags = true)
      (hoptional : Markup.optionalEndTags.contains e.key = true) :
      Ends input e d ⟨children, false, stop, d⟩

theorem Ends.of_children {e : OpenElement} {content : Content} (h : Ends input e d content)
    (children : List Node) : Ends input e d { content with children } := by
  cases h with
  | closed hahead ht hname => exact .closed hahead ht hname
  | exhausted => exact .exhausted
  | interrupted hahead ht => exact .interrupted hahead ht
  | implied himplied hoptional => exact .implied himplied hoptional

/-- Only elements whose end tag may be left out are ended by a start tag. -/
theorem optional_of_impliesEnd {opened start : String} (h : Markup.impliesEnd opened start = true) :
    Markup.optionalEndTags.contains opened = true := by
  unfold Markup.impliesEnd Markup.impliedEnders at h
  split at h
  all_goals simp_all [Markup.optionalEndTags]

/-- **The tags in the content of an element are accounted for**, up to where it ends. -/
theorem contentLoop_tagsAccounted {n : Nat} {child : Production} (hchild : AccountsForTags input n child)
    (e : OpenElement) (turns : Nat) (c : Cursor) (hwithin : c.Within input.tokens)
    (hn : c.ahead.length < n) (hturns : c.ahead.length < turns)
    (hshallow : Shallow (contentLoop input Dialect.markup child e turns c).cursor.faults) :
    ∃ d, TagsAccounted input.tokens input.config.impliedEndTags c d
        (contentLoop input Dialect.markup child e turns c).children
      ∧ Ends input e d (contentLoop input Dialect.markup child e turns c) := by
  have hrun := contentRun input Dialect.markup child e turns c
  generalize contentLoop input Dialect.markup child e turns c = content at hrun hshallow
  have hskip (c : Cursor) : TagsAccounted input.tokens input.config.impliedEndTags c c.skipTrivia [] :=
    .of_passesNoTag (skims_skipTrivia c).passesNoTag rfl
  induction hrun with
  | spent => exact absurd hturns (Nat.not_lt_zero _)
  | @exhausted _ c => exact ⟨_, hskip c, .exhausted⟩
  | @closed _ c _ _ hahead ht hname => exact ⟨_, hskip c, .closed hahead ht hname⟩
  | @interrupted _ c _ _ hahead _ ht => exact ⟨_, hskip c, .interrupted hahead ht⟩
  | @stray _ c _ _ _ _ hahead _ ht hrecover _ ih =>
      have hread := (hskip c).trans (.of_recover? hahead ht hrecover)
      have hshort := (leads_skipTrivia c).length_le
      have hstep := (steps_of_recover? hahead hrecover).shorter
      obtain ⟨b, hrest, hends⟩ := ih (hwithin.passes hread.passes) (by omega) (by omega) hshallow
      exact ⟨b, hread.trans hrest, hends⟩
  | @implied _ c _ _ _ _ hends =>
      simp only [OpenElement.endsBefore, Bool.and_eq_true] at hends
      exact ⟨_, hskip c, .implied hends.1.2 (optional_of_impliesEnd hends.2)⟩
  | @child _ c c' _ _ _ _ _ _ _ hnode hmore ih =>
      have hshort := (leads_skipTrivia c).length_le
      have hsuffix := hmore.eq ▸ (leads_contentLoop input Dialect.markup hchild.toMoves e _ c').faults
      have hread := (hskip c).trans (hchild.accounted (hwithin.passes (leads_skipTrivia c).passes)
        (by omega) (hshallow.of_suffix hsuffix) hnode)
      have hstep := (hchild.steps hnode).shorter
      obtain ⟨b, hrest, hends⟩ := ih (hwithin.passes hread.passes) (by omega) (by omega) hshallow
      exact ⟨b, hread.trans hrest, hends.of_children _⟩
  | @filler _ c _ _ _ hahead ht _ hnode _ ih =>
      have hshort := (leads_skipTrivia c).length_le
      have hidle := hchild.idle_of_none hahead (by omega) ht hnode
      have hpass : TagsAccounted input.tokens input.config.impliedEndTags c.skipTrivia
          c.skipTrivia.advance [] := .of_passesNoTag (passesNoTag_advance hahead hidle) rfl
      have hread := (hskip c).trans hpass
      have hstep := (steps_advance hahead).shorter
      obtain ⟨b, hrest, hends⟩ := ih (hwithin.passes hread.passes) (by omega) (by omega) hshallow
      exact ⟨b, hread.trans hrest, hends⟩

/-- An open element of markup. -/
def openElement (input : Input) (opener : Token) : OpenElement :=
  { opener, key := Text.lower (tagName opener)
    optional := input.config.impliedEndTags
      && Markup.optionalEndTags.contains (Text.lower (tagName opener)) }

/-- An element whose content is not closed: what is noted of it, if anything, is an entry. -/
theorem TagsAccounted.unclosed {opener : Token} {cause : Anomaly} {blame : Token} {b e : Cursor}
    {children : List Node} (hahead : c.ahead = opener :: rest) (hopen : opener.kind = .tagOpen)
    (htag : c.advance.PassesNoTag b)
    (hpassed : TagsAccounted input.tokens input.config.impliedEndTags b d children) (stop : Int)
    (attributes : List Node) (he : e = (openElement input opener).complain cause blame d)
    (hneeded : (openElement input opener).optional = false →
      Tagged input.tokens input.config.impliedEndTags
        { node := .element opener.start stop
            { name := Text.lower (tagName opener), closed := false } attributes children
          opener, fault := some ⟨cause, blame.start, blame.stop⟩ }) :
    TagsAccounted input.tokens input.config.impliedEndTags c e
      [.element opener.start stop { name := Text.lower (tagName opener), closed := false }
        attributes children] := by
  rw [he, OpenElement.complain]
  by_cases hoptional : (openElement input opener).optional = true
  · rw [if_pos hoptional]
    rw [openElement, Bool.and_eq_true] at hoptional
    exact .element hahead hopen htag hpassed ⟨[], rfl, rfl, by simp⟩ (by simp) rfl
      (.omitted hoptional.1 hoptional.2 stop attributes children)
  · rw [if_neg hoptional]
    exact .element hahead hopen htag hpassed ⟨[], rfl, rfl, by simp⟩ (by simp) rfl
      (hneeded (Bool.eq_false_iff.mpr hoptional))

/-- An element accounts for its tags if what stands in it accounts for those inside. -/
theorem Ends.tagsAccounted (hclosers : ∀ t ∈ input.tokens, t.kind.isCloser = true → t.kind = .tagClose)
    {opener : Token} {b : Cursor} {content : Content} (hahead : c.ahead = opener :: rest)
    (hopen : opener.kind = .tagOpen) (htag : c.advance.PassesNoTag b)
    (hpassed : TagsAccounted input.tokens input.config.impliedEndTags b d content.children)
    (hwithin : d.Within input.tokens) (attributes : List Node)
    (h : Ends input (openElement input opener) d content) :
    TagsAccounted input.tokens input.config.impliedEndTags c content.cursor
      [.element opener.start content.stop
        { name := Text.lower (tagName opener), closed := content.closed } attributes
        content.children] := by
  cases h with
  | @closed t after children hd ht hname =>
      obtain ⟨⟨ts, hts, hbehind, hidle⟩, hfaults⟩ := pastEndTag_passesNoTag d
      have hadvance : d.advance.behind = t :: d.behind ∧ d.advance.faults = d.faults := by
        simp [advance, hd]
      rw [ahead_advance hd] at hts
      rw [hadvance.1] at hbehind
      have hplace : input.tokens = d.behind.reverse ++ t :: after := hd ▸ hwithin
      have hending : ∃ ts, d.ahead = (some t).toList ++ (ts ++ d.pastEndTag.ahead)
          ∧ d.pastEndTag.behind = ts.reverse ++ ((some t).toList ++ d.behind)
          ∧ ∀ t ∈ ts, isTag t.kind = false := by
        refine ⟨ts, ?_, hbehind, hidle⟩
        rw [hd, hts]
        rfl
      have hcloser : ∀ u ∈ some t, u.kind.isCloser = true := by
        rintro u ⟨⟩
        rw [ht]
        rfl
      have hsilent : d.pastEndTag.faults = (none : Option Fault).toList ++ d.faults :=
        hfaults.trans hadvance.2
      rw [previousEnd_pastEndTag hd]
      exact .element hahead hopen htag hpassed hending hcloser hsilent
        (.closed hplace ht hname attributes children)
  | exhausted =>
      exact .unclosed hahead hopen htag hpassed _ attributes rfl fun hneeded =>
        .unclosed hneeded _ attributes _
  | @interrupted t after children hd ht =>
      have hmem : t ∈ input.tokens := by
        rw [hwithin, hd]
        exact List.mem_append_right _ List.mem_cons_self
      have hclose := hclosers t hmem ht
      refine .unclosed hahead hopen htag hpassed _ attributes rfl fun hneeded => ?_
      rw [OpenElement.interruptedBy, if_pos hclose]
      exact .mismatched hmem hclose hneeded _ attributes _
  | implied himplied hoptional =>
      exact .element hahead hopen htag hpassed ⟨[], rfl, rfl, by simp⟩ (by simp) rfl
        (.omitted himplied hoptional _ attributes _)

/-- **An element accounts for its tags** and for those of all that stands in it. -/
theorem AccountsForTags.element {n : Nat} {child : Production} (hchild : AccountsForTags input n child)
    (hclosers : ∀ t ∈ input.tokens, t.kind.isCloser = true → t.kind = .tagClose) :
    AccountsForTags input (n + 1) (Parsing.element input Dialect.markup child (choice [])) := by
  have hnothing : Moves (choice []) := Moves.choice (by simp)
  refine { moves_element input Dialect.markup hchild.toMoves hnothing with
    opens := ?_, accounted := ?_ }
  · intro c t rest hahead hopen hn
    unfold Parsing.element
    simp only [acceptKind?_of_eq hahead hopen]
    split
    · exact ⟨_, rfl⟩
    split
    · exact ⟨_, rfl⟩
    · exact ⟨_, rfl⟩
  · intro c node d hwithin hn hshallow h
    obtain ⟨opener, rest, hahead, hopen, hread⟩ := elementRead h
    have hleads := (leads_advance c).trans
      (leads_startTagLoop input Dialect.markup hnothing input.bound c.advance)
    have hshort := Nat.lt_of_le_of_lt
      (leads_startTagLoop input Dialect.markup hnothing input.bound c.advance).length_le
      (Nat.lt_of_lt_of_le (steps_advance hahead).shorter (Nat.le_of_lt_succ hn))
    obtain ⟨htag, hnone⟩ := startTagLoop_passesNoTag input Dialect.markup input.bound c.advance
    generalize startTagLoop input Dialect.markup (choice []) input.bound c.advance = tag at *
    cases hread with
    | empty =>
        have hinner : TagsAccounted input.tokens input.config.impliedEndTags tag.cursor tag.cursor
            tag.expressions := .of_passesNoTag (.refl _) (by rw [hnone]; rfl)
        exact .element hahead hopen htag hinner ⟨[], rfl, rfl, by simp⟩ (by simp) rfl
          (.empty _ tag.attributes tag.expressions)
    | tooDeep => exact absurd rfl (hshallow _ List.mem_cons_self)
    | content _ _ he hcontent =>
        subst hcontent he
        have hafter : (tag.cursor.push ⟨.tagClose, some (Text.lower (tagName opener)),
            opener.start⟩).Within input.tokens := hwithin.passes hleads.passes
        obtain ⟨b, hpassed, hends⟩ := contentLoop_tagsAccounted hchild (openElement input opener)
          input.bound _ hafter hshort hafter.length_lt hshallow
        rw [hnone, List.nil_append]
        exact hends.tagsAccounted hclosers hahead hopen htag hpassed (hafter.passes hpassed.passes)
          tag.attributes

/-- **The tags of a whole document are accounted for.**  No element is open outside of all elements, so
nothing stops the loop before the end of the tokens. -/
theorem itemsLoop_tagsAccounted {n : Nat} {item : Production} (hitem : AccountsForTags input n item) (turns : Nat)
    (c : Cursor) (hwithin : c.Within input.tokens) (hopened : c.opened = [])
    (hn : c.ahead.length < n) (hturns : c.ahead.length < turns)
    (hshallow : Shallow (itemsLoop item none turns c).cursor.faults) :
    TagsAccounted input.tokens input.config.impliedEndTags c (itemsLoop item none turns c).cursor
        (itemsLoop item none turns c).nodes
      ∧ (itemsLoop item none turns c).cursor.ahead = [] := by
  have hrun := itemsRun item none turns c
  generalize itemsLoop item none turns c = found at hrun hshallow
  have hskip (c : Cursor) : TagsAccounted input.tokens input.config.impliedEndTags c c.skipTrivia [] :=
    .of_passesNoTag (skims_skipTrivia c).passesNoTag rfl
  induction hrun with
  | spent => exact absurd hturns (Nat.not_lt_zero _)
  | @ended _ c hahead => exact ⟨hskip c, hahead⟩
  | closed _ ht => cases ht
  | @awaited _ c _ _ _ _ _ hrecover =>
      have hnone : c.skipTrivia.opened = [] := (leads_skipTrivia c).opened.trans hopened
      simp [recover?, expects, hnone] at hrecover
  | @stray _ c _ _ _ _ hahead _ ht hrecover _ ih =>
      have hread := (hskip c).trans (.of_recover? hahead ht hrecover)
      have hsteps := steps_of_recover? hahead hrecover
      have hshort := (leads_skipTrivia c).length_le
      have hstep := hsteps.shorter
      obtain ⟨hrest, hend⟩ := ih (hwithin.passes hread.passes)
        (hsteps.leads.opened.trans ((leads_skipTrivia c).opened.trans hopened)) (by omega)
        (by omega) hshallow
      exact ⟨hread.trans hrest, hend⟩
  | @node _ c d _ _ _ _ _ _ _ hnode hmore ih =>
      have hsteps := hitem.steps hnode
      have hshort := (leads_skipTrivia c).length_le
      have hstep := hsteps.shorter
      have hsuffix := hmore.eq ▸ (leads_itemsLoop hitem.toMoves none _ d).faults
      have hread := (hskip c).trans (hitem.accounted (hwithin.passes (leads_skipTrivia c).passes)
        (by omega) (hshallow.of_suffix hsuffix) hnode)
      obtain ⟨hrest, hend⟩ := ih (hwithin.passes hread.passes)
        (hsteps.leads.opened.trans ((leads_skipTrivia c).opened.trans hopened)) (by omega)
        (by omega) hshallow
      exact ⟨hread.trans hrest, hend⟩
  | @filler _ c _ _ _ hahead _ ht hnode _ ih =>
      have hsteps := steps_advance hahead
      have hshort := (leads_skipTrivia c).length_le
      have hstep := hsteps.shorter
      have hidle := hitem.idle_of_none hahead (by omega) ht hnode
      have hpass : TagsAccounted input.tokens input.config.impliedEndTags c.skipTrivia
          c.skipTrivia.advance [] := .of_passesNoTag (passesNoTag_advance hahead hidle) rfl
      have hread := (hskip c).trans hpass
      obtain ⟨hrest, hend⟩ := ih (hwithin.passes hread.passes)
        (hsteps.leads.opened.trans ((leads_skipTrivia c).opened.trans hopened)) (by omega)
        (by omega) hshallow
      exact ⟨hread.trans hrest, hend⟩

end Parsing

end SourceView
