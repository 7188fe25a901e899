/-
What a loop does in one turn.

A loop looks at the token that comes next, past whitespace, and does one of a few things.
Each of them is an equation here, for a cursor that stands at a token that is no whitespace;
whoever knows which token that is need not open the loop.
-/
import SourceView.Proofs.Parsing.Outline

namespace SourceView.Parsing

open Cursor

variable {c d : Cursor} {t : Token} {rest : List Token}

theorem skipTrivia_of_nil (hahead : c.ahead = []) : c.skipTrivia = c := by
  obtain ⟨behind, ahead, faults, opened, reports⟩ := c
  subst hahead
  rfl

/-! ### Past known tokens -/

section Past

variable {input : Input} {tokens ts us rest' : List Token}

/-- The cursor stands in the tokens. -/
def Cursor.Within (tokens : List Token) (c : Cursor) : Prop :=
  tokens = c.behind.reverse ++ c.ahead

theorem Cursor.Within.passes (h : c.Within tokens) (hpasses : c.Passes d) :
    d.Within tokens := by
  obtain ⟨ts, hahead, hbehind⟩ := hpasses
  rw [Within, hbehind, List.reverse_append, List.reverse_reverse, List.append_assoc, ← hahead]
  exact h

theorem Cursor.Within.length_lt (h : c.Within input.tokens) : c.ahead.length < input.bound := by
  have hlength := congrArg List.length h
  rw [List.length_append] at hlength
  unfold Input.bound
  omega

/-- The cursor past tokens, with others ahead. -/
def Cursor.past (c : Cursor) (ts rest : List Token) : Cursor :=
  { c with behind := ts.reverse ++ c.behind, ahead := rest }

theorem past_nil (hahead : c.ahead = rest) : c.past [] rest = c := by
  subst hahead
  rfl

theorem past_past : (c.past ts rest).past us rest' = c.past (ts ++ us) rest' := by
  simp [Cursor.past]

theorem advance_eq_past (hahead : c.ahead = t :: rest) : c.advance = c.past [t] rest := by
  simp only [advance, hahead]
  rfl

theorem Cursor.Within.past (h : c.Within tokens) (hahead : c.ahead = ts ++ rest) :
    (c.past ts rest).Within tokens := by
  refine h.passes ⟨ts, hahead, rfl⟩

/-- One piece of whitespace before a token that is none. -/
theorem skipTrivia_eq_past {space : Token} (hahead : c.ahead = space :: t :: rest)
    (hspace : space.kind.isTrivia = true) (ht : t.kind.isTrivia = false) :
    c.skipTrivia = c.past [space] (t :: rest) := by
  simp only [skipTrivia, hahead, passTrivia, hspace, ht, if_true, Bool.false_eq_true, if_false]
  rfl

/-- A container that was opened and whose inside is passed. -/
theorem closeTo_push_past {o : OpenContainer} : ((c.push o).past ts rest).closeTo c = c.past ts rest :=
  rfl

end Past

/-! ### Items -/

section Items

variable {item : Production} {closer : Option TokenKind} {turns : Nat}

theorem itemsLoop_nil (hahead : c.ahead = []) :
    itemsLoop item closer (turns + 1) c = ⟨[], none, c⟩ := by
  rw [itemsLoop, skipTrivia_of_nil hahead]
  simp only [peek?_of_ahead_nil hahead]

theorem itemsLoop_closer (hahead : c.ahead = t :: rest) (htrivia : t.kind.isTrivia = false)
    (ht : some t.kind = closer) :
    itemsLoop item closer (turns + 1) c = ⟨[], some t, c.advance⟩ := by
  rw [itemsLoop, skipTrivia_of_not_trivia hahead htrivia]
  simp only [peek?_of_ahead hahead, if_pos ht]

/-- At a closer that is not the loop's own. -/
theorem itemsLoop_other (hahead : c.ahead = t :: rest) (hcloser : t.kind.isCloser = true)
    (htrivia : t.kind.isTrivia = false) (hne : some t.kind ≠ closer) :
    itemsLoop item closer (turns + 1) c = match c.recover? t with
      | none => ⟨[], none, c⟩
      | some d => itemsLoop item closer turns d := by
  rw [itemsLoop, skipTrivia_of_not_trivia hahead htrivia]
  cases hrecover : c.recover? t with
  | none => simp only [peek?_of_ahead hahead, if_neg hne, if_pos hcloser, hrecover]
  | some d => simp only [peek?_of_ahead hahead, if_neg hne, if_pos hcloser, hrecover]

theorem itemsLoop_item (hahead : c.ahead = t :: rest) (htrivia : t.kind.isTrivia = false)
    (hne : some t.kind ≠ closer) (hcloser : t.kind.isCloser = false) {node : Node}
    (hitem : item c = some (node, d)) :
    itemsLoop item closer (turns + 1) c
      = { itemsLoop item closer turns d with nodes := node :: (itemsLoop item closer turns d).nodes } := by
  rw [itemsLoop, skipTrivia_of_not_trivia hahead htrivia]
  simp only [peek?_of_ahead hahead, if_neg hne, hcloser, Bool.false_eq_true, if_false, hitem]

end Items

/-! ### Containers -/

section Containers

variable {input : Input} {item : Production} {g : Group}

theorem Group.read_shallow (hahead : c.ahead = t :: rest) (ht : t.kind = g.opener)
    (hdeep : ¬ c.advance.tooDeep = true) :
    g.read input item c = some (g.body input item t c.advance) := by
  rw [read, acceptKind?_of_eq hahead ht]
  simp only [if_neg hdeep]

theorem Group.read_deep (hahead : c.ahead = t :: rest) (ht : t.kind = g.opener)
    (hdeep : c.advance.tooDeep = true) :
    g.read input item c = some
      (.container t.start (skipBalanced input t g.closer c.advance).1 (g.node true) [],
        (skipBalanced input t g.closer c.advance).2) := by
  rw [read, acceptKind?_of_eq hahead ht]
  simp only [if_pos hdeep]

/-- What the loop between an opener and its closer finds. -/
def Group.inside (g : Group) (input : Input) (item : Production) (opener : Token) (c : Cursor) :
    Items :=
  items input item (some g.closer) (c.push { closer := g.closer, start := opener.start })

theorem Group.body_closed {u : Token} (hu : (g.inside input item t c).closer = some u) :
    g.body input item t c
      = (.container t.start u.stop (g.node true) (g.inside input item t c).nodes,
        (g.inside input item t c).cursor.closeTo c) := by
  unfold inside at hu
  simp only [body, hu, inside]

theorem Group.body_unclosed (hnone : (g.inside input item t c).closer = none) :
    g.body input item t c
      = (.container t.start ((g.inside input item t c).cursor.unclosedEnd input) (g.node false)
          (g.inside input item t c).nodes,
        ((g.inside input item t c).cursor.closeTo c).note (.unclosed g.what g.expected) t.start
          t.stop) := by
  unfold inside at hnone
  simp only [body, hnone, inside]
  rfl

end Containers

/-! ### Elements -/

section Elements

variable {input : Input} {dialect : Dialect} {turns : Nat}

theorem startTagLoop_end {expression : Production} (hahead : c.ahead = t :: rest)
    (ht : t.kind = .tagEnd) :
    startTagLoop input dialect expression (turns + 1) c
      = ⟨some .tagEnd, [], [], c.past [t] rest⟩ := by
  rw [startTagLoop, skipTrivia_of_not_trivia hahead (by rw [ht]; rfl)]
  simp only [peek?_of_ahead hahead, ht, true_or, if_true, advance_eq_past hahead]

theorem readAttribute_value {expression : Production} {equals value : Token} (name : Token)
    (hahead : c.ahead = equals :: value :: rest) (hequals : equals.kind = .equals)
    (hvalue : value.kind = .attributeValue) :
    readAttribute input dialect expression name c =
      { node := .leaf name.start value.stop
          (.attribute (dialect.name name.value) (some (unquote value.value)))
        cursor := c.past [equals, value] rest } := by
  have hbefore : c.skipTrivia = c :=
    skipTrivia_of_not_trivia hahead (by rw [hequals]; rfl)
  have hnext : c.advance.ahead = value :: rest := ahead_advance hahead
  have hbehind : c.advance.skipTrivia = c.advance :=
    skipTrivia_of_not_trivia hnext (by rw [hvalue]; rfl)
  have hpast : c.advance.advance = c.past [equals, value] rest := by
    rw [advance_eq_past hnext, advance_eq_past hahead, past_past]
    rfl
  unfold readAttribute
  simp only [hbefore, acceptKind?_of_eq hahead hequals, hbehind, peek?_of_ahead hnext, hvalue, true_or,
    if_true, hpast]

/-- At an attribute with a value that is no expression. -/
theorem startTagLoop_attribute {expression : Production} {space name equals value : Token}
    {ending : Option TokenKind} {attributes expressions : List Node}
    (hahead : c.ahead = space :: name :: equals :: value :: rest) (hspace : space.kind = .whitespace)
    (hname : name.kind = .attributeName) (hequals : equals.kind = .equals)
    (hvalue : value.kind = .attributeValue)
    (hmore : startTagLoop input dialect expression turns (c.past [space, name, equals, value] rest)
      = ⟨ending, attributes, expressions, d⟩) :
    startTagLoop input dialect expression (turns + 1) c
      = ⟨ending, .leaf name.start value.stop
          (.attribute (dialect.name name.value) (some (unquote value.value))) :: attributes,
        expressions, d⟩ := by
  have hskip : c.skipTrivia = c.past [space] (name :: equals :: value :: rest) :=
    skipTrivia_eq_past hahead (by rw [hspace]; rfl) (by rw [hname]; rfl)
  have hpeek : (c.past [space] (name :: equals :: value :: rest)).peek? = some name := rfl
  have hnext : (c.past [space] (name :: equals :: value :: rest)).advance
      = c.past [space, name] (equals :: value :: rest) := rfl
  have hread : readAttribute input dialect expression name
        (c.past [space, name] (equals :: value :: rest))
      = { node := .leaf name.start value.stop
            (.attribute (dialect.name name.value) (some (unquote value.value)))
          cursor := c.past [space, name, equals, value] rest } :=
    readAttribute_value name rfl hequals hvalue
  rw [startTagLoop, hskip]
  simp only [hpeek, hname, reduceCtorEq, or_self, if_false, if_true, hnext, hread, hmore]
  rfl

/-- At the end tag of the element. -/
theorem contentLoop_end {child : Production} {e : OpenElement} {bracket : Token}
    (hahead : c.ahead = t :: bracket :: rest) (ht : t.kind = .tagClose)
    (hkey : Text.lower (tagName t) = e.key) (hbracket : bracket.kind = .tagEnd) :
    contentLoop input dialect child e (turns + 1) c
      = ⟨[], true, bracket.stop, c.past [t, bracket] rest⟩ := by
  have hpast : c.pastEndTag = c.past [t, bracket] rest := by
    simp only [pastEndTag, advance_eq_past hahead, past, passEndTag, hbracket, if_true]
    rfl
  rw [contentLoop, skipTrivia_of_not_trivia hahead (by rw [ht]; rfl)]
  simp only [peek?_of_ahead hahead, if_pos (And.intro ht hkey), hpast]
  rfl

/-- At a child that does not end the element. -/
theorem contentLoop_child {child : Production} {e : OpenElement} {node : Node} {nodes : List Node}
    {closed : Bool} {stop : Int} {d' : Cursor} (hahead : c.ahead = t :: rest) (ht : t.kind = .tagOpen)
    (himplies : dialect.implies input = false) (hchild : child c = some (node, d))
    (hmore : contentLoop input dialect child e turns d = ⟨nodes, closed, stop, d'⟩) :
    contentLoop input dialect child e (turns + 1) c = ⟨node :: nodes, closed, stop, d'⟩ := by
  rw [contentLoop, skipTrivia_of_not_trivia hahead (by rw [ht]; rfl)]
  simp only [peek?_of_ahead hahead, ht, reduceCtorEq, false_and, if_false, TokenKind.isCloser,
    OpenElement.endsBefore, Bool.false_eq_true, himplies, Bool.and_false, Bool.false_and, hchild,
    hmore]

/-- An element whose start tag is complete, and which may have content. -/
theorem element_open {child expression : Production} {attributes children : List Node} {closed : Bool}
    {stop : Int} {d' : Cursor} (hahead : c.ahead = t :: rest) (ht : t.kind = .tagOpen)
    (htag : startTagLoop input dialect expression input.bound (c.past [t] rest)
      = ⟨some .tagEnd, attributes, [], d⟩)
    (hvoid : dialect.voidElements.contains (Text.lower (tagName t)) = false)
    (hdeep : d.tooDeep = false)
    (hcontent : ∀ e : OpenElement, e.key = Text.lower (tagName t) →
      contentLoop input dialect child e input.bound
          (d.push ⟨.tagClose, some (Text.lower (tagName t)), t.start⟩)
        = ⟨children, closed, stop, d'⟩) :
    element input dialect child expression c
      = some (.element t.start stop { name := dialect.name (tagName t), closed } attributes children,
        d'.closeTo d) := by
  have hread := hcontent ⟨t, Text.lower (tagName t),
    dialect.implies input && Markup.optionalEndTags.contains (Text.lower (tagName t))⟩ rfl
  simp only [element, acceptKind?_of_eq hahead ht, advance_eq_past hahead, htag, hvoid, hdeep,
    Option.some.injEq, reduceCtorEq, Bool.false_eq_true, and_false, or_self, if_false, hread,
    List.nil_append]

end Elements

end SourceView.Parsing
