/-
Void elements, and when they have children after all.

A void element has neither content nor an end tag, and nothing is read into it once the `>` of
its start tag is there.  But another tag may cut the start tag short.  Then the element is
read like any other: what comes next stands in it, up to an end tag of its own name or of an
element around it.

Whether anything stands in it shows in the tokens behind its name and in the names of the
elements around it, so those are carried along through the tree.  Raw text is left out, for
another grammar reads it.
-/
import SourceView.Analysis
import SourceView.Proofs.Embedding.Shift
import SourceView.Proofs.Markup.Tags
import SourceView.Proofs.Parsing.Trace

namespace SourceView

/-- Among the nodes `nodes`, which stand in elements of the names `names`, the node `n` stands in
elements of the names `around`, and in no raw text.  The innermost element comes first. -/
inductive Node.StandsIn (n : Node) (around : List String) : (names : List String) → List Node → Prop
  | here {nodes : List Node} (h : n ∈ nodes) : StandsIn n around around nodes
  | container {names : List String} {nodes children : List Node} {start stop : Int}
      {info : Container} (h : .container start stop info children ∈ nodes)
      (hinfo : ∀ language, info ≠ .rawText language) (hin : StandsIn n around names children) :
      StandsIn n around names nodes
  | element {names : List String} {nodes attributes children : List Node} {start stop : Int}
      {info : ElementInfo} (h : .element start stop info attributes children ∈ nodes)
      (hin : StandsIn n around (info.name :: names) children) : StandsIn n around names nodes

namespace Markup

open Parsing Parsing.Cursor

/-! ### What stands behind the name of a start tag -/

/-- Whether tokens of this kind end the start tag that they come after, its own end or not. -/
def endsStartTag (kind : TokenKind) : Bool :=
  kind == .tagEnd || kind == .tagSelfCloseEnd || isTag kind

/-- The tokens from the one on that ends a start tag, of those behind its name. -/
def fromEnd (after : List Token) : List Token :=
  after.dropWhile fun t => !endsStartTag t.kind

/-- The tokens behind an end tag, of those behind its name.  Junk is passed up to a `>`. -/
def afterEndTag (after : List Token) : List Token :=
  match after.dropWhile isEndTagJunk with
  | [] => after
  | t :: rest => if t.kind = .tagEnd then rest else after

/-- Whether tokens of this kind begin something that stands in an element. -/
def beginsChild : TokenKind → Bool
  | .comment | .lineComment | .tagOpen | .rawText | .text | .entity => true
  | _ => false

/-- Something stands in an element before it ends, where elements of the names `names` are open.
An end tag of none of these names is passed. -/
inductive HasContent (names : List String) : List Token → Prop
  | child {t : Token} {rest : List Token} (ht : beginsChild t.kind = true) :
      HasContent names (t :: rest)
  | filler {t : Token} {rest : List Token} (ht : t.kind ≠ .tagClose)
      (hmore : HasContent names rest) : HasContent names (t :: rest)
  | stray {t : Token} {rest : List Token} (ht : t.kind = .tagClose)
      (hname : Text.lower (tagName t) ∉ names) (hmore : HasContent names (afterEndTag rest)) :
      HasContent names (t :: rest)

/-- The start tag before the tokens `after` is cut short by another tag, and something comes of
that: no nesting limit is in the way, and something stands in the element. -/
def TakesChildren (name : String) (around : List String) (after : List Token) : Prop :=
  around.length < maxDepth ∧ ∃ t rest, fromEnd after = t :: rest
    ∧ (t.kind = .tagOpen ∨ t.kind = .tagClose) ∧ HasContent (name :: around) (t :: rest)

/-- If the node is a void element, its start tag is among the tokens, and the element has children
just when they say so. -/
def VoidRule (tokens : List Token) (around : List String) (n : Node) : Prop :=
  ∀ start stop info attributes children, n = .element start stop info attributes children →
    voidElements.contains info.name = true →
    ∃ before t after, tokens = before ++ t :: after ∧ t.kind = .tagOpen ∧ t.start = start
      ∧ Text.lower (tagName t) = info.name
      ∧ (children ≠ [] ↔ TakesChildren info.name around after)

/-- The void elements in the nodes, which stand in elements of these names, are as they should
be. -/
def Ruled (tokens : List Token) (names : List String) (nodes : List Node) : Prop :=
  ∀ around n, Node.StandsIn n around names nodes → VoidRule tokens around n

namespace Ruled

variable {tokens : List Token} {names : List String} {xs ys : List Node}

theorem nil : Ruled tokens names [] := by
  intro around n h
  cases h with
  | here h => exact absurd h (by simp)
  | container h => exact absurd h (by simp)
  | element h => exact absurd h (by simp)

theorem append (h : Ruled tokens names xs) (h' : Ruled tokens names ys) :
    Ruled tokens names (xs ++ ys) := by
  intro around n hin
  cases hin with
  | here hmem =>
      exact (List.mem_append.mp hmem).elim (fun hmem => h _ _ (.here hmem))
        fun hmem => h' _ _ (.here hmem)
  | container hmem hinfo hin =>
      exact (List.mem_append.mp hmem).elim (fun hmem => h _ _ (.container hmem hinfo hin))
        fun hmem => h' _ _ (.container hmem hinfo hin)
  | element hmem hin =>
      exact (List.mem_append.mp hmem).elim (fun hmem => h _ _ (.element hmem hin))
        fun hmem => h' _ _ (.element hmem hin)

theorem cons {x : Node} (h : Ruled tokens names [x]) (h' : Ruled tokens names xs) :
    Ruled tokens names (x :: xs) :=
  append h h'

theorem leaf {start stop : Int} {info : Leaf} : Ruled tokens names [.leaf start stop info] := by
  intro around n h
  cases h with
  | here h => rintro _ _ _ _ _ rfl; exact absurd (List.mem_singleton.mp h) (by simp)
  | container h => exact absurd (List.mem_singleton.mp h) (by simp)
  | element h => exact absurd (List.mem_singleton.mp h) (by simp)

theorem rawText {start stop : Int} {language : String} :
    Ruled tokens names [.container start stop (.rawText language) xs] := by
  intro around n h
  cases h with
  | here h => rintro _ _ _ _ _ rfl; exact absurd (List.mem_singleton.mp h) (by simp)
  | container h hinfo =>
      obtain ⟨-, -, rfl, -⟩ := Node.container.inj (List.mem_singleton.mp h)
      exact absurd rfl (hinfo language)
  | element h => exact absurd (List.mem_singleton.mp h) (by simp)

theorem document {start stop : Int} (h : Ruled tokens names xs) :
    Ruled tokens names [.container start stop .document xs] := by
  intro around n hin
  cases hin with
  | here hmem => rintro _ _ _ _ _ rfl; exact absurd (List.mem_singleton.mp hmem) (by simp)
  | container hmem hinfo hin =>
      obtain ⟨-, -, -, rfl⟩ := Node.container.inj (List.mem_singleton.mp hmem)
      exact h _ _ hin
  | element hmem => exact absurd (List.mem_singleton.mp hmem) (by simp)

theorem element {start stop : Int} {info : ElementInfo} {attributes : List Node}
    (hself : VoidRule tokens names (.element start stop info attributes xs))
    (h : Ruled tokens (info.name :: names) xs) :
    Ruled tokens names [.element start stop info attributes xs] := by
  intro around n hin
  cases hin with
  | here hmem => exact List.mem_singleton.mp hmem ▸ hself
  | container hmem => exact absurd (List.mem_singleton.mp hmem) (by simp)
  | element hmem hin =>
      obtain ⟨-, -, rfl, -, rfl⟩ := Node.element.inj (List.mem_singleton.mp hmem)
      exact h _ _ hin

end Ruled

/-! ### Passing tags -/

variable {input : Input} {c d : Cursor} {t : Token} {rest : List Token} {names : List String}

theorem passEndTag_eq (behind after : List Token) :
    (passEndTag behind after).map Prod.snd
      = match after.dropWhile isEndTagJunk with
        | [] => none
        | t :: rest => if t.kind = .tagEnd then some rest else none := by
  induction after generalizing behind with
  | nil => rfl
  | cons t rest ih =>
      unfold passEndTag
      by_cases hend : t.kind = .tagEnd
      · have hjunk : isEndTagJunk t = false := by simp [isEndTagJunk, hend, TokenKind.isTrivia]
        simp [hend, hjunk]
      · by_cases hjunk : isEndTagJunk t = true
        · rw [if_neg hend, if_pos hjunk, List.dropWhile_cons_of_pos hjunk, ih]
        · simp [hend, hjunk]

theorem ahead_pastEndTag (hahead : c.ahead = t :: rest) :
    c.pastEndTag.ahead = afterEndTag rest := by
  have hpassed := passEndTag_eq c.advance.behind rest
  have hadvance : c.advance.ahead = rest := ahead_advance hahead
  unfold pastEndTag afterEndTag
  simp only [hadvance]
  cases hpast : passEndTag c.advance.behind rest with
  | none =>
      rw [hpast] at hpassed
      simp only [hadvance]
      split at hpassed <;> simp_all
  | some moved =>
      rw [hpast] at hpassed
      simp only
      split at hpassed
      · simp at hpassed
      · split at hpassed <;> simp_all

/-- The cursor stands in elements of these names, and in nothing else. -/
def InElements (c : Cursor) (names : List String) : Prop :=
  c.opened.map (fun o => (o.closer, o.name)) = names.map fun name => (.tagClose, some name)

theorem InElements.leads (h : InElements c names) (hleads : c.Leads d) : InElements d names := by
  rw [InElements, hleads.opened]
  exact h

theorem InElements.push (h : InElements c names) (name : String) (start : Int) :
    InElements (c.push { closer := .tagClose, name := some name, start }) (name :: names) := by
  rw [InElements, List.map_cons, ← h]
  rfl

theorem InElements.tooDeep (h : InElements c names) :
    c.tooDeep = true ↔ ¬names.length < maxDepth := by
  have hlength := congrArg List.length h
  rw [List.length_map, List.length_map] at hlength
  simp [Cursor.tooDeep, hlength]

theorem InElements.expects (h : InElements c names) (name : String) :
    c.expects .tagClose (some name) = true ↔ name ∈ names := by
  have hopened : c.expects .tagClose (some name)
      = (c.opened.map fun o => (o.closer, o.name)).any
          fun o => o.1 == .tagClose && o.2 == some name := by
    simp [Cursor.expects, List.any_map, Function.comp_def]
  rw [hopened, h]
  simp

/-- An end tag stays where it is when an element waits for it, and is passed otherwise. -/
theorem InElements.recover? (h : InElements c names) (hahead : c.ahead = t :: rest)
    (ht : t.kind = .tagClose) :
    (Text.lower (tagName t) ∈ names ∧ c.recover? t = none)
      ∨ Text.lower (tagName t) ∉ names ∧ ∃ d, c.recover? t = some d
        ∧ d.ahead = afterEndTag rest := by
  unfold Cursor.recover?
  simp only [ht, if_true]
  by_cases hname : Text.lower (tagName t) ∈ names
  · exact Or.inl ⟨hname, if_pos ((h.expects _).mpr hname)⟩
  · refine Or.inr ⟨hname, _, if_neg fun hexpects => hname ((h.expects _).mp hexpects), ?_⟩
    exact ahead_pastEndTag (c := c.note _ t.start t.stop) hahead

/-! ### Start tags -/

theorem fromEnd_of_skips (h : c.Skips (fun t => endsStartTag t.kind = false) d) :
    fromEnd c.ahead = fromEnd d.ahead := by
  obtain ⟨ts, hahead, -, hts⟩ := h.tokens
  rw [fromEnd, hahead, List.dropWhile_append_of_pos fun t ht => by rw [hts t ht]; rfl, fromEnd]

theorem fromEnd_cons (ht : endsStartTag t.kind = true) : fromEnd (t :: rest) = t :: rest := by
  rw [fromEnd, List.dropWhile_cons_of_neg (by simp [ht])]

theorem not_endsStartTag_of_isTrivia {kind : TokenKind} (h : kind.isTrivia = true) :
    endsStartTag kind = false := by
  revert h
  cases kind <;> decide

theorem skips_trivia_in_tag (c : Cursor) :
    c.Skips (fun t => endsStartTag t.kind = false) c.skipTrivia :=
  (skips_skipTrivia c).imp fun _ => not_endsStartTag_of_isTrivia

theorem readAttribute_skips (input : Input) (name : Token) (c : Cursor) :
    c.Skips (fun t => endsStartTag t.kind = false)
      (readAttribute input Dialect.markup (choice []) name c).cursor := by
  unfold readAttribute
  cases hequals : c.skipTrivia.acceptKind? .equals with
  | none => exact ⟨⟨[], rfl, rfl, by simp⟩, rfl, rfl⟩
  | some found =>
      obtain ⟨equals, c'⟩ := found
      obtain ⟨hkind, -, rfl, hahead⟩ := accept?_eq_some hequals
      have hvalue :
          c.Skips (fun t => endsStartTag t.kind = false) c.skipTrivia.advance.skipTrivia :=
        ((skips_trivia_in_tag c).trans (skips_advance hahead (by rw [hkind]; rfl))).trans
          (skips_trivia_in_tag _)
      simp only [choice]
      cases hpeek : c.skipTrivia.advance.skipTrivia.peek? with
      | none => exact hvalue
      | some t =>
          obtain ⟨rest, hahead⟩ := ahead_of_peek? hpeek
          simp only
          by_cases ht : t.kind = .attributeValue ∨ t.kind = .error
          · rw [if_pos ht]
            refine hvalue.trans (skips_advance hahead ?_)
            rcases ht with ht | ht <;> rw [ht] <;> rfl
          · rw [if_neg ht]
            exact hvalue

/-- The start tag ends where these tokens are ahead: with a token of its own, which is passed, or
at another tag or the end of the tokens. -/
inductive EndsAt (tag : Parsing.StartTag) : List Token → Prop
  | own {t : Token} {rest : List Token} (ht : t.kind = .tagEnd ∨ t.kind = .tagSelfCloseEnd)
      (hending : tag.ending = some t.kind) (hcursor : tag.cursor.ahead = rest) :
      EndsAt tag (t :: rest)
  | other {ahead : List Token} (hending : tag.ending = none) (hcursor : tag.cursor.ahead = ahead)
      (htag : ∀ t rest, ahead = t :: rest → isTag t.kind = true) : EndsAt tag ahead

theorem EndsAt.with {tag : Parsing.StartTag} {ahead : List Token} (h : EndsAt tag ahead)
    (attributes expressions : List Node) : EndsAt { tag with attributes, expressions } ahead := by
  cases h with
  | own ht hending hcursor => exact .own ht hending hcursor
  | other hending hcursor htag => exact .other hending hcursor htag

theorem startTagLoop_endsAt {turns : Nat} (hturns : c.ahead.length < turns) :
    EndsAt (startTagLoop input Dialect.markup (choice []) turns c) (fromEnd c.ahead) := by
  have hrun := startTagRun input Dialect.markup (choice []) turns c
  generalize startTagLoop input Dialect.markup (choice []) turns c = tag at hrun
  induction hrun with
  | spent => exact absurd hturns (Nat.not_lt_zero _)
  | @exhausted _ c hahead =>
      rw [fromEnd_of_skips (skips_trivia_in_tag c), hahead]
      exact .other rfl hahead fun t rest h => absurd h (by simp [fromEnd])
  | @ended _ c _ _ hahead ht =>
      rw [fromEnd_of_skips (skips_trivia_in_tag c), hahead,
        fromEnd_cons (by rcases ht with h | h <;> rw [h] <;> rfl)]
      exact .own ht rfl (ahead_advance hahead)
  | @named _ c t _ _ _ hahead ht hread _ ih =>
      have hname : c.skipTrivia.Skips (fun t => endsStartTag t.kind = false) c.skipTrivia.advance :=
        skips_advance hahead (by rw [ht]; rfl)
      have hvalue := readAttribute_skips input t c.skipTrivia.advance
      rw [hread] at hvalue
      have hpass := ((skips_trivia_in_tag c).trans hname).trans hvalue
      have hskipped := (leads_skipTrivia c).length_le
      have hshort := (steps_advance hahead).shorter
      have hlen := hvalue.passes.length_le
      rw [fromEnd_of_skips hpass]
      exact (ih (by omega)).with _ _
  | @cut _ c t rest hahead _ _ hcut =>
      have htag : isTag t.kind = true := by simpa [isTag] using hcut
      have hfrom : fromEnd (t :: rest) = t :: rest :=
        fromEnd_cons (by rw [endsStartTag, htag, Bool.or_true])
      rw [fromEnd_of_skips (skips_trivia_in_tag c), hahead, hfrom]
      refine .other rfl hahead fun u us h => ?_
      exact (List.cons.inj h).1 ▸ htag
  | expression _ _ _ _ hnode => exact absurd hnode (by simp [choice])
  | @filler _ c t _ _ hahead hend _ hcut _ _ ih =>
      have hplain : endsStartTag t.kind = false := by
        simp only [not_or, Bool.not_eq_true] at hend hcut
        simp [endsStartTag, isTag, hend, hcut]
      have hskipped := (leads_skipTrivia c).length_le
      have hshort := (steps_advance hahead).shorter
      rw [fromEnd_of_skips ((skips_trivia_in_tag c).trans (skips_advance hahead hplain))]
      exact ih (by omega)

/-! ### Content -/

/-- What is asked of a production that reads nodes of markup, from cursors with fewer than `n`
tokens ahead. -/
structure Rules (input : Input) (n : Nat) (p : Production) : Prop extends Moves p where
  ruled : ∀ {c : Cursor} {names : List String} {node : Node} {d : Cursor},
    c.Within input.tokens → InElements c names → c.ahead.length < n → p c = some (node, d) →
    Ruled input.tokens names [node]

/-- What is asked of a production that reads what stands in elements: it reads something just where
something begins. -/
structure RulesContent (input : Input) (n : Nat) (p : Production) : Prop extends
    Rules input n p where
  begins : ∀ {c : Cursor} {t : Token} {rest : List Token}, c.Within input.tokens →
    c.ahead = t :: rest → c.ahead.length < n → ((p c).isSome = true ↔ beginsChild t.kind = true)

theorem not_hasContent_nil : ¬HasContent names [] := by
  intro h
  cases h

theorem hasContent_filler (ht : beginsChild t.kind = false) (hclose : t.kind ≠ .tagClose) :
    HasContent names (t :: rest) ↔ HasContent names rest := by
  refine ⟨fun h => ?_, .filler hclose⟩
  cases h with
  | child hbegins => rw [ht] at hbegins; exact absurd hbegins (by simp)
  | filler _ hmore => exact hmore
  | stray h => exact absurd h hclose

theorem hasContent_close (ht : t.kind = .tagClose) :
    HasContent names (t :: rest)
      ↔ Text.lower (tagName t) ∉ names ∧ HasContent names (afterEndTag rest) := by
  refine ⟨fun h => ?_, fun h => .stray ht h.1 h.2⟩
  cases h with
  | child hbegins => rw [ht] at hbegins; exact absurd hbegins (by decide)
  | filler hclose => exact absurd ht hclose
  | stray _ hname hmore => exact ⟨hname, hmore⟩

theorem beginsChild_of_isTrivia {kind : TokenKind} (h : kind.isTrivia = true) :
    beginsChild kind = false ∧ kind ≠ .tagClose := by
  revert h
  cases kind <;> decide

theorem hasContent_skipTrivia (names : List String) (c : Cursor) :
    HasContent names c.ahead ↔ HasContent names c.skipTrivia.ahead := by
  obtain ⟨ts, hahead, -, hts⟩ := (skips_skipTrivia c).tokens
  rw [hahead]
  clear hahead
  induction ts with
  | nil => rfl
  | cons t ts ih =>
      obtain ⟨ht, hts⟩ := List.forall_mem_cons.mp hts
      obtain ⟨hbegins, hclose⟩ := beginsChild_of_isTrivia ht
      exact (hasContent_filler hbegins hclose).trans (ih hts)

/-- No start tag ends a void element. -/
theorem not_impliesEnd_of_void {key : String} (h : voidElements.contains key = true)
    (start : String) : impliesEnd key start = false := by
  have hnone : ∀ key ∈ voidElements, impliedEnders key = [] := by decide
  rw [impliesEnd, hnone key (List.contains_iff_mem.mp h)]
  rfl

/-- The content of an element is as it should be, and a void element has some just when the tokens
say so. -/
theorem contentLoop_ruled {n : Nat} {child : Production} (hchild : RulesContent input n child)
    (hclosers : ∀ t ∈ input.tokens, t.kind.isCloser = true → t.kind = .tagClose)
    (e : OpenElement) {turns : Nat} (hwithin : c.Within input.tokens)
    (hnames : InElements c (e.key :: names)) (hn : c.ahead.length < n)
    (hturns : c.ahead.length < turns) :
    Ruled input.tokens (e.key :: names) (contentLoop input Dialect.markup child e turns c).children
      ∧ (voidElements.contains e.key = true →
        ((contentLoop input Dialect.markup child e turns c).children ≠ []
          ↔ HasContent (e.key :: names) c.ahead)) := by
  have hrun := contentRun input Dialect.markup child e turns c
  generalize contentLoop input Dialect.markup child e turns c = content at hrun
  -- Where the element ends at the cursor, nothing stands in it.
  have hnothing {c : Cursor} (hnone : ¬HasContent (e.key :: names) c.skipTrivia.ahead) :
      Ruled input.tokens (e.key :: names) []
        ∧ (voidElements.contains e.key = true →
          (([] : List Node) ≠ [] ↔ HasContent (e.key :: names) c.ahead)) := by
    rw [hasContent_skipTrivia]
    exact ⟨.nil, fun _ => iff_of_false (fun h => h rfl) hnone⟩
  induction hrun with
  | spent => exact absurd hturns (Nat.not_lt_zero _)
  | exhausted hahead => exact hnothing (by rw [hahead]; exact not_hasContent_nil)
  | closed hahead ht hname =>
      refine hnothing ?_
      rw [hahead, hasContent_close ht, hname]
      simp
  | @interrupted _ c t _ hahead _ ht hrecover =>
      have hskip := leads_skipTrivia c
      have hclose := hclosers t ((hwithin.passes hskip.passes).mem hahead) ht
      rcases (hnames.leads hskip).recover? hahead hclose with ⟨hname, -⟩ | ⟨-, d, hsome, -⟩
      · refine hnothing ?_
        rw [hahead, hasContent_close hclose]
        exact fun h => h.1 hname
      · rw [hrecover] at hsome
        cases hsome
  | @stray _ c d t _ _ hahead _ ht hrecover _ ih =>
      have hskip := leads_skipTrivia c
      have hsteps := steps_of_recover? hahead hrecover
      have hleads := hskip.trans hsteps.leads
      have hshort := hskip.length_le
      have hlen := hsteps.shorter
      have hclose := hclosers t ((hwithin.passes hskip.passes).mem hahead) ht
      have hsame : HasContent (e.key :: names) c.ahead ↔ HasContent (e.key :: names) d.ahead := by
        rcases (hnames.leads hskip).recover? hahead hclose with ⟨-, hnone⟩ | ⟨hname, d', hsome, hd⟩
        · rw [hrecover] at hnone
          cases hnone
        · obtain rfl := Option.some.inj (hrecover.symm.trans hsome)
          rw [hasContent_skipTrivia, hahead, hasContent_close hclose, hd]
          exact and_iff_right hname
      rw [hsame]
      exact ih (hwithin.passes hleads.passes) (hnames.leads hleads) (by omega) (by omega)
  | implied _ _ hends =>
      refine ⟨.nil, fun hvoid => ?_⟩
      rw [OpenElement.endsBefore, not_impliesEnd_of_void hvoid, Bool.and_false] at hends
      exact absurd hends (by simp)
  | @child _ c d t _ node _ hahead _ _ hnode _ ih =>
      have hskip := leads_skipTrivia c
      have hsteps := hchild.steps hnode
      have hleads := hskip.trans hsteps.leads
      have hshort := hskip.length_le
      have hlen := hsteps.shorter
      have hbegins := hchild.begins (hwithin.passes hskip.passes) hahead (by omega)
      rw [hnode] at hbegins
      have hrest := ih (hwithin.passes hleads.passes) (hnames.leads hleads) (by omega) (by omega)
      refine ⟨(hchild.ruled (hwithin.passes hskip.passes) (hnames.leads hskip) (by omega)
        hnode).cons hrest.1, fun _ => ?_⟩
      rw [hasContent_skipTrivia, hahead]
      exact iff_of_true (by simp) (.child (hbegins.mp rfl))
  | @filler _ c t _ _ hahead ht _ hnode _ ih =>
      have hskip := leads_skipTrivia c
      have hleads := hskip.trans (leads_advance _)
      have hshort := hskip.length_le
      have hlen := (steps_advance hahead).shorter
      have hbegins := hchild.begins (hwithin.passes hskip.passes) hahead (by omega)
      rw [hnode] at hbegins
      have hfiller : beginsChild t.kind = false :=
        Bool.eq_false_iff.mpr fun h => absurd (hbegins.mpr h) (by simp)
      have hclose : t.kind ≠ .tagClose := fun h => ht (by rw [h]; rfl)
      rw [hasContent_skipTrivia, hahead, hasContent_filler hfiller hclose, ← ahead_advance hahead]
      exact ih (hwithin.passes hleads.passes) (hnames.leads hleads) (by omega) (by omega)

/-! ### Elements -/

/-- What the tokens say of a void element whose start tag ends with a token of its own. -/
theorem not_takesChildren_of_own {name : String} {after : List Token}
    (hafter : fromEnd after = t :: rest) (ht : t.kind = .tagEnd ∨ t.kind = .tagSelfCloseEnd) :
    ¬TakesChildren name names after := by
  rintro ⟨-, u, us, hu, htag, -⟩
  obtain ⟨rfl, -⟩ := List.cons.inj (hafter.symm.trans hu)
  rcases ht with ht | ht <;> rw [ht] at htag <;> simp at htag

theorem takesChildren_iff {name : String} {after : List Token}
    (hclosers : ∀ t ∈ after, t.kind.isCloser = true → t.kind = .tagClose)
    (htag : ∀ t rest, fromEnd after = t :: rest → isTag t.kind = true)
    (hdepth : names.length < maxDepth) :
    TakesChildren name names after ↔ HasContent (name :: names) (fromEnd after) := by
  refine ⟨fun ⟨_, t, rest, hafter, _, hcontent⟩ => hafter ▸ hcontent, fun hcontent => ⟨hdepth, ?_⟩⟩
  cases hafter : fromEnd after with
  | nil => rw [hafter] at hcontent; exact absurd hcontent not_hasContent_nil
  | cons t rest =>
      refine ⟨t, rest, rfl, ?_, hafter ▸ hcontent⟩
      have hmem : t ∈ after := (List.dropWhile_sublist _).subset (hafter ▸ List.mem_cons_self)
      have hkind := htag t rest hafter
      rw [isTag, Bool.or_eq_true, beq_iff_eq] at hkind
      exact hkind.imp_right (hclosers t hmem)

/-- An element is as it should be where its children are. -/
theorem rules_element {n : Nat} {child : Production} (hchild : RulesContent input n child)
    (hclosers : ∀ t ∈ input.tokens, t.kind.isCloser = true → t.kind = .tagClose) :
    Rules input (n + 1) (Parsing.element input Dialect.markup child (choice [])) := by
  have hnothing : Moves (choice []) := Moves.choice (by simp)
  refine { moves_element input Dialect.markup hchild.toMoves hnothing with ruled := ?_ }
  intro c names node d hwithin hnames hn h
  obtain ⟨opener, rest, hahead, hopen, hread⟩ := elementRead h
  have hleads := (leads_advance c).trans
    (leads_startTagLoop input Dialect.markup hnothing input.bound c.advance)
  have hwithin' := hwithin.passes (leads_advance c).passes
  have hends : EndsAt (startTagLoop input Dialect.markup (choice []) input.bound c.advance)
      (fromEnd c.advance.ahead) := startTagLoop_endsAt hwithin'.length_lt
  have hnone := (startTagLoop_passesNoTag input Dialect.markup input.bound c.advance).2
  have hshort := Nat.lt_of_le_of_lt
    (leads_startTagLoop input Dialect.markup hnothing input.bound c.advance).length_le
    (Nat.lt_of_lt_of_le (steps_advance hahead).shorter (Nat.le_of_lt_succ hn))
  have htagged := hnames.leads hleads
  have hplace : input.tokens = c.behind.reverse ++ opener :: c.advance.ahead := by
    rw [ahead_advance hahead, ← hahead]
    exact hwithin
  have hafter : ∀ t ∈ c.advance.ahead, t.kind.isCloser = true → t.kind = .tagClose :=
    fun t ht => hclosers t (by rw [hplace]; simp [ht])
  generalize startTagLoop input Dialect.markup (choice []) input.bound c.advance = tag at *
  -- It is enough to know of the children of a void element when there are any.
  have hrule {stop : Int} {info : ElementInfo} {children : List Node}
      (hinfo : info.name = Text.lower (tagName opener))
      (hiff : voidElements.contains info.name = true →
        (children ≠ [] ↔ TakesChildren info.name names c.advance.ahead)) :
      VoidRule input.tokens names
        (.element opener.start stop info tag.attributes children) := by
    intro start stop info' attributes children' heq hvoid
    obtain ⟨rfl, rfl, rfl, rfl, rfl⟩ := Node.element.inj heq
    exact ⟨_, _, _, hplace, hopen, rfl, hinfo.symm, hiff hvoid⟩
  cases hread with
  | empty hempty =>
      rw [hnone]
      refine .element (hrule rfl fun _ => iff_of_false (fun h => h rfl) ?_) .nil
      generalize hfrom : fromEnd c.advance.ahead = from' at hends
      cases hends with
      | own ht => exact not_takesChildren_of_own hfrom ht
      | other hending =>
          rw [hending] at hempty
          exact absurd hempty (by simp)
  | tooDeep _ hdeep =>
      rw [hnone]
      refine .element (hrule rfl fun _ => iff_of_false (fun h => h rfl) ?_) .nil
      exact fun h => htagged.tooDeep.mp hdeep h.1
  | @content hempty hdeep e he content hcontent =>
      have hkey : e.key = Text.lower (tagName opener) := by rw [he]
      have hdepth : names.length < maxDepth :=
        Decidable.of_not_not fun h => hdeep (htagged.tooDeep.mpr h)
      have hpushed : (tag.cursor.push { closer := .tagClose, name := some e.key
                                        start := opener.start }).Within input.tokens :=
        hwithin.passes hleads.passes
      obtain ⟨hruled, hchildren⟩ := contentLoop_ruled hchild hclosers e hpushed
        (htagged.push e.key opener.start) hshort (Within.length_lt hpushed)
      rw [hcontent, hkey] at hruled hchildren
      rw [hnone, List.nil_append]
      refine .element (hrule rfl fun hvoid => ?_) hruled
      refine (hchildren hvoid).trans ?_
      generalize hfrom : fromEnd c.advance.ahead = from' at hends
      cases hends with
      | own ht hending =>
          -- With a token of its own the start tag would have ended the element.
          refine absurd ?_ hempty
          rw [hending]
          exact ht.symm.imp (congrArg some) fun ht => ⟨congrArg some ht, hvoid⟩
      | other hending hcursor htag =>
          rw [takesChildren_iff hafter (hfrom ▸ htag) hdepth, hfrom, ← hcursor]
          rfl

/-! ### Productions of markup -/

theorem Rules.choice_map {n : Nat} {f : Symbol → Production} {symbols : List Symbol}
    (h : ∀ s ∈ symbols, Rules input n (f s)) : Rules input n (choice (symbols.map f)) := by
  refine { Moves.choice_map fun s hs => (h s hs).toMoves with ruled := ?_ }
  intro c names node d hwithin hnames hn hchoice
  obtain ⟨p, hp, hresult⟩ := choice_eq_some hchoice
  obtain ⟨s, hs, rfl⟩ := List.mem_map.mp hp
  exact (h s hs).ruled hwithin hnames hn hresult

theorem rules_comment (n : Nat) : Rules input n comment := by
  refine { moves_comment with ruled := ?_ }
  intro c names node d _ _ _ h
  unfold comment at h
  split at h
  · exact absurd h (by simp)
  split at h
  · simp only [Option.some.injEq, Prod.mk.injEq] at h
    exact h.1 ▸ .leaf
  · exact absurd h (by simp)

theorem rules_text (n : Nat) : Rules input n (text input) := by
  refine { moves_text input with ruled := ?_ }
  intro c names node d _ _ _ h
  unfold text at h
  split at h
  · split at h
    · exact absurd h (by simp)
    split at h
    · simp only [Option.some.injEq, Prod.mk.injEq] at h
      exact h.1 ▸ .leaf
    · exact absurd h (by simp)
  · exact absurd h (by simp)

theorem rules_rawText (n : Nat) : Rules input n (rawText input) := by
  refine { moves_rawText input with ruled := ?_ }
  intro c names node d _ _ _ h
  unfold Markup.rawText at h
  split at h
  · exact absurd h (by simp)
  simp only at h
  split at h
  · simp only [Option.some.injEq, Prod.mk.injEq] at h
    exact h.1 ▸ .rawText
  split at h
  · simp only [Option.some.injEq, Prod.mk.injEq] at h
    exact h.1 ▸ .rawText
  · simp only [Option.some.injEq, Prod.mk.injEq] at h
    exact h.1 ▸ .rawText

theorem choice_isSome {ps : List Production} :
    (choice ps c).isSome = true ↔ ∃ p ∈ ps, (p c).isSome = true := by
  refine ⟨fun h => ?_, fun ⟨p, hp, hsome⟩ => ?_⟩
  · obtain ⟨found, hfound⟩ := Option.isSome_iff_exists.mp h
    obtain ⟨p, hp, hresult⟩ := choice_eq_some hfound
    exact ⟨p, hp, by rw [hresult]; rfl⟩
  · refine Option.isSome_iff_ne_none.mpr fun hnone => ?_
    rw [choice_eq_none.mp hnone p hp] at hsome
    exact absurd hsome (by simp)

theorem comment_isSome (hahead : c.ahead = t :: rest) :
    (comment c).isSome = true ↔ t.kind = .comment ∨ t.kind = .lineComment := by
  simp [comment, hahead]

theorem text_isSome (hahead : c.ahead = t :: rest) :
    (text input c).isSome = true
      ↔ input.rich = true ∧ (t.kind = .text ∨ t.kind = .entity) := by
  unfold text
  cases input.rich <;> simp [hahead]

theorem element_isSome {d : Dialect} {child expression : Production}
    (hahead : c.ahead = t :: rest) :
    (Parsing.element input d child expression c).isSome = true ↔ t.kind = .tagOpen := by
  unfold Parsing.element
  by_cases hopen : t.kind = .tagOpen
  · simp only [acceptKind?_of_eq hahead hopen, hopen, iff_true]
    split
    · rfl
    split <;> rfl
  · simp [acceptKind?_of_ne hahead hopen, hopen]

theorem rawText_isSome (hahead : c.ahead = t :: rest) :
    (rawText input c).isSome = true ↔ t.kind = .rawText := by
  unfold rawText
  by_cases hraw : t.kind = .rawText
  · simp only [acceptKind?_of_eq hahead hraw, hraw, iff_true]
    split
    · rfl
    split <;> rfl
  · simp [acceptKind?_of_ne hahead hraw, hraw]

/-- What may stand in an element is read just where it begins.  An outline has no text among its
tokens. -/
theorem begins_children
    (htext : ∀ t ∈ input.tokens, t.kind = .text ∨ t.kind = .entity → input.rich = true)
    (height : Nat) (hwithin : c.Within input.tokens) (hahead : c.ahead = t :: rest) :
    (choice (Symbol.children.map (readWithin input (height + 1))) c).isSome = true
      ↔ beginsChild t.kind = true := by
  have hrich := htext t (hwithin.mem hahead)
  simp only [choice_isSome, Symbol.children, List.map_cons, List.map_nil, List.mem_cons,
    List.not_mem_nil, or_false, exists_eq_or_imp, exists_eq_left, readWithin, derive,
    comment_isSome hahead, text_isSome hahead, element_isSome hahead, rawText_isSome hahead]
  rw [and_iff_right_of_imp hrich]
  cases t.kind <;> decide

/-- Whatever stands outside of raw text is as it should be. -/
theorem rules_readWithin
    (hclosers : ∀ t ∈ input.tokens, t.kind.isCloser = true → t.kind = .tagClose)
    (htext : ∀ t ∈ input.tokens, t.kind = .text ∨ t.kind = .entity → input.rich = true)
    (height : Nat) (s : Symbol) (hs : s ≠ .document) :
    Rules input height (readWithin input height s) := by
  induction height generalizing s with
  | zero => exact { moves_nothing with ruled := fun _ _ _ h => absurd h (by simp [readWithin]) }
  | succ height ih =>
      have hchild : RulesContent input height
          (choice (Symbol.children.map (readWithin input height))) := by
        refine { Rules.choice_map fun s hs => ih s (ne_of_mem_of_not_mem hs (by decide)) with
          begins := ?_ }
        intro c t rest hwithin hahead hn
        obtain ⟨height, rfl⟩ := Nat.exists_eq_add_one_of_ne_zero (Nat.ne_zero_of_lt hn)
        exact begins_children htext height hwithin hahead
      cases s with
      | document => exact absurd rfl hs
      | comment => exact rules_comment _
      | element => exact rules_element hchild hclosers
      | text => exact rules_text _
      | rawText => exact rules_rawText _

theorem itemsLoop_ruled {n : Nat} {item : Production} (hitem : Rules input n item)
    {closer : Option TokenKind} (turns : Nat) (hwithin : c.Within input.tokens)
    (hnames : InElements c names) (hn : c.ahead.length < n) :
    Ruled input.tokens names (itemsLoop item closer turns c).nodes := by
  have hrun := itemsRun item closer turns c
  generalize itemsLoop item closer turns c = found at hrun
  induction hrun with
  | spent | ended | closed | awaited => exact .nil
  | @stray _ c _ _ _ _ hahead _ _ hrecover _ ih =>
      have hleads := (leads_skipTrivia c).trans (steps_of_recover? hahead hrecover).leads
      have hlen := hleads.length_le
      exact ih (hwithin.passes hleads.passes) (hnames.leads hleads) (by omega)
  | @node _ c _ _ _ _ _ _ _ _ hnode _ ih =>
      have hskip := leads_skipTrivia c
      have hleads := hskip.trans (hitem.steps hnode).leads
      have hshort := hskip.length_le
      have hlen := hleads.length_le
      exact (hitem.ruled (hwithin.passes hskip.passes) (hnames.leads hskip) (by omega) hnode).cons
        (ih (hwithin.passes hleads.passes) (hnames.leads hleads) (by omega))
  | @filler _ c _ _ _ _ _ _ _ _ ih =>
      have hleads := (leads_skipTrivia c).trans (leads_advance _)
      have hlen := hleads.length_le
      exact ih (hwithin.passes hleads.passes) (hnames.leads hleads) (by omega)

theorem parse_ruled
    (hclosers : ∀ t ∈ input.tokens, t.kind.isCloser = true → t.kind = .tagClose)
    (htext : ∀ t ∈ input.tokens, t.kind = .text ∨ t.kind = .entity → input.rich = true) :
    Ruled input.tokens [] [(grammar.parse input).tree] := by
  rw [parse_eq]
  refine .document (itemsLoop_ruled (n := 3 * input.bound) ?_ input.bound rfl rfl ?_)
  · exact Rules.choice_map fun s hs =>
      rules_readWithin hclosers htext _ s (ne_of_mem_of_not_mem hs (by decide))
  · show input.tokens.length < 3 * (input.tokens.length + 1)
    omega

/-! ### Passes -/

/-- No other token than that of an end tag closes anything. -/
theorem lex_closers (detail : Detail) (embed : Bool) (source : List Char) (start : Nat)
    (stop : Option Nat) :
    ∀ t ∈ (lex detail embed source start stop).tokens, t.kind.isCloser = true →
      t.kind = .tagClose :=
  fun t ht hcloser =>
    (run_closers _ _ _ _ t ((Lexing.keep_sublist _ detail).subset ht) hcloser).1

end Markup

/-- **When a void element of markup has children.**  Its start tag is among the tokens, and there
are children just when another tag cuts the start tag short, the nesting limit is not
reached, and something stands there before an end tag of an open element. -/
theorem Language.void_children_iff (config : Config) (detail : Detail) (source : List Char) :
    let pass := markup.pass config detail source
    ∀ around start stop info attributes children,
      Node.StandsIn (.element start stop info attributes children) around [] [pass.parse.tree] →
      Markup.voidElements.contains info.name = true →
      ∃ before t after, pass.lexing.tokens = before ++ t :: after ∧ t.kind = .tagOpen
        ∧ t.start = start ∧ Text.lower (Parsing.tagName t) = info.name
        ∧ (children ≠ [] ↔ Markup.TakesChildren info.name around after) := by
  intro pass around start stop info attributes children hin hvoid
  have htext : ∀ t ∈ pass.lexing.tokens, t.kind = .text ∨ t.kind = .entity →
      (markup.input config detail source).rich = true := by
    intro t ht hkind
    cases detail with
    | rich => rfl
    | structural =>
        have hstructural := isStructural_of_lex config.embeddedLanguages source 0 none markup t ht
        rcases hkind with hkind | hkind <;> rw [hkind] at hstructural <;>
          exact absurd hstructural (by decide)
  have hclosers := Markup.lex_closers detail config.embeddedLanguages source 0 none
  rw [← lex_markup] at hclosers
  have hruled : Markup.Ruled (markup.input config detail source).tokens [] [pass.parse.tree] :=
    Markup.parse_ruled hclosers htext
  exact hruled around _ hin start stop info attributes children rfl hvoid

/-- A paragraph stands in the line break whose start tag it cuts short. -/
theorem Language.void_children_of_cut_tag :
    let pass := markup.pass {} .rich "<br <p>x</p>".toList
    let paragraph : Node := .element 4 12 { name := "p" } [] [.leaf 7 8 .text]
    Node.StandsIn (.element 0 12 { name := "br", closed := false } [] [paragraph]) [] []
        [pass.parse.tree]
      ∧ Markup.voidElements.contains "br" = true
      ∧ ∃ before t after, pass.lexing.tokens = before ++ t :: after ∧ t.kind = .tagOpen
        ∧ t.start = 0 ∧ Text.lower (Parsing.tagName t) = "br"
        ∧ Markup.TakesChildren "br" [] after := by
  intro pass paragraph
  have htree : pass.parse.tree = .container 0 12 .document
      [.element 0 12 { name := "br", closed := false } [] [paragraph]] := by decide +kernel
  have hin : Node.StandsIn (.element 0 12 { name := "br", closed := false } [] [paragraph]) [] []
      [pass.parse.tree] := by
    rw [htree]
    exact .container List.mem_cons_self (by simp) (.here List.mem_cons_self)
  have hvoid : Markup.voidElements.contains "br" = true := by decide
  obtain ⟨before, t, after, hplace, hopen, hstart, hname, hchildren⟩ :=
    Language.void_children_iff {} .rich "<br <p>x</p>".toList [] 0 12
      { name := "br", closed := false } [] [paragraph] hin hvoid
  exact ⟨hin, hvoid, before, t, after, hplace, hopen, hstart, hname, hchildren.mp (by simp)⟩

end SourceView
