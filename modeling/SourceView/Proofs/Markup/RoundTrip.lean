/-
Markup that is printed is parsed back.

The parser is followed over the tokens of what was printed, element by element: past the
start tag, past the children, past the end tag, and no further.  What comes after an element
is left free, so one statement serves for every element, whatever stands around it; it comes
by induction on the element, together with that for the content of one.

An element needs room among the open containers for itself and what is inside of it, and
levels of the grammar for as many; the limit of the parser is the only bound on the forest.
-/
import SourceView.Proofs.Markup.Printing
import SourceView.Proofs.Parsing.Nesting
import SourceView.Proofs.Parsing.Printed

namespace SourceView.Markup

open Piece
open Parsing Parsing.Cursor

variable {input : Input} {c : Cursor} {pos height turns : Nat} {rest : List Token}

/-! ### Tags -/

/-- The quotes around a value are taken off, whatever is inside. -/
theorem unquote_value (value : List Char) :
    unquote (String.ofList ('"' :: (value ++ ['"']))) = String.ofList value := by
  simp [unquote]

theorem tagName_opener (n : TagName) (pos : Nat) : tagName (n.opener.token pos) = n.text := by
  simp [tagName, textFrom, TagName.opener, Piece.token]

theorem tagName_closer (n : TagName) (pos : Nat) : tagName (n.closer.token pos) = n.text := by
  simp [tagName, textFrom, TagName.closer, Piece.token]

/-- The attribute of the tokens that an attribute is printed as. -/
theorem Attribute.read_eq (a : Attribute) (style style' : String) (pos : Nat) :
    let name := Piece.token ⟨.attributeName, style, a.name.toList⟩ (pos + 1)
    let value := Piece.token ⟨.attributeValue, style', '"' :: (a.value.toList ++ ['"'])⟩
      (pos + 1 + a.name.toList.length + 1)
    Node.leaf name.start value.stop
        (.attribute (Dialect.markup.name name.value) (some (unquote value.value)))
      = a.node pos := by
  intro name value
  have hname : Dialect.markup.name name.value = a.name := by
    show Text.lower (String.ofList a.name.toList) = a.name
    rw [String.ofList_toList, a.lowered]
  have hvalue : unquote value.value = a.value := by
    show unquote (String.ofList ('"' :: (a.value.toList ++ ['"']))) = a.value
    rw [unquote_value, String.ofList_toList]
  have hstop : value.stop = (pos + a.print.length : Nat) := by
    simp only [value, Piece.token, Attribute.print, List.length_cons, List.length_append,
      List.length_nil]
    omega
  rw [hname, hvalue, hstop]
  rfl

theorem startTagLoop_attributes (expression : Production) (as : List Attribute) {t : Token}
    (ht : t.kind = .tagEnd)
    (hahead : c.ahead = tokens pos (as.flatMap Attribute.pieces) ++ t :: rest)
    (hturns : as.length < turns) :
    startTagLoop input .markup expression turns c
      = ⟨some .tagEnd, Attribute.nodes pos as, [],
        c.past (tokens pos (as.flatMap Attribute.pieces) ++ [t]) rest⟩ := by
  induction as generalizing c pos turns with
  | nil =>
      obtain ⟨turns, rfl⟩ := Nat.exists_eq_add_one_of_ne_zero (Nat.ne_of_gt hturns)
      exact startTagLoop_end hahead ht
  | cons a as ih =>
      obtain ⟨turns, rfl⟩ := Nat.exists_eq_add_one_of_ne_zero (Nat.ne_of_gt (Nat.zero_lt_of_lt hturns))
      rw [List.flatMap_cons, tokens_append, a.spell_pieces, List.append_assoc] at hahead
      have hmore := ih (c := c.past (tokens pos a.pieces)
        (tokens (pos + a.print.length) (as.flatMap Attribute.pieces) ++ t :: rest)) rfl
        (Nat.lt_of_succ_lt_succ hturns)
      rw [past_past] at hmore
      have hread := startTagLoop_attribute hahead rfl rfl rfl rfl hmore
      rw [List.flatMap_cons, tokens_append, a.spell_pieces, List.append_assoc, Attribute.nodes,
        ← a.read_eq]
      exact hread

/-- The tokens of a start tag: what opens it, the attributes and the bracket. -/
theorem TagName.tokens_startPieces (n : TagName) (ps : List Piece) (pos : Nat) :
    tokens pos (n.startPieces ps) = n.opener.token pos ::
      (tokens (pos + n.opener.text.length) ps
        ++ [bracket.token (pos + n.opener.text.length + (spell ps).length)]) := by
  rw [startPieces, Piece.tokens, tokens_append]
  rfl

/-- The parser reads a start tag with its attributes, and stops behind its bracket. -/
theorem startTagLoop_start (input : Input) (expression : Production) (n : TagName)
    (as : List Attribute)
    (hahead : c.ahead = tokens pos (n.startPieces (as.flatMap Attribute.pieces)) ++ rest)
    (hbound : c.ahead.length < turns) :
    ∃ more, c.ahead = n.opener.token pos :: more
      ∧ startTagLoop input .markup expression turns (c.past [n.opener.token pos] more)
        = ⟨some .tagEnd, Attribute.nodes (pos + n.opener.text.length) as, [],
          c.past (tokens pos (n.startPieces (as.flatMap Attribute.pieces))) rest⟩ := by
  rw [n.tokens_startPieces, List.cons_append, List.append_assoc] at hahead
  have hturns : as.length < turns := by
    have has := Attribute.length_le as
    simp only [hahead, List.length_append, List.length_cons, length_tokens] at hbound
    omega
  refine ⟨_, hahead, ?_⟩
  rw [List.singleton_append, startTagLoop_attributes expression as rfl rfl hturns, past_past,
    n.tokens_startPieces]
  rfl

/-! ### Elements -/

/-- The parser reads the element wherever it is printed, and stops behind it. -/
def Element.Parsed (input : Input) (e : Element) : Prop :=
  ∀ {height pos : Nat} {c : Cursor} {rest : List Token}, Room input e.depth c → e.depth ≤ height →
    c.ahead = tokens pos e.pieces ++ rest →
    readWithin input height .element c = some (e.node pos, c.past (tokens pos e.pieces) rest)

/-- At its start tag a choice that tries comments and then elements reads the element. -/
theorem choice_parsed {e : Element} (h : e.Parsed input) (hroom : Room input e.depth c)
    (hheight : e.depth ≤ height)
    (hahead : c.ahead = tokens pos e.pieces ++ rest) {symbols : List Symbol}
    (hsymbols : [.comment, .element] <+: symbols) :
    ∃ t ts, c.ahead = t :: ts ∧ t.kind = .tagOpen
      ∧ choice (symbols.map (readWithin input height)) c
        = some (e.node pos, c.past (tokens pos e.pieces) rest) := by
  obtain ⟨others, rfl⟩ := hsymbols
  obtain ⟨t, ts, hfirst, ht⟩ : ∃ t ts, c.ahead = t :: ts ∧ t.kind = .tagOpen := by
    cases e with
    | mk name attributes children => exact ⟨_, _, hahead, rfl⟩
  have hcomment : readWithin input height .comment c = none := by
    cases height with
    | zero => rfl
    | succ height =>
        show comment c = none
        simp [comment, hfirst, ht]
  refine ⟨t, ts, hfirst, ht, ?_⟩
  simp only [List.cons_append, List.map_cons, choice, hcomment, h hroom hheight hahead]

/-- The content of an element, up to its end tag. -/
theorem contentLoop_parsed (himplied : input.config.impliedEndTags = false) {es : List Element}
    (hes : ∀ e ∈ es, e.Parsed input) (n : TagName) {o : OpenElement} (hkey : o.key = n.text)
    (hroom : Room input (depthAll es) c) (hheight : depthAll es ≤ height)
    (hahead : c.ahead = tokens pos (piecesAll es ++ n.endPieces) ++ rest) (hturns : es.length < turns) :
    contentLoop input .markup (choice (Symbol.children.map (readWithin input height))) o turns c
      = ⟨nodes pos es, true, (pos + (printAll es ++ n.endTag).length : Nat),
        c.past (tokens pos (piecesAll es ++ n.endPieces)) rest⟩ := by
  induction es generalizing c pos turns with
  | nil =>
      obtain ⟨turns, rfl⟩ := Nat.exists_eq_add_one_of_ne_zero (Nat.ne_of_gt hturns)
      have hstop : (bracket.token (pos + n.closer.text.length)).stop
          = (pos + (printAll [] ++ n.endTag).length : Nat) := by
        simp only [Piece.token, bracket, TagName.closer, TagName.endTag, printAll, List.nil_append,
          List.length_cons, List.length_append, List.length_nil]
        omega
      have hlower : Text.lower (tagName (n.closer.token pos)) = o.key := by
        rw [tagName_closer, n.lowered, hkey]
      rw [contentLoop_end hahead rfl hlower rfl, hstop]
      rfl
  | cons e es ih =>
      obtain ⟨turns, rfl⟩ := Nat.exists_eq_add_one_of_ne_zero (Nat.ne_of_gt (Nat.zero_lt_of_lt hturns))
      have hsplit : tokens pos (piecesAll (e :: es) ++ n.endPieces)
          = tokens pos e.pieces ++ tokens (pos + e.print.length) (piecesAll es ++ n.endPieces) := by
        rw [piecesAll, List.append_assoc, tokens_append, e.spell_pieces]
      rw [hsplit, List.append_assoc] at hahead
      obtain ⟨t, ts, hfirst, ht, hread⟩ :=
        choice_parsed (hes e List.mem_cons_self) (hroom.mono (Nat.le_max_left ..))
          (Nat.le_trans (Nat.le_max_left ..) hheight) hahead
          (show _ <+: Symbol.children from ⟨_, rfl⟩)
      have hmore := ih (fun e he => hes e (List.mem_cons_of_mem _ he))
        ((hroom.mono (Nat.le_max_right ..)).past hahead) (Nat.le_trans (Nat.le_max_right ..) hheight) rfl
        (Nat.lt_of_succ_lt_succ hturns)
      rw [contentLoop_child hfirst ht (by simp [Dialect.implies, himplied])
        hread hmore, past_past, hsplit, nodes, printAll]
      simp only [List.append_assoc, List.length_append, Nat.add_assoc]

/-- The items of a document, up to its end. -/
theorem itemsLoop_parsed {es : List Element} (hes : ∀ e ∈ es, e.Parsed input)
    (hroom : Room input (depthAll es) c) (hheight : depthAll es ≤ height)
    (hahead : c.ahead = tokens pos (piecesAll es)) (hturns : es.length < turns) :
    itemsLoop (choice (Symbol.outer.map (readWithin input height))) none turns c
      = ⟨nodes pos es, none, c.past (tokens pos (piecesAll es)) []⟩ := by
  induction es generalizing c pos turns with
  | nil =>
      obtain ⟨turns, rfl⟩ := Nat.exists_eq_add_one_of_ne_zero (Nat.ne_of_gt hturns)
      have hpast : c.past [] [] = c := past_nil hahead
      rw [itemsLoop_nil hahead, piecesAll, nodes, Piece.tokens, hpast]
  | cons e es ih =>
      obtain ⟨turns, rfl⟩ := Nat.exists_eq_add_one_of_ne_zero (Nat.ne_of_gt (Nat.zero_lt_of_lt hturns))
      have hsplit : tokens pos (piecesAll (e :: es))
          = tokens pos e.pieces ++ tokens (pos + e.print.length) (piecesAll es) := by
        rw [piecesAll, tokens_append, e.spell_pieces]
      rw [hsplit] at hahead
      obtain ⟨t, ts, hfirst, ht, hread⟩ :=
        choice_parsed (hes e List.mem_cons_self) (hroom.mono (Nat.le_max_left ..))
          (Nat.le_trans (Nat.le_max_left ..) hheight) hahead
          (show _ <+: Symbol.outer from ⟨_, rfl⟩)
      have hmore := ih (fun e he => hes e (List.mem_cons_of_mem _ he))
        ((hroom.mono (Nat.le_max_right ..)).past hahead) (Nat.le_trans (Nat.le_max_right ..) hheight) rfl
        (Nat.lt_of_succ_lt_succ hturns)
      rw [itemsLoop_item hfirst (by rw [ht]; rfl) (by simp) (by rw [ht]; rfl)
        hread, hmore, past_past, hsplit, nodes]

theorem Element.parsed_of_children (himplied : input.config.impliedEndTags = false) (n : TagName)
    (as : List Attribute) {es : List Element} (hes : ∀ e ∈ es, e.Parsed input) :
    (Element.mk n as es).Parsed input := by
  intro height pos c rest hroom hheight hahead
  obtain ⟨height, rfl⟩ :=
    Nat.exists_eq_add_one_of_ne_zero (Nat.ne_of_gt (Nat.lt_of_lt_of_le (Nat.succ_pos _) hheight))
  have hsplit : tokens pos (Element.mk n as es).pieces
      = tokens pos (n.startPieces (as.flatMap Attribute.pieces))
        ++ tokens (pos + (n.startTag (as.flatMap Attribute.print)).length)
          (piecesAll es ++ n.endPieces) := by
    rw [Element.pieces, List.append_assoc, tokens_append, n.spell_startPieces,
      Attribute.spell_flatMap]
  rw [hsplit, List.append_assoc] at hahead
  obtain ⟨more, hfirst, htag⟩ :=
    startTagLoop_start input (choice []) n as hahead hroom.turns
  have hroom' := hroom.past hahead
  rw [Element.depth] at hroom'
  have hlower : Text.lower (tagName (n.opener.token pos)) = n.text := by
    rw [tagName_opener, n.lowered]
  have hvoid : Dialect.markup.voidElements.contains (Text.lower (tagName (n.opener.token pos)))
      = false := by
    rw [hlower]
    exact n.hasContent
  have hturns : es.length < input.bound := by
    have hes := length_le_piecesAll es
    have hbound := hroom'.turns
    simp only [past, List.length_append, length_tokens] at hbound
    omega
  have hread : element input .markup (choice (Symbol.children.map (readWithin input height))) (choice [])
      c = _ :=
    element_open hfirst rfl htag hvoid hroom'.tooDeep fun o hkey =>
      contentLoop_parsed himplied hes n (hkey.trans hlower) (hroom'.push _)
        (Nat.le_of_succ_le_succ hheight) rfl hturns
  rw [closeTo_push_past, past_past, ← hsplit, Nat.add_assoc, ← List.length_append,
    ← List.append_assoc] at hread
  have hname : Dialect.markup.name (tagName (n.opener.token pos)) = n.text := hlower
  rw [hname] at hread
  rw [Element.node, Element.print]
  exact hread

mutual

theorem Element.parsed (himplied : input.config.impliedEndTags = false) :
    ∀ e : Element, e.Parsed input
  | .mk name attributes children =>
    Element.parsed_of_children himplied name attributes (parsed_all himplied children)

theorem parsed_all (himplied : input.config.impliedEndTags = false) :
    ∀ es : List Element, ∀ e ∈ es, e.Parsed input
  | [] => fun _ he => absurd he List.not_mem_nil
  | first :: others =>
    List.forall_mem_cons.mpr ⟨Element.parsed himplied first, parsed_all himplied others⟩

end

/-- Elements that the limit of the parser allows are what a document holds. -/
theorem parse_parsed (himplied : input.config.impliedEndTags = false) {es : List Element}
    (hdepth : depthAll es ≤ maxDepth) (htokens : input.tokens = tokens 0 (piecesAll es)) :
    (grammar.parse input).faults = []
      ∧ (grammar.parse input).tree = .container input.start input.stop .document (nodes 0 es) := by
  have hlength : input.tokens.length = (piecesAll es).length := by rw [htokens, length_tokens]
  have hlevels := depthAll_le es
  have hturns := length_le_piecesAll es
  have hbound : input.bound = (piecesAll es).length + 1 := by rw [Input.bound, hlength]
  have hitems := itemsLoop_parsed (parsed_all himplied es) (Room.start hdepth)
    (show depthAll es ≤ 3 * input.bound by omega) htokens (show es.length < input.bound by omega)
  rw [parse_eq, items, hitems]
  exact ⟨rfl, rfl⟩

/-- **Markup that is printed is parsed back.**  Of elements at most 64 deep inside each other,
printed with nothing between them, the full analysis finds the elements again: with their names,
attributes and values in order, each closed and each over the text that it was printed as, and
nothing is wrong. -/
theorem analyze_printAll (config : Config) (himplied : config.impliedEndTags = false)
    (es : List Element) (hdepth : depthAll es ≤ 64) :
    let analysis := Language.markup.analyze config (String.ofList (printAll es))
    analysis.diagnostics = []
      ∧ analysis.tree = .container 0 (printAll es).length .document (nodes 0 es) := by
  have hlex := lex_printAll config.embeddedLanguages es
  rw [← Language.lex_markup] at hlex
  exact Language.markup.analyze_printed hlex (parse_parsed himplied hdepth rfl)

/-- A list with a link in it whose address and title have brackets, a line break and an
apostrophe. -/
def linkList : List Element :=
  let item := TagName.ofAscii "li" (by decide) (by decide) (by decide) (by decide)
  let link := TagName.ofAscii "x-link" (by decide) (by decide) (by decide) (by decide)
  let address : Attribute := ⟨"href", "a>b/<c", by decide, by decide, by decide, by decide⟩
  let title : Attribute := ⟨"title", "it's\nnew", by decide, by decide, by decide, by decide⟩
  [.mk item [] [.mk link [address, title] [], .mk link [] []], .mk item [title] []]

example : String.ofList (printAll linkList)
    = "<li><x-link href=\"a>b/<c\" title=\"it's\nnew\"></x-link><x-link></x-link></li>"
      ++ "<li title=\"it's\nnew\"></li>" := by
  decide

/-- Of two items and two links the analysis makes elements that are closed, with the values as they
were. -/
theorem analyze_printAll_of_linkList :
    let config : Config := { impliedEndTags := false }
    let analysis := Language.markup.analyze config (String.ofList (printAll linkList))
    config.impliedEndTags = false ∧ depthAll linkList ≤ 64 ∧ analysis.diagnostics = []
      ∧ analysis.tree = .container 0 (printAll linkList).length .document (nodes 0 linkList) := by
  intro config analysis
  have hdepth : depthAll linkList ≤ 64 := by decide
  obtain ⟨hdiagnostics, htree⟩ := analyze_printAll config rfl linkList hdepth
  exact ⟨rfl, hdepth, hdiagnostics, htree⟩

end SourceView.Markup
