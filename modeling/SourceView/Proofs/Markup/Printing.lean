/-
Markup as it is printed, and how the lexer reads it.

A forest of elements is printed without anything between the tags, each attribute with its
value in double quotes.  The lexer takes what is printed for the pieces that it is printed
from: a name ends at the space, equals sign or bracket after it, and a value at its closing
quote, whatever brackets and line breaks are inside.  It goes from content through a start
tag and back to content, so what is read of one element does not depend on those around it.
-/
import SourceView.Proofs.Markup.Ahead
import SourceView.Proofs.Lexing.Pieces
import SourceView.Tree.Node

namespace SourceView.Markup

open Lexing Piece

/-! ### What is printed -/

/-- The name of an element that has content, and markup for its content. -/
structure TagName where
  text : String
  starts : startsName text.toList = true
  chars : text.toList.all isNameChar = true
  lowered : Text.lower text = text
  hasContent : voidElements.contains text = false
  hasMarkup : rawTextElements.contains text = false

/-- An attribute with a value. -/
structure Attribute where
  name : String
  value : String
  nonempty : name ≠ ""
  chars : name.toList.all (!isAttributeStop ·) = true
  lowered : Text.lower name = name
  unquoted : '"' ∉ value.toList

/-- An element with its attributes and the elements inside it. -/
inductive Element where
  | mk (name : TagName) (attributes : List Attribute) (children : List Element)

/-- The bracket at the end of a tag. -/
def bracket : Piece :=
  ⟨.tagEnd, "tag", ['>']⟩

namespace TagName

/-- What opens the start tag of that name. -/
def opener (n : TagName) : Piece :=
  ⟨.tagOpen, tagStyle n.text, '<' :: n.text.toList⟩

/-- What opens the end tag of that name. -/
def closer (n : TagName) : Piece :=
  ⟨.tagClose, tagStyle n.text, '<' :: '/' :: n.text.toList⟩

/-- The start tag, with attributes as they are printed. -/
def startTag (n : TagName) (attributes : List Char) : List Char :=
  '<' :: n.text.toList ++ attributes ++ ['>']

/-- The end tag. -/
def endTag (n : TagName) : List Char :=
  '<' :: '/' :: n.text.toList ++ ['>']

/-- The pieces of the start tag. -/
def startPieces (n : TagName) (attributes : List Piece) : List Piece :=
  n.opener :: (attributes ++ [bracket])

/-- The pieces of the end tag. -/
def endPieces (n : TagName) : List Piece :=
  [n.closer, bracket]

end TagName

namespace Attribute

/-- An attribute as it is printed after the name of the tag. -/
def print (a : Attribute) : List Char :=
  ' ' :: a.name.toList ++ '=' :: '"' :: a.value.toList ++ ['"']

/-- The pieces of an attribute. -/
def pieces (a : Attribute) : List Piece :=
  [⟨.whitespace, "space", [' ']⟩,
    ⟨.attributeName, if isKnownAttribute a.name then "attribute" else "attribute-unknown",
      a.name.toList⟩,
    ⟨.equals, "punctuation", ['=']⟩,
    ⟨.attributeValue, "attribute-value", '"' :: (a.value.toList ++ ['"'])⟩]

/-- The node of an attribute that is printed at offset `pos`, without the space before it. -/
def node (pos : Nat) (a : Attribute) : Node :=
  .leaf (pos + 1 : Nat) (pos + a.print.length : Nat) (.attribute a.name (some a.value))

/-- The nodes of attributes that are printed one after another. -/
def nodes (pos : Nat) : List Attribute → List Node
  | [] => []
  | a :: as => a.node pos :: nodes (pos + a.print.length) as

end Attribute

mutual

/-- An element as it is printed. -/
def Element.print : Element → List Char
  | .mk name attributes children =>
    name.startTag (attributes.flatMap Attribute.print) ++ printAll children ++ name.endTag

/-- Elements as they are printed, with nothing between them. -/
def printAll : List Element → List Char
  | [] => []
  | e :: es => e.print ++ printAll es

end

mutual

/-- The pieces of an element. -/
def Element.pieces : Element → List Piece
  | .mk name attributes children =>
    name.startPieces (attributes.flatMap Attribute.pieces) ++ piecesAll children ++ name.endPieces

/-- The pieces of elements. -/
def piecesAll : List Element → List Piece
  | [] => []
  | e :: es => e.pieces ++ piecesAll es

end

mutual

/-- The node of an element that is printed at offset `pos`. -/
def Element.node (pos : Nat) : Element → Node
  | .mk name attributes children =>
    .element pos (pos + (Element.mk name attributes children).print.length : Nat)
      { name := name.text }
      (Attribute.nodes (pos + name.opener.text.length) attributes)
      (nodes (pos + (name.startTag (attributes.flatMap Attribute.print)).length) children)

/-- The nodes of elements that are printed one after another. -/
def nodes (pos : Nat) : List Element → List Node
  | [] => []
  | e :: es => e.node pos :: nodes (pos + e.print.length) es

end

mutual

/-- How many elements stand inside each other. -/
def Element.depth : Element → Nat
  | .mk _ _ children => depthAll children + 1

/-- How many elements stand inside each other among some. -/
def depthAll : List Element → Nat
  | [] => 0
  | e :: es => max e.depth (depthAll es)

end

/-- Text of ASCII without capital letters is its own lower case. -/
theorem lowerFrom_of_ascii {cs : List Char} (hcs : ∀ c ∈ cs, c.toNat < 128 ∧ c.isUpper = false)
    (cased : Bool) : Text.lowerFrom cased cs = cs := by
  induction cs generalizing cased with
  | nil => rfl
  | cons c cs ih =>
      obtain ⟨hascii, hupper⟩ := hcs c List.mem_cons_self
      have hchar : Text.lowerChar c = [c] := by
        have hlower : c.toLower = c := dif_neg (of_decide_eq_false hupper)
        rw [Text.lowerChar, if_pos hascii, hlower]
      rw [Text.lowerFrom, if_neg (by omega), hchar, ih fun d hd => hcs d (List.mem_cons_of_mem c hd)]
      rfl

/-- A name of ASCII without capital letters. -/
def TagName.ofAscii (text : String) (starts : startsName text.toList = true)
    (chars : text.toList.all (fun c => isNameChar c && c.toNat < 128 && !c.isUpper) = true)
    (hasContent : voidElements.contains text = false)
    (hasMarkup : rawTextElements.contains text = false) : TagName where
  text := text
  starts := starts
  chars := by
    rw [List.all_eq_true] at chars ⊢
    intro c hc
    have hchar := chars c hc
    simp only [Bool.and_eq_true] at hchar
    exact hchar.1.1
  lowered := by
    have hascii : ∀ c ∈ text.toList, c.toNat < 128 ∧ c.isUpper = false := by
      intro c hc
      have hchar := List.all_eq_true.mp chars c hc
      simp only [Bool.and_eq_true, decide_eq_true_eq, Bool.not_eq_true'] at hchar
      exact ⟨hchar.1.2, hchar.2⟩
    rw [Text.lower, Text.lowerChars, lowerFrom_of_ascii hascii, String.ofList_toList]
  hasContent := hasContent
  hasMarkup := hasMarkup

theorem Attribute.isAttributeStop_of_mem (a : Attribute) {c : Char} (hc : c ∈ a.name.toList) :
    isAttributeStop c = false := by
  have hchar := List.all_eq_true.mp a.chars c hc
  exact (Bool.not_eq_true' _).mp hchar

/-! ### Pieces -/

theorem Attribute.spell_pieces (a : Attribute) : spell a.pieces = a.print := by
  simp [Attribute.pieces, Attribute.print]

theorem Attribute.spell_flatMap (as : List Attribute) :
    spell (as.flatMap Attribute.pieces) = as.flatMap Attribute.print := by
  induction as with
  | nil => rfl
  | cons a as ih =>
      rw [List.flatMap_cons, List.flatMap_cons, spell_append, ih, a.spell_pieces]

theorem TagName.spell_endPieces (n : TagName) : spell n.endPieces = n.endTag := by
  simp [endPieces, closer, bracket, endTag]

theorem TagName.spell_startPieces (n : TagName) (attributes : List Piece) :
    spell (n.startPieces attributes) = n.startTag (spell attributes) := by
  simp [startPieces, opener, bracket, startTag]

mutual

theorem Element.spell_pieces : ∀ e : Element, spell e.pieces = e.print
  | .mk name attributes children => by
    rw [Element.pieces, Element.print, spell_append, spell_append, name.spell_startPieces,
      name.spell_endPieces, Attribute.spell_flatMap, spell_piecesAll children]

theorem spell_piecesAll : ∀ es : List Element, spell (piecesAll es) = printAll es
  | [] => rfl
  | e :: es => by rw [piecesAll, printAll, spell_append, e.spell_pieces, spell_piecesAll es]

end

mutual

/-- Every level of nesting has pieces of its own. -/
theorem Element.depth_le : ∀ e : Element, e.depth ≤ e.pieces.length
  | .mk name attributes children => by
    have hchildren := depthAll_le children
    simp only [Element.depth, Element.pieces, TagName.startPieces, List.length_append,
      List.length_cons]
    omega

theorem depthAll_le : ∀ es : List Element, depthAll es ≤ (piecesAll es).length
  | [] => Nat.le_refl 0
  | e :: es => by
    have hfirst := e.depth_le
    have hothers := depthAll_le es
    simp only [depthAll, piecesAll, List.length_append]
    omega

end

theorem Attribute.length_le (as : List Attribute) :
    as.length ≤ (as.flatMap Attribute.pieces).length := by
  induction as with
  | nil => exact Nat.le_refl 0
  | cons a as ih =>
      simp only [List.flatMap_cons, List.length_append, List.length_cons, Attribute.pieces,
        List.length_nil]
      omega

theorem length_le_piecesAll (es : List Element) : es.length ≤ (piecesAll es).length := by
  induction es with
  | nil => exact Nat.le_refl 0
  | cons e es ih =>
      have hfirst : 0 < e.pieces.length := by
        cases e with
        | mk name attributes children => simp [Element.pieces, TagName.startPieces]
      simp only [piecesAll, List.length_append, List.length_cons]
      omega

/-! ### What the lexer reads -/

/-- The first quote is the one that closes a value without quotes in it. -/
theorem findIndex?_quote {value : List Char} (hvalue : '"' ∉ value) (rest : List Char) :
    Text.findIndex? ['"'] (value ++ '"' :: rest) = some value.length := by
  induction value with
  | nil => rfl
  | cons c value ih =>
      have hc : ('"' == c) = false := beq_false_of_ne fun h => hvalue (h ▸ List.mem_cons_self)
      rw [List.cons_append, Text.findIndex?, ih fun h => hvalue (List.mem_cons_of_mem c h)]
      simp [List.isPrefixOf, hc]

/-- A character that is no stop of an attribute's name is none of those that end or divide
attributes. -/
theorem not_isAttributeStop {c : Char} (h : isAttributeStop c = false) :
    (c ≠ '=' ∧ c ≠ '>' ∧ c ≠ '/' ∧ c ≠ '<' ∧ c ≠ '"' ∧ c ≠ '\'') ∧ isWhitespace c = false := by
  simp only [isAttributeStop, Bool.or_eq_false_iff, List.contains_eq_mem, decide_eq_false_iff_not,
    List.mem_cons, not_or] at h
  obtain ⟨⟨h1, h2, h3, h4, h5, h6, -⟩, hblank⟩ := h
  exact ⟨⟨h1, h2, h3, h4, h5, h6⟩, hblank⟩

theorem whitespace?_of_not {c : Char} (h : isWhitespace c = false) (rest : List Char) :
    whitespace? (c :: rest) = none := by
  simp only [isWhitespace, isLineBreak, Bool.or_eq_false_iff] at h
  simp [whitespace?, h]

section Lexer

variable {surroundings : Surroundings} {tag : StartTag} {pos : Nat} {rest : List Char}

/-- One look at the attributes of a start tag reads one piece. -/
theorem reads_attributes {p : Piece} {ps : List Piece} {c : Char} {cs : List Char} {mode mode' : Mode}
    (htext : p.text = c :: cs)
    (hstep : scanAttributes tag pos c (cs ++ (spell ps ++ rest)) = { lexeme := p.lexeme, mode })
    (hps : (scanner surroundings).Reads mode (pos + p.text.length) ps rest mode') :
    (scanner surroundings).Reads (.attributes tag) pos (p :: ps) rest mode' := by
  refine Scanner.Reads.cons (by simp [htext]) ?_ hps
  show scan surroundings (.attributes tag) pos (p.text ++ _) = _
  rw [htext, List.cons_append]
  simp only [scan, hstep]

/-- One space before an attribute is a piece of its own. -/
theorem scanAttributes_space {c : Char} (hc : isWhitespace c = false) :
    scanAttributes tag pos ' ' (c :: rest)
      = { lexeme := { kind := .whitespace, length := 1, style := "space" }
          mode := .attributes tag } := by
  have hspace : isSpace c = false := by
    simp only [isWhitespace, Bool.or_eq_false_iff] at hc
    exact hc.1
  have htake : (c :: rest).takeWhile isSpace = [] := by
    rw [List.takeWhile_cons, hspace]
    rfl
  simp [scanAttributes, whitespace?, show isSpace ' ' = true from rfl, countWhile, htake]

theorem scanAttributes_name (a : Attribute) (hequals : tag.afterEquals = false) {c : Char}
    {cs : List Char} (hname : a.name.toList = c :: cs) :
    scanAttributes tag pos c (cs ++ '=' :: rest)
      = { lexeme :=
            { kind := .attributeName, length := a.name.toList.length
              style := if isKnownAttribute a.name then "attribute" else "attribute-unknown" }
          mode := .attributes
            { tag with attributes := (a.name, "") :: tag.attributes, pending := some a.name } } := by
  obtain ⟨⟨h1, h2, h3, h4, h5, h6⟩, hblank⟩ :=
    not_isAttributeStop (a.isAttributeStop_of_mem (hname ▸ List.mem_cons_self))
  have htake : (cs ++ '=' :: rest).takeWhile (fun c => !isAttributeStop c) = cs := by
    refine takeWhile_append_of_head (fun d hd => ?_) rfl
    rw [a.isAttributeStop_of_mem (hname ▸ List.mem_cons_of_mem c hd)]
    rfl
  have hwritten : String.ofList (c :: cs) = a.name := by rw [← hname, String.ofList_toList]
  simp [scanAttributes, whitespace?_of_not hblank, h1, h2, h3, h4, h5, h6, hequals, htake, hwritten,
    a.lowered, String.length_toList]

theorem scanAttributes_equals (hpending : tag.pending.isSome = true) :
    scanAttributes tag pos '=' rest
      = { lexeme := mark .equals, mode := .attributes { tag with afterEquals := true } } := by
  simp [scanAttributes, whitespace?_of_not, isWhitespace, isSpace, isLineBreak, hpending]

theorem scanAttributes_value (a : Attribute) :
    scanAttributes tag pos '"' (a.value.toList ++ '"' :: rest)
      = { lexeme :=
            { kind := .attributeValue, length := ('"' :: (a.value.toList ++ ['"'])).length
              style := "attribute-value" }
          mode := .attributes (tag.assign a.value) } := by
  simp [scanAttributes, whitespace?_of_not, isWhitespace, isSpace, isLineBreak, quotedValue,
    findIndex?_quote a.unquoted]

/-- The start tag after another attribute. -/
def StartTag.take (tag : StartTag) (a : Attribute) : StartTag :=
  StartTag.assign
    { tag with attributes := (a.name, "") :: tag.attributes, pending := some a.name
               afterEquals := true } a.value

theorem attribute_reads (a : Attribute) (hequals : tag.afterEquals = false) :
    (scanner surroundings).Reads (.attributes tag) pos a.pieces rest (.attributes (tag.take a)) := by
  obtain ⟨c, cs, hname⟩ : ∃ c cs, a.name.toList = c :: cs :=
    List.exists_cons_of_ne_nil fun h => a.nonempty (String.toList_eq_nil_iff.mp h)
  have hblank := (not_isAttributeStop (a.isAttributeStop_of_mem (hname ▸ List.mem_cons_self))).2
  unfold Attribute.pieces
  apply reads_attributes rfl
  · rw [spell_cons, hname]
    exact scanAttributes_space hblank
  apply reads_attributes hname
  · exact scanAttributes_name a hequals hname
  apply reads_attributes rfl
  · exact scanAttributes_equals rfl
  apply reads_attributes rfl
  · rw [List.append_assoc]
    exact scanAttributes_value a
  exact Scanner.Reads.nil

theorem StartTag.afterEquals_take (a : Attribute) : (tag.take a).afterEquals = false := rfl

theorem StartTag.name_foldl_take (as : List Attribute) : (as.foldl take tag).name = tag.name := by
  induction as generalizing tag with
  | nil => rfl
  | cons a as ih => exact ih

theorem attributes_reads (as : List Attribute) (hequals : tag.afterEquals = false) :
    (scanner surroundings).Reads (.attributes tag) pos (as.flatMap Attribute.pieces) rest
      (.attributes (as.foldl StartTag.take tag)) := by
  induction as generalizing tag pos with
  | nil => exact Scanner.Reads.nil
  | cons a as ih =>
      exact Scanner.Reads.append (attribute_reads a hequals) (ih (tag.afterEquals_take a))

/-- After the start tag of an element with markup inside comes content. -/
theorem scanAttributes_bracket (n : TagName) (hname : tag.name = n.text) :
    scanAttributes tag pos '>' rest
      = { lexeme := { kind := .tagEnd, length := 1, style := "tag" }, mode := .content } := by
  have hbody : tag.body = .content := by
    rw [StartTag.body, hname, n.lowered, n.hasMarkup]
    rfl
  simp [scanAttributes, whitespace?_of_not, isWhitespace, isSpace, isLineBreak, hbody]

/-- One look at content reads one piece. -/
theorem reads_content {p : Piece} {ps : List Piece} {cs : List Char} {m m' : Mode}
    (htext : p.text = '<' :: cs)
    (hstep : scanAngle pos ('<' :: (cs ++ (spell ps ++ rest))) = { lexeme := p.lexeme, mode := m })
    (hps : (scanner surroundings).Reads m (pos + p.text.length) ps rest m') :
    (scanner surroundings).Reads .content pos (p :: ps) rest m' := by
  refine Scanner.Reads.cons (by simp [htext]) ?_ hps
  show scan surroundings .content pos (p.text ++ _) = _
  rw [htext, List.cons_append]
  simp only [scan, scanContent, beq_self_eq_true, if_true, hstep]

/-- A name begins with a letter, so no mark of another kind of tag comes first. -/
theorem TagName.exists_head (n : TagName) :
    ∃ c cs, n.text.toList = c :: cs ∧ isNameStart c = true ∧ c ≠ '!' ∧ c ≠ '?' ∧ c ≠ '/' := by
  have hstarts := n.starts
  cases hname : n.text.toList with
  | nil => simp [startsName, hname] at hstarts
  | cons c cs =>
      have hc : isNameStart c = true := by simpa [startsName, hname] using hstarts
      refine ⟨c, cs, rfl, hc, ?_, ?_, ?_⟩ <;>
        · rintro rfl
          exact absurd hc (by decide)

theorem scanAngle_start (n : TagName) (hrest : rest.head?.any isNameChar = false) :
    scanAngle pos ('<' :: (n.text.toList ++ rest))
      = { lexeme :=
            { kind := .tagOpen, length := ('<' :: n.text.toList).length, style := tagStyle n.text }
          mode := .attributes { name := n.text, start := pos } } := by
  have htake := takeWhile_append_of_head (List.all_eq_true.mp n.chars) hrest
  obtain ⟨c, cs, hname, hstart, hbang, hquestion, hslash⟩ := n.exists_head
  have hstarts : startsName (n.text.toList ++ rest) = true := by simp [hname, startsName, hstart]
  have hhead : (n.text.toList ++ rest).head? = some c := by simp [hname]
  have hcomment : ['!', '-', '-'].isPrefixOf (n.text.toList ++ rest) = false := by
    simp [hname, List.isPrefixOf, hbang.symm]
  have hcdata : ['!', '[', 'C', 'D', 'A', 'T', 'A', '['].isPrefixOf (n.text.toList ++ rest) = false := by
    simp [hname, List.isPrefixOf, hbang.symm]
  simp [scanAngle, hcomment, hcdata, hhead, hbang, hquestion, hslash, hstarts, htake,
    String.length_toList, Nat.add_comm]

theorem scanAngle_end (n : TagName) (hrest : rest.head?.any isNameChar = false) :
    scanAngle pos ('<' :: ('/' :: n.text.toList ++ rest))
      = { lexeme :=
            { kind := .tagClose, length := ('<' :: '/' :: n.text.toList).length
              style := tagStyle n.text }
          mode := .endTag n.text pos } := by
  have htake := takeWhile_append_of_head (List.all_eq_true.mp n.chars) hrest
  obtain ⟨c, cs, hname, hstart, -⟩ := n.exists_head
  have hstarts : startsName (n.text.toList ++ rest) = true := by simp [hname, startsName, hstart]
  have hlen : 2 + n.text.length = n.text.length + 1 + 1 := by omega
  simp [scanAngle, List.isPrefixOf, hstarts, htake, String.length_toList, hlen]

/-- The name of a start tag ends at its first attribute or at its bracket. -/
theorem not_isNameChar_head (as : List Attribute) :
    (spell (as.flatMap Attribute.pieces ++ [bracket]) ++ rest).head?.any isNameChar
      = false := by
  cases as with
  | nil => rfl
  | cons a as => rfl

theorem TagName.start_reads (n : TagName) (as : List Attribute) :
    (scanner surroundings).Reads .content pos (n.startPieces (as.flatMap Attribute.pieces)) rest
      .content := by
  unfold TagName.startPieces
  apply reads_content rfl
  · exact scanAngle_start n (not_isNameChar_head as)
  apply Scanner.Reads.append (attributes_reads as rfl)
  apply reads_attributes rfl
  · exact scanAttributes_bracket n (StartTag.name_foldl_take as)
  · exact Scanner.Reads.nil

theorem TagName.end_reads (n : TagName) :
    (scanner surroundings).Reads .content pos n.endPieces rest .content := by
  unfold TagName.endPieces
  apply reads_content rfl
  · exact scanAngle_end n rfl
  · exact Scanner.Reads.piece (by simp [bracket]) rfl

mutual

/-- The lexer reads an element, and then content again. -/
theorem Element.reads : ∀ (e : Element) (pos : Nat) (rest : List Char),
    (scanner surroundings).Reads .content pos e.pieces rest .content
  | .mk name attributes children, pos, rest => by
    unfold Element.pieces
    exact Scanner.Reads.append (Scanner.Reads.append (name.start_reads attributes)
      (reads_all children _ _)) name.end_reads

theorem reads_all : ∀ (es : List Element) (pos : Nat) (rest : List Char),
    (scanner surroundings).Reads .content pos (piecesAll es) rest .content
  | [], _, _ => Scanner.Reads.nil
  | e :: es, pos, rest => Scanner.Reads.append (e.reads pos _) (reads_all es _ rest)

end

/-- The lexer takes what is printed for its pieces, and finds nothing wrong. -/
theorem lex_printAll (embed : Bool) (es : List Element) :
    lex .rich embed (printAll es) 0 none = ⟨tokens 0 (piecesAll es), []⟩ := by
  have htext : boundedText (printAll es) 0 (some (printAll es).length) = spell (piecesAll es) := by
    rw [boundedText, List.take_length, List.drop_zero, spell_piecesAll]
  simp only [lex, Option.getD_none, Nat.min_self, htext]
  rw [(reads_all es 0 []).run_eq]
  rfl

end Lexer

end SourceView.Markup
