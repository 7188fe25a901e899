/-
Reading markup back.

A reader of highlighted text knows the two tags of a span and the five entities, and nothing
else: it fails on any other tag or entity, on a quote or an angle bracket in the text, on one
in the class of a span, on an end tag too many and on a span too many inside of others.  What
it reads is the text without the tags.

To show that markup is read as some text, it is read piece by piece: a piece is read as a
text if, whatever comes behind it, the reader finds that text there and goes on with the rest
at some depth of open spans.
-/
import SourceView.Highlight.Render

namespace SourceView.Highlight

/-! ### The reader -/

/-- What a reader is in the middle of. -/
inductive Reading where
  | text
  /-- A tag, of which this much is read. -/
  | tag (read : List Char)
  /-- The class of a span. -/
  | value
  /-- A tag, past its class. -/
  | valueEnd
  /-- An entity, of which this much is read. -/
  | entity (read : List Char)

/-- What stands in the start tag of a span before its class. -/
def spanStart : List Char :=
  "span class=".toList

/-- What stands in the end tag of a span. -/
def spanEnd : List Char :=
  "/span".toList

/-- The character that an entity stands for. -/
def entity? (name : List Char) : Option Char :=
  if name = "amp".toList then some '&'
  else if name = "lt".toList then some '<'
  else if name = "gt".toList then some '>'
  else if name = "quot".toList then some '"'
  else if name = "#x27".toList then some '\''
  else none

/-- The text of the markup, inside of `depth` spans of which there may be at most `bound`. -/
def read? (bound depth : Nat) : Reading → List Char → Option (List Char)
  | .text, [] => if depth = 0 then some [] else none
  | .tag _, [] | .value, [] | .valueEnd, [] | .entity _, [] => none
  | .text, c :: rest =>
    if c = '<' then read? bound depth (.tag []) rest
    else if c = '&' then read? bound depth (.entity []) rest
    else if c = '>' ∨ c = '"' ∨ c = '\'' then none
    else (read? bound depth .text rest).map (c :: ·)
  | .tag read, c :: rest =>
    if c = '>' then
      if read = spanEnd ∧ 0 < depth then read? bound (depth - 1) .text rest else none
    else if c = '"' then
      if read = spanStart then read? bound depth .value rest else none
    else read? bound depth (.tag (read ++ [c])) rest
  | .value, c :: rest =>
    if c = '"' then read? bound depth .valueEnd rest
    else if c = '<' ∨ c = '>' then none
    else read? bound depth .value rest
  | .valueEnd, c :: rest =>
    if c = '>' ∧ depth < bound then read? bound (depth + 1) .text rest else none
  | .entity read, c :: rest =>
    if c = ';' then
      match entity? read with
      | some char => (read? bound depth .text rest).map (char :: ·)
      | none => none
    else read? bound depth (.entity (read ++ [c])) rest

/-- The markup is well formed, with at most `bound` spans inside one another, and shows the
text. -/
def Displays (bound : Nat) (markup text : List Char) : Prop :=
  read? bound 0 .text markup = some text

/-! ### Pieces of markup -/

/-- From inside of `depth` spans the markup is read as the text, and then the reader is inside
of `after` spans. -/
def Reads (bound depth after : Nat) (markup text : List Char) : Prop :=
  ∀ more, read? bound depth .text (markup ++ more)
    = (read? bound after .text more).map (text ++ ·)

variable {bound depth mid after : Nat}

namespace Reads

theorem nil : Reads bound depth depth [] [] := by
  intro more
  simp

theorem append {markup markup' text text' : List Char} (h : Reads bound depth mid markup text)
    (h' : Reads bound mid after markup' text') :
    Reads bound depth after (markup ++ markup') (text ++ text') := by
  intro more
  rw [List.append_assoc, h, h', Option.map_map]
  congr 1
  funext rest
  exact (List.append_assoc text text' rest).symm

theorem flatMap {α : Type} {xs : List α} {markup text : α → List Char}
    (h : ∀ x ∈ xs, Reads bound depth depth (markup x) (text x)) :
    Reads bound depth depth (xs.flatMap markup) (xs.flatMap text) := by
  induction xs with
  | nil => exact nil
  | cons x xs ih => exact (h x (by simp)).append (ih fun y hy => h y (by simp [hy]))

/-- A character that has nothing special about it. -/
theorem plain {c : Char} (h : c ≠ '<' ∧ c ≠ '&' ∧ c ≠ '>' ∧ c ≠ '"' ∧ c ≠ '\'') :
    Reads bound depth depth [c] [c] := by
  intro more
  simp [read?, h]

theorem displays {markup text : List Char} (h : Reads bound 0 0 markup text) :
    Displays bound markup text := by
  have hread := h []
  rw [List.append_nil] at hread
  rw [Displays, hread]
  simp [read?]

/-- Markup without a character is read as no text. -/
theorem text_of_nil {text : List Char} (h : Reads bound 0 0 [] text) : text = [] := by
  have hread := h []
  simpa [read?] using hread.symm

end Reads

/-! ### Escaped text -/

theorem read?_entity {name : List Char} (h : ';' ∉ name) (read more : List Char) :
    read? bound depth (.entity read) (name ++ more)
      = read? bound depth (.entity (read ++ name)) more := by
  induction name generalizing read with
  | nil => rw [List.append_nil, List.nil_append]
  | cons c name ih =>
      rw [List.mem_cons, not_or] at h
      rw [List.cons_append, read?, if_neg (Ne.symm h.1), ih h.2, List.append_assoc,
        List.singleton_append]

/-- An entity is read as the character that it stands for. -/
theorem entity_reads (c : Char) (name : List Char) (hname : entity? name = some c)
    (h : ';' ∉ name) (hc : escapeChar c = '&' :: (name ++ [';'])) :
    Reads bound depth depth (escapeChar c) [c] := by
  intro more
  rw [hc, List.cons_append, List.append_assoc, List.singleton_append, read?, if_neg (by decide),
    if_pos rfl, read?_entity h, read?, if_pos rfl, List.nil_append, hname]
  rfl

theorem escapeChar_reads (c : Char) : Reads bound depth depth (escapeChar c) [c] := by
  unfold escapeChar
  split
  · exact entity_reads '&' "amp".toList (by decide) (by decide) (by decide)
  · exact entity_reads '<' "lt".toList (by decide) (by decide) (by decide)
  · exact entity_reads '>' "gt".toList (by decide) (by decide) (by decide)
  · exact entity_reads '"' "quot".toList (by decide) (by decide) (by decide)
  · exact entity_reads '\'' "#x27".toList (by decide) (by decide) (by decide)
  · rename_i hamp hlt hgt hquote hapostrophe
    exact .plain ⟨hlt, hamp, hgt, hquote, hapostrophe⟩

/-- **Escaped characters are read as themselves.** -/
theorem escape_reads (cs : List Char) : Reads bound depth depth (escape cs) cs := by
  have h : Reads bound depth depth (cs.flatMap escapeChar) (cs.flatMap fun c => [c]) :=
    .flatMap fun c _ => escapeChar_reads c
  rwa [List.flatMap_singleton'] at h

/-- The characters may stand in the class of a span. -/
def FitsClass (cls : List Char) : Prop :=
  ∀ c ∈ cls, c ≠ '<' ∧ c ≠ '>' ∧ c ≠ '"'

theorem escape_fitsClass (cs : List Char) : FitsClass (escape cs) := by
  intro c hc
  obtain ⟨d, -, hc⟩ := List.mem_flatMap.mp hc
  unfold escapeChar at hc
  grind

/-! ### Spans -/

theorem read?_tag {name : List Char} (h : '>' ∉ name) (h' : '"' ∉ name) (read more : List Char) :
    read? bound depth (.tag read) (name ++ more) = read? bound depth (.tag (read ++ name)) more := by
  induction name generalizing read with
  | nil => rw [List.append_nil, List.nil_append]
  | cons c name ih =>
      rw [List.mem_cons, not_or] at h h'
      rw [List.cons_append, read?, if_neg (Ne.symm h.1), if_neg (Ne.symm h'.1), ih h.2 h'.2,
        List.append_assoc, List.singleton_append]

theorem read?_value {cls : List Char} (h : FitsClass cls)
    (more : List Char) :
    read? bound depth .value (cls ++ '"' :: more) = read? bound depth .valueEnd more := by
  induction cls with
  | nil => simp [read?]
  | cons c cls ih =>
      have hc := h c (by simp)
      simp only [List.cons_append, read?, hc, or_self, if_false]
      exact ih fun d hd => h d (by simp [hd])

theorem openTag_eq (cls : List Char) :
    openTag cls = ('<' :: (spanStart ++ ['"'])) ++ cls ++ ['"', '>'] := by
  have hbefore : "<span class=\"".toList = '<' :: (spanStart ++ ['"']) := by decide
  have hbehind : "\">".toList = ['"', '>'] := by decide
  calc openTag cls
      = ('<' :: (spanStart ++ ['"'])) ++ cls ++ "\">".toList :=
        congrArg (· ++ cls ++ "\">".toList) hbefore
    _ = ('<' :: (spanStart ++ ['"'])) ++ cls ++ ['"', '>'] := congrArg (_ ++ cls ++ ·) hbehind

theorem openTag_reads {cls : List Char} (h : FitsClass cls)
    (hdepth : depth < bound) : Reads bound depth (depth + 1) (openTag cls) [] := by
  intro more
  rw [openTag_eq]
  simp only [List.append_assoc, List.cons_append, List.nil_append]
  rw [read?, if_pos rfl, read?_tag (by decide) (by decide), List.nil_append, read?,
    if_neg (by decide), if_pos rfl, if_pos rfl, read?_value h, read?, if_pos ⟨rfl, hdepth⟩]
  simp only [Option.map_id']

theorem closeTag_reads : Reads bound (depth + 1) depth closeTag [] := by
  intro more
  have hclose : closeTag = '<' :: (spanEnd ++ ['>']) := by decide
  rw [hclose]
  simp only [List.append_assoc, List.cons_append, List.nil_append]
  rw [read?, if_pos rfl, read?_tag (by decide) (by decide), List.nil_append, read?, if_pos rfl,
    if_pos ⟨rfl, Nat.succ_pos depth⟩]
  simp only [Nat.add_sub_cancel, Option.map_id']

/-- A span reads as what is in it. -/
theorem Reads.span {cls markup text : List Char} (h : FitsClass cls)
    (hdepth : depth < bound) (hmarkup : Reads bound (depth + 1) (depth + 1) markup text) :
    Reads bound depth depth (openTag cls ++ markup ++ closeTag) text := by
  have hspan := ((openTag_reads h hdepth).append hmarkup).append closeTag_reads
  rwa [List.nil_append, List.append_nil] at hspan

/-! ### Marked whitespace -/

/-- The depth inside of the marker of `run`, if one is open. -/
def depthIn (depth : Nat) (run : Option Char) : Nat :=
  if run.isSome then depth + 1 else depth

theorem closeMark_reads (run : Option Char) :
    Reads bound (depthIn depth run) depth (closeMark run) [] := by
  cases run with
  | none => exact .nil
  | some c => exact closeTag_reads

/-- From inside of a marker or outside of one, marked text is read as the text. -/
theorem markFrom_reads (classPrefix : List Char) (hdepth : depth < bound) (cs : List Char)
    (run : Option Char) :
    Reads bound (depthIn depth run) depth (markFrom classPrefix run cs) cs := by
  induction cs generalizing run with
  | nil => exact closeMark_reads run
  | cons c rest ih =>
      unfold markFrom
      by_cases hmarked : isMarked c = true
      · have hplain : Reads bound (depth + 1) (depth + 1) [c] [c] := by
          rw [isMarked, Bool.or_eq_true, beq_iff_eq, beq_iff_eq] at hmarked
          rcases hmarked with rfl | rfl
          · exact .plain (by decide)
          · exact .plain (by decide)
        have hrest : Reads bound (depth + 1) depth (markFrom classPrefix (some c) rest) rest :=
          ih (some c)
        rw [if_pos hmarked]
        by_cases hrun : run = some c
        · rw [if_pos hrun, hrun]
          exact hplain.append hrest
        · rw [if_neg hrun]
          have hopen : Reads bound depth (depth + 1) (markTag classPrefix c) [] :=
            openTag_reads (escape_fitsClass _) hdepth
          exact (((closeMark_reads run).append hopen).append hplain).append hrest
      · rw [if_neg hmarked]
        exact ((closeMark_reads run).append (escapeChar_reads c)).append (ih none)

/-- **Escaped text is read as the text**, whether or not whitespace is marked. -/
theorem escapeChars_reads (mark : Bool) (classPrefix : List Char) (hdepth : depth < bound)
    (cs : List Char) : Reads bound depth depth (escapeChars mark classPrefix cs) cs := by
  unfold escapeChars
  by_cases hmark : mark = true
  · rw [if_pos hmark]
    exact markFrom_reads classPrefix hdepth cs none
  · rw [if_neg hmark]
    exact escape_reads cs

/-- **Text in a style is read as the text**, with at most one span around it and one inside. -/
theorem renderChars_reads (config : Config) (style : String) (text : List Char) :
    Reads 2 0 0 (renderChars config style text) text := by
  unfold renderChars
  by_cases hstyle : style.isEmpty = true
  · rw [if_pos hstyle]
    exact escapeChars_reads _ _ Nat.two_pos text
  · rw [if_neg hstyle]
    exact .span (escape_fitsClass _) Nat.two_pos (escapeChars_reads _ _ Nat.one_lt_two text)

end SourceView.Highlight
