/-
Lines put together again.

A document and its lines come from the same segments, but a line flushes at every line break and
opens the span of a segment again behind it.  So the lines, joined by line breaks, are the
document of tokens that stop at the end of every line: each token is cut at the line breaks in it,
and those belong to no token.

Two facts carry this.  A line break is written as itself and ends every run of spaces or tabs, so
text without a style may be cut there without a trace.  And a token that is not empty begins either
with a part that is shown or with a line break, so that the text before it ends where it did; an
empty one would vanish and let the runs on its two sides grow together.
-/
import SourceView.Proofs.Highlight.Display

namespace SourceView

/-! ### Tokens cut at line breaks -/

namespace Token

/-- The parts of a token of which the first begins at offset `pos` and the others behind one line
break each.  Kind and style are those of the token, and empty parts are left out. -/
def partsFrom (t : Token) (pos : Int) : List (List Char) → List Token
  | [] => []
  | part :: parts =>
    (if part = [] then []
      else [{ t with value := String.ofList part, start := pos, stop := pos + part.length }])
      ++ t.partsFrom (pos + part.length + 1) parts

/-- The token cut at the line breaks of the source. -/
def cutAtBreaks (source : List Char) (t : Token) : List Token :=
  t.partsFrom t.start ((Text.slice source t.start t.stop).splitOn '\n')

mutual

theorem embedded_of_mem_leaves : ∀ t : Token, ∀ u ∈ t.leaves, u.embedded = []
  | ⟨_, _, _, _, _, _, []⟩, u, hu => by
    rw [leaves, List.mem_singleton] at hu
    rw [hu]
  | ⟨_, _, _, _, _, _, t :: ts⟩, u, hu => by
    rw [leaves, List.mem_append] at hu
    exact hu.elim (embedded_of_mem_leaves t u) (embedded_of_mem_flatten ts u)

/-- Nothing is left in the regions once they are put in the place of their tokens. -/
theorem embedded_of_mem_flatten : ∀ ts : List Token, ∀ u ∈ flatten ts, u.embedded = []
  | [], u, hu => by
    rw [flatten] at hu
    exact absurd hu List.not_mem_nil
  | t :: ts, u, hu => by
    rw [flatten, List.mem_append] at hu
    exact hu.elim (embedded_of_mem_leaves t u) (embedded_of_mem_flatten ts u)

end

theorem start_of_mem_partsFrom {t u : Token} {pos : Int} {parts : List (List Char)}
    (hu : u ∈ t.partsFrom pos parts) : pos ≤ u.start := by
  induction parts generalizing pos with
  | nil => exact absurd hu List.not_mem_nil
  | cons part parts ih =>
      rw [partsFrom, List.mem_append] at hu
      rcases hu with hu | hu
      · split at hu
        · exact absurd hu List.not_mem_nil
        · obtain rfl := List.mem_singleton.mp hu
          exact Int.le_refl pos
      · have hlater := ih hu
        omega

theorem embedded_of_mem_partsFrom {t u : Token} (ht : t.embedded = []) {pos : Int}
    {parts : List (List Char)} (hu : u ∈ t.partsFrom pos parts) : u.embedded = [] := by
  induction parts generalizing pos with
  | nil => exact absurd hu List.not_mem_nil
  | cons part parts ih =>
      rw [partsFrom, List.mem_append] at hu
      rcases hu with hu | hu
      · split at hu
        · exact absurd hu List.not_mem_nil
        · rw [List.mem_singleton.mp hu]
          exact ht
      · exact ih hu

end Token

namespace Highlight

/-! ### Line breaks in text -/

theorem intercalate_cons (line : List Char) {lines : List (List Char)} (h : lines ≠ []) :
    ['\n'].intercalate (line :: lines) = line ++ '\n' :: ['\n'].intercalate lines := by
  rw [List.intercalate_cons_of_ne_nil h, List.append_assoc, List.singleton_append]

/-- A line break ends the run that is open, and is written as itself. -/
theorem markFrom_append_break (classPrefix : List Char) (run : Option Char) (as bs : List Char) :
    markFrom classPrefix run (as ++ '\n' :: bs)
      = markFrom classPrefix run as ++ '\n' :: markFrom classPrefix none bs := by
  induction as generalizing run with
  | nil =>
      show markFrom classPrefix run ('\n' :: bs) = closeMark run ++ '\n' :: _
      rw [markFrom, if_neg (show ¬ isMarked '\n' = true by decide), List.append_assoc]
      rfl
  | cons c as ih =>
      rw [List.cons_append, markFrom, markFrom]
      by_cases hmarked : isMarked c = true
      · rw [if_pos hmarked, if_pos hmarked, ih, ← List.append_assoc]
      · rw [if_neg hmarked, if_neg hmarked, ih, ← List.append_assoc]

variable (mark : Bool) (classPrefix : List Char)

theorem escapeChars_append_break (as bs : List Char) :
    escapeChars mark classPrefix (as ++ '\n' :: bs)
      = escapeChars mark classPrefix as ++ '\n' :: escapeChars mark classPrefix bs := by
  unfold escapeChars
  cases mark with
  | true => exact markFrom_append_break classPrefix none as bs
  | false => exact List.flatMap_append

theorem escapeChars_nil : escapeChars mark classPrefix [] = [] := by
  cases mark <;> rfl

/-- Escaped text is its escaped lines. -/
theorem escapeChars_intercalate (lines : List (List Char)) :
    escapeChars mark classPrefix (['\n'].intercalate lines)
      = ['\n'].intercalate (lines.map (escapeChars mark classPrefix)) := by
  induction lines with
  | nil => exact escapeChars_nil mark classPrefix
  | cons line lines ih =>
      by_cases hlines : lines = []
      · rw [hlines, List.map_singleton, List.intercalate_singleton, List.intercalate_singleton]
      · rw [List.map_cons, intercalate_cons line hlines,
          intercalate_cons _ (mt List.map_eq_nil_iff.mp hlines), escapeChars_append_break, ih]

/-! ### Lines of segments -/

variable (config : Config)

/-- Text as it is written where it has no style. -/
def plainChars (text : List Char) : List Char :=
  escapeChars config.markWhitespace config.classPrefix.toList text

theorem plainChars_nil : plainChars config [] = [] :=
  escapeChars_nil _ _

/-- A line in a style, of which nothing is left if it is empty. -/
def renderPart (style : String) (part : List Char) : List Char :=
  if part.isEmpty then [] else renderChars config style part

theorem renderPart_plain (part : List Char) :
    renderPart config "" part = plainChars config part := by
  unfold renderPart
  by_cases h : part.isEmpty = true
  · rw [if_pos h, List.isEmpty_iff.mp h]
    exact (plainChars_nil config).symm
  · rw [if_neg h]
    rfl

/-- The lines of a segment, put together again. -/
theorem intercalate_pieces (s : Segment) :
    ['\n'].intercalate (s.pieces config)
      = ['\n'].intercalate ((s.text.splitOn '\n').map (renderPart config s.style)) := by
  rw [Segment.pieces, Text.splitOn_eq]
  rfl

/-- The lines of text without a style are the text. -/
theorem intercalate_pieces_plain (text : List Char) :
    ['\n'].intercalate (Segment.pieces config { text }) = plainChars config text := by
  rw [intercalate_pieces, funext (renderPart_plain config)]
  calc ['\n'].intercalate ((text.splitOn '\n').map (plainChars config))
      = plainChars config (['\n'].intercalate (text.splitOn '\n')) :=
        (escapeChars_intercalate _ _ _).symm
    _ = plainChars config text := by rw [List.intercalate_splitOn]

theorem joinLines_ne_nil {xs ys : List (List Char)} (hxs : xs ≠ []) (hys : ys ≠ []) :
    joinLines xs ys ≠ [] := by
  obtain ⟨x, xs, rfl⟩ := List.exists_cons_of_ne_nil hxs
  by_cases hnil : xs = []
  · obtain ⟨y, ys, rfl⟩ := List.exists_cons_of_ne_nil hys
    subst hnil
    exact List.cons_ne_nil _ _
  · rw [joinLines_cons x hnil hys]
    exact List.cons_ne_nil _ _

theorem intercalate_joinLines {xs ys : List (List Char)} (hxs : xs ≠ []) (hys : ys ≠ []) :
    ['\n'].intercalate (joinLines xs ys) = ['\n'].intercalate xs ++ ['\n'].intercalate ys := by
  induction xs with
  | nil => exact absurd rfl hxs
  | cons x xs ih =>
      by_cases hnil : xs = []
      · obtain ⟨y, ys, rfl⟩ := List.exists_cons_of_ne_nil hys
        subst hnil
        show ['\n'].intercalate ((x ++ y) :: ys) = _
        by_cases hys : ys = []
        · simp only [hys, List.intercalate_singleton]
        · rw [intercalate_cons _ hys, intercalate_cons _ hys, List.intercalate_singleton,
            List.append_assoc]
      · rw [joinLines_cons x hnil hys, intercalate_cons x (joinLines_ne_nil hnil hys),
          intercalate_cons x hnil, ih hnil, List.append_assoc]
        rfl

theorem Segment.pieces_ne_nil (s : Segment) : s.pieces config ≠ [] :=
  mt List.map_eq_nil_iff.mp (Text.splitOn_ne_nil '\n' s.text)

/-- The lines of segments, put together again, are those of one segment after another. -/
theorem intercalate_joined (segs : List Segment) :
    ['\n'].intercalate (segs.foldr (fun s rest => joinLines (s.pieces config) rest) [[]])
      = segs.flatMap fun s => ['\n'].intercalate (s.pieces config) := by
  have hjoined (segs : List Segment) :
      segs.foldr (fun s rest => joinLines (s.pieces config) rest) [[]] ≠ [] := by
    induction segs with
    | nil => exact List.cons_ne_nil _ _
    | cons s segs ih => exact joinLines_ne_nil (s.pieces_ne_nil config) ih
  induction segs with
  | nil => rfl
  | cons s segs ih =>
      rw [List.foldr_cons, intercalate_joinLines (s.pieces_ne_nil config) (hjoined segs), ih]
      rfl

/-! ### The document -/

variable (source : List Char)

/-- The source from offset `pos` on, highlighted. -/
def shownFrom (pos : Int) (tokens : List Token) : List Char :=
  (segmentsFrom source pos tokens).flatMap fun s => renderChars config s.style s.text

/-- The text before a token, the token and what comes behind it. -/
theorem shownFrom_cons {pos : Nat} {t : Token} {ts : List Token} (h : pos ≤ t.start) :
    shownFrom config source pos (t :: ts)
      = plainChars config (Text.slice source pos t.start)
        ++ renderChars config (shownStyle t) (Text.slice source t.start t.stop)
        ++ shownFrom config source t.stop ts := by
  unfold shownFrom
  rw [segmentsFrom, if_neg (Int.not_lt.mpr h), List.flatMap_append, List.flatMap_cons,
    ← List.append_assoc]
  congr 2
  by_cases hgap : (pos : Int) < t.start
  · rw [if_pos hgap]
    exact List.append_nil _
  · have heq : t.start = pos := Int.le_antisymm (Int.not_lt.mp hgap) h
    rw [if_neg hgap, heq, Text.slice_ofNat, Nat.sub_self, List.take_zero]
    exact (plainChars_nil config).symm

theorem shownFrom_nil (pos : Nat) :
    shownFrom config source pos [] = plainChars config (source.drop pos) := by
  unfold shownFrom
  rw [segmentsFrom]
  by_cases hlt : (pos : Int) < source.length
  · rw [if_pos hlt, Text.sliceFrom_ofNat]
    exact List.append_nil _
  · rw [if_neg hlt, List.drop_eq_nil_of_le (by omega)]
    exact (plainChars_nil config).symm

/-- Before a line break that belongs to no token the document may be cut. -/
theorem shownFrom_break {pos place : Nat} (hpos : pos ≤ place) {rest : List Char}
    (hbreak : source.drop place = '\n' :: rest) {ts : List Token}
    (hts : ∀ u ∈ ts, (place + 1 : Nat) ≤ u.start) :
    shownFrom config source pos ts
      = plainChars config ((source.drop pos).take (place - pos))
        ++ '\n' :: shownFrom config source (place + 1 : Nat) ts := by
  have hrest : source.drop (place + 1) = rest := by
    rw [← List.drop_drop, hbreak, List.drop_one, List.tail_cons]
  -- Up to any offset behind the break, the text has the break in it.
  have htake (k : Nat) : (source.drop pos).take (place + 1 + k - pos)
      = (source.drop pos).take (place - pos) ++ '\n' :: rest.take k := by
    rw [show place + 1 + k - pos = (place - pos) + (k + 1) by omega, List.take_add, List.drop_drop,
      Nat.add_sub_of_le hpos, hbreak, List.take_succ_cons]
  have hcut (k : Nat) : plainChars config ((source.drop pos).take (place + 1 + k - pos))
      = plainChars config ((source.drop pos).take (place - pos))
        ++ '\n' :: plainChars config (rest.take k) := by
    rw [htake]
    exact escapeChars_append_break _ _ _ _
  cases ts with
  | nil =>
      have hall := hcut (source.length + rest.length)
      rw [List.take_of_length_le (by rw [List.length_drop]; omega),
        List.take_of_length_le (Nat.le_add_left _ _)] at hall
      rw [shownFrom_nil, shownFrom_nil, hrest, hall]
  | cons u us =>
      have hu := hts u List.mem_cons_self
      obtain ⟨k, hk⟩ := Int.le.dest hu
      have hstart : u.start = (place + 1 + k : Nat) := by omega
      rw [shownFrom_cons config source (by omega), shownFrom_cons config source hu, hstart,
        Text.slice_ofNat, Text.slice_ofNat, hrest, Nat.add_sub_cancel_left, hcut]
      simp only [List.append_assoc, List.cons_append]

/-- A part that is not empty is shown as a token of its own, and an empty one leaves nothing. -/
theorem shownFrom_part (t : Token) {pos : Nat} {part rest : List Char}
    (hsource : source.drop pos = part ++ rest) (ts : List Token) :
    shownFrom config source pos
        ((if part = [] then []
          else [{ t with value := String.ofList part, start := pos, stop := pos + part.length }])
          ++ ts)
      = renderPart config (shownStyle t) part
        ++ shownFrom config source (pos + part.length : Nat) ts := by
  by_cases hpart : part = []
  · rw [if_pos hpart, hpart]
    rfl
  · have hslice : Text.slice source pos (pos + part.length : Nat) = part := by
      rw [Text.slice_ofNat, hsource, Nat.add_sub_cancel_left, List.take_left]
    rw [if_neg hpart, List.singleton_append, shownFrom_cons config source (Int.le_refl _)]
    show plainChars config (Text.slice source pos pos)
        ++ renderChars config (shownStyle t) (Text.slice source pos (pos + part.length : Nat))
        ++ shownFrom config source (pos + part.length : Nat) ts = _
    rw [hslice, Text.slice_ofNat, Nat.sub_self, List.take_zero, renderPart,
      if_neg (mt List.isEmpty_iff.mp hpart)]
    congr 1
    exact congrArg (· ++ _) (plainChars_nil config)

/-- The parts of a token are shown as its lines, with the line breaks between them. -/
theorem shownFrom_parts (t : Token) {parts : List (List Char)} (hparts : parts ≠ []) {pos : Nat}
    {rest : List Char} (hsource : source.drop pos = ['\n'].intercalate parts ++ rest)
    {ts : List Token} (hts : ∀ u ∈ ts, (pos + (['\n'].intercalate parts).length : Nat) ≤ u.start) :
    shownFrom config source pos (t.partsFrom pos parts ++ ts)
      = ['\n'].intercalate (parts.map (renderPart config (shownStyle t)))
        ++ shownFrom config source (pos + (['\n'].intercalate parts).length : Nat) ts := by
  induction parts generalizing pos with
  | nil => exact absurd rfl hparts
  | cons part parts ih =>
      rw [Token.partsFrom, List.append_assoc]
      by_cases hnil : parts = []
      · subst hnil
        rw [List.intercalate_singleton] at hsource
        rw [shownFrom_part config source t hsource, List.map_singleton, List.intercalate_singleton,
          List.intercalate_singleton]
        rfl
      · rw [intercalate_cons part hnil] at hsource hts ⊢
        rw [List.append_assoc] at hsource
        have hbreak : source.drop (pos + part.length)
            = '\n' :: (['\n'].intercalate parts ++ rest) := by
          rw [← List.drop_drop, hsource, List.drop_left]
          rfl
        have hbehind : source.drop (pos + part.length + 1) = ['\n'].intercalate parts ++ rest := by
          rw [← List.drop_drop, hbreak, List.drop_one, List.tail_cons]
        have hlength : pos + (part ++ '\n' :: ['\n'].intercalate parts).length
            = pos + part.length + 1 + (['\n'].intercalate parts).length := by
          rw [List.length_append, List.length_cons]
          omega
        rw [hlength] at hts ⊢
        have hmore : ∀ u ∈ t.partsFrom (pos + part.length + 1 : Nat) parts ++ ts,
            (pos + part.length + 1 : Nat) ≤ u.start := by
          intro u hu
          rcases List.mem_append.mp hu with hu | hu
          · exact Token.start_of_mem_partsFrom hu
          · exact Int.le_trans (Int.ofNat_le.mpr (Nat.le_add_right _ _)) (hts u hu)
        have hcut := shownFrom_break config source (Nat.le_refl _) hbreak hmore
        rw [Nat.sub_self, List.take_zero, plainChars_nil, List.nil_append, ih hnil hbehind hts] at hcut
        rw [shownFrom_part config source t hsource, List.map_cons,
          intercalate_cons _ (mt List.map_eq_nil_iff.mp hnil), List.append_assoc, List.cons_append]
        exact congrArg (_ ++ ·) hcut

/-- The text before the parts of a token that is not empty ends where the token begins: there a part
is shown, or there is a line break. -/
theorem shownFrom_gap (t : Token) {pos start : Nat} (hpos : pos ≤ start) {text rest : List Char}
    (htext : text ≠ []) (hsource : source.drop start = text ++ rest) {ts : List Token}
    (hts : ∀ u ∈ ts, (start + text.length : Nat) ≤ u.start) :
    shownFrom config source pos (t.partsFrom start (text.splitOn '\n') ++ ts)
      = plainChars config (Text.slice source pos start)
        ++ shownFrom config source start (t.partsFrom start (text.splitOn '\n') ++ ts) := by
  have hlines : ['\n'].intercalate (text.splitOn '\n') = text := List.intercalate_splitOn '\n'
  obtain ⟨part, parts, hsplit⟩ := List.exists_cons_of_ne_nil (List.splitOn_ne_nil '\n' text)
  rw [hsplit] at hlines ⊢
  rw [Token.partsFrom, List.append_assoc]
  by_cases hpart : part = []
  · have hnil : parts ≠ [] := by
      rintro rfl
      rw [hpart, List.intercalate_singleton] at hlines
      exact htext hlines.symm
    rw [intercalate_cons part hnil, hpart, List.nil_append] at hlines
    have hbreak : source.drop start = '\n' :: (['\n'].intercalate parts ++ rest) := by
      rw [hsource, ← hlines]
      rfl
    have hmore : ∀ u ∈ t.partsFrom (start + part.length + 1) parts ++ ts,
        (start + 1 : Nat) ≤ u.start := by
      intro u hu
      rcases List.mem_append.mp hu with hu | hu
      · have hlater := Token.start_of_mem_partsFrom hu
        omega
      · have hlater := hts u hu
        rw [← hlines, List.length_cons] at hlater
        omega
    rw [if_pos hpart, List.nil_append, shownFrom_break config source hpos hbreak hmore,
      shownFrom_break config source (Nat.le_refl start) hbreak hmore, Nat.sub_self, List.take_zero,
      plainChars_nil, Text.slice_ofNat]
    rfl
  · rw [if_neg hpart, List.singleton_append, shownFrom_cons config source (Int.ofNat_le.mpr hpos),
      shownFrom_cons config source (Int.le_refl _)]
    simp only [Text.slice_ofNat, Nat.sub_self, List.take_zero, plainChars_nil, List.nil_append,
      List.append_assoc]

/-- **A token that is cut at its line breaks is shown as its lines**, and so is the text before
it, for a token that is not empty leaves a part or a line break where it began. -/
theorem shownFrom_cutAtBreaks {pos : Nat} {t : Token} {ts : List Token} (hpos : pos ≤ t.start)
    (ht : t.start < t.stop) (hstop : t.stop ≤ source.length) (hts : ∀ u ∈ ts, t.stop ≤ u.start) :
    shownFrom config source pos (t.cutAtBreaks source ++ ts)
      = plainChars config (Text.slice source pos t.start)
        ++ ['\n'].intercalate (Segment.pieces config
          { text := Text.slice source t.start t.stop, style := shownStyle t })
        ++ shownFrom config source t.stop ts := by
  obtain ⟨start, hstart⟩ := Int.eq_ofNat_of_zero_le (show 0 ≤ t.start by omega)
  obtain ⟨stop, hstop'⟩ := Int.eq_ofNat_of_zero_le (show 0 ≤ t.stop by omega)
  rw [intercalate_pieces, Token.cutAtBreaks]
  simp only [hstart, hstop'] at *
  generalize htext : Text.slice source (start : Int) stop = text
  rw [Text.slice_ofNat] at htext
  have hlength : text.length = stop - start := by
    rw [← htext, List.length_take, List.length_drop]
    omega
  have hsource : source.drop start = text ++ source.drop stop := by
    rw [← htext, show stop = start + (stop - start) by omega, ← List.drop_drop,
      Nat.add_sub_cancel_left, List.take_append_drop]
  have hend : start + text.length = stop := by omega
  have hlater : ∀ u ∈ ts, (start + text.length : Nat) ≤ u.start := fun u hu => hend ▸ hts u hu
  have hne : text ≠ [] := List.ne_nil_of_length_pos (by omega)
  have hlines : ['\n'].intercalate (text.splitOn '\n') = text := List.intercalate_splitOn '\n'
  rw [shownFrom_gap config source t (Int.ofNat_le.mp hpos) hne hsource hlater,
    shownFrom_parts config source t (List.splitOn_ne_nil '\n' text) (hlines.symm ▸ hsource)
      (hlines.symm ▸ hlater), hlines, hend, List.append_assoc]

/-- The document of tokens cut at line breaks is what the lines of the segments come to. -/
theorem shownFrom_flatMap_cutAtBreaks {tokens : List Token} {pos : Nat}
    (htokens : Token.InOrder pos source.length tokens) (hsolid : ∀ t ∈ tokens, t.start < t.stop) :
    shownFrom config source pos (tokens.flatMap (Token.cutAtBreaks source))
      = (segmentsFrom source pos tokens).flatMap fun s => ['\n'].intercalate (s.pieces config) := by
  induction tokens generalizing pos with
  | nil =>
      rw [List.flatMap_nil, shownFrom_nil, segmentsFrom]
      by_cases hlt : (pos : Int) < source.length
      · rw [if_pos hlt, List.flatMap_singleton, intercalate_pieces_plain, Text.sliceFrom_ofNat]
      · rw [if_neg hlt, List.drop_eq_nil_of_le (by omega)]
        exact plainChars_nil config
  | cons t ts ih =>
      obtain ⟨hpos, hspan, hrest⟩ := htokens
      have hafter : ∀ u ∈ ts.flatMap (Token.cutAtBreaks source), t.stop ≤ u.start := by
        intro u hu
        obtain ⟨v, hv, hu⟩ := List.mem_flatMap.mp hu
        exact Int.le_trans (Token.InOrder.mem hrest v hv).1 (Token.start_of_mem_partsFrom hu)
      obtain ⟨stop, hstop⟩ := Int.eq_ofNat_of_zero_le (show 0 ≤ t.stop by omega)
      have hmore := ih (show Token.InOrder (stop : Int) source.length ts from hstop ▸ hrest)
        fun u hu => hsolid u (List.mem_cons_of_mem t hu)
      rw [← hstop] at hmore
      have hgap : (if (pos : Int) < t.start then [{ text := Text.slice source pos t.start }]
          else [] : List Segment).flatMap (fun s => ['\n'].intercalate (s.pieces config))
            = plainChars config (Text.slice source pos t.start) := by
        by_cases hlt : (pos : Int) < t.start
        · rw [if_pos hlt, List.flatMap_singleton, intercalate_pieces_plain]
        · have heq : t.start = pos := Int.le_antisymm (Int.not_lt.mp hlt) hpos
          rw [if_neg hlt, heq, Text.slice_ofNat, Nat.sub_self, List.take_zero]
          exact (plainChars_nil config).symm
      rw [List.flatMap_cons, shownFrom_cutAtBreaks config source hpos (hsolid t List.mem_cons_self)
        (Token.InOrder.le hrest) hafter, hmore, segmentsFrom, if_neg (Int.not_lt.mpr hpos),
        List.flatMap_append, List.flatMap_cons, hgap, List.append_assoc]

/-- Without the placeholders of empty lines the entries are the joined pieces of segments. -/
theorem zipWith_entries {joined lines : List (List Char)} (h : List.Forall₂ Shown joined lines) :
    List.zipWith (fun entry line => if line = [] then "" else entry)
        (joined.map fun line => if line.isEmpty then config.emptyLine else String.ofList line) lines
      = joined.map String.ofList := by
  induction h with
  | nil => rfl
  | @cons entry line _ _ hshown _ ih =>
      rw [List.map_cons, List.map_cons, List.zipWith_cons_cons, ih]
      by_cases hline : line = []
      · rw [if_pos hline, hshown.2 hline, String.ofList_nil]
      · have hentry : ¬entry.isEmpty = true := by
          intro hempty
          rw [List.isEmpty_iff.mp hempty] at hshown
          exact hline hshown.1.text_of_nil
        rw [if_neg hline, if_neg hentry]

/-- **Lines, joined by line breaks, are the document of tokens that stop at the end of every
line.**  The tokens, with regions put in their place, are in order, inside the source and not
empty; the entries of empty lines are taken for empty. -/
theorem lines_joined (config : Config) (source : String) (tokens : List Token)
    (htokens : Token.InOrder 0 source.toList.length (Token.flatten tokens))
    (hsolid : ∀ t ∈ Token.flatten tokens, t.start < t.stop) :
    (lines config source tokens).length = (source.toList.splitOn '\n').length
      ∧ "\n".intercalate (List.zipWith (fun entry line => if line = [] then "" else entry)
          (lines config source tokens) (source.toList.splitOn '\n'))
        = document config source
          ((Token.flatten tokens).flatMap (Token.cutAtBreaks source.toList)) := by
  have hspans : ∀ t ∈ Token.flatten tokens, t.start ≤ t.stop :=
    fun t ht => Int.le_of_lt (hsolid t ht)
  have hentries := lines_entries config source hspans
  rw [Text.splitOn_eq] at hentries
  refine ⟨hentries.length_eq, String.toList_inj.mp ?_⟩
  have hjoined := joined_shown config (segments source.toList tokens)
  rw [segments_text source.toList hspans, Text.splitOn_eq] at hjoined
  have hflat : Token.flatten ((Token.flatten tokens).flatMap (Token.cutAtBreaks source.toList))
      = (Token.flatten tokens).flatMap (Token.cutAtBreaks source.toList) := by
    refine Token.flatten_of_embedded_nil fun u hu => ?_
    obtain ⟨t, ht, hu⟩ := List.mem_flatMap.mp hu
    exact Token.embedded_of_mem_partsFrom (Token.embedded_of_mem_flatten tokens t ht) hu
  have hdocument := shownFrom_flatMap_cutAtBreaks config source.toList
    (show Token.InOrder (0 : Nat) source.toList.length (Token.flatten tokens) from htokens) hsolid
  rw [document, String.toList_ofList, segments, hflat, lines, zipWith_entries config hjoined,
    String.toList_intercalate, List.map_map]
  simp only [Function.comp_def, String.toList_ofList, List.map_id']
  exact (intercalate_joined config _).trans hdocument.symm

/-- A comment over three lines, of which one is empty, with spaces on both sides of the breaks. -/
theorem lines_joined_of_comment :
    let config : Config := {}
    let source := "/* a \n\n  b */ <\n"
    let tokens : List Token :=
      [{ kind := .comment, value := "/* a \n\n  b */", start := 0, stop := 13, style := "comment" }]
    let parts := (Token.flatten tokens).flatMap (Token.cutAtBreaks source.toList)
    Token.InOrder 0 source.toList.length (Token.flatten tokens)
      ∧ (∀ t ∈ Token.flatten tokens, t.start < t.stop)
      ∧ parts.map (fun t => (t.start, t.stop)) = [(0, 5), (7, 13)]
      ∧ (lines config source tokens).length = 4
      ∧ "\n".intercalate (List.zipWith (fun entry line => if line = [] then "" else entry)
          (lines config source tokens) ["/* a ".toList, [], "  b */ <".toList, []])
        = document config source parts := by
  intro config source tokens parts
  have htokens : Token.InOrder 0 source.toList.length (Token.flatten tokens) := by
    refine ⟨Int.le_refl 0, by decide, ?_⟩
    show (13 : Int) ≤ source.toList.length
    decide
  have hsolid : ∀ t ∈ Token.flatten tokens, t.start < t.stop := by
    simp [tokens, Token.flatten, Token.leaves]
  have hsplit : source.toList.splitOn '\n' = ["/* a ".toList, [], "  b */ <".toList, []] := by
    decide
  obtain ⟨hlength, hjoined⟩ := lines_joined config source tokens htokens hsolid
  rw [hsplit] at hlength hjoined
  exact ⟨htokens, hsolid, by decide, hlength, hjoined⟩

end Highlight

end SourceView
