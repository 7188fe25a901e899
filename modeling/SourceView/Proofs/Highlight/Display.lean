/-
Highlighted text shows its source.

Whatever the tokens are, as long as none of them ends before it begins, the segments cover
the source once: a token that begins before the last one ended is passed over, and what no
token covers is a segment of its own.  Each segment is read back as its text, and so is the
document that they make up.

In lines the same is said of every entry and the line of the source that it stands for.
Pieces of segments are put together to lines just as the pieces of the source are.
-/
import SourceView.Proofs.Highlight.Reading
import SourceView.Proofs.Lexing.Spans
import Mathlib.Data.List.Forall2

namespace SourceView

/-! ### Splitting -/

namespace Text

variable {α : Type} [DecidableEq α] (sep : α)

theorem splitOn_eq (cs : List α) : splitOn sep cs = cs.splitOn sep := by
  rw [List.splitOn]
  induction cs with
  | nil => rfl
  | cons c rest ih =>
      rw [splitOn, List.splitOnP_cons_eq_if_modifyHead, ih]
      by_cases h : c = sep
      · rw [if_pos h, if_pos (beq_iff_eq.mpr h)]
      · rw [if_neg h, if_neg (mt beq_iff_eq.mp h)]
        cases hrest : rest.splitOnP (· == sep) with
        | nil => exact absurd hrest (List.splitOnP_ne_nil _ rest)
        | cons part parts => rfl

theorem splitOn_ne_nil (cs : List α) : splitOn sep cs ≠ [] := by
  cases cs with
  | nil => exact List.cons_ne_nil _ _
  | cons c rest =>
      rw [splitOn]
      split
      · exact List.cons_ne_nil _ _
      · split <;> exact List.cons_ne_nil _ _

theorem length_splitOn (cs : List α) : (splitOn sep cs).length = cs.count sep + 1 := by
  induction cs with
  | nil => rfl
  | cons c rest ih =>
      rw [splitOn, List.count_cons]
      by_cases h : c = sep
      · rw [if_pos h, List.length_cons, ih, if_pos (beq_iff_eq.mpr h)]
      · rw [if_neg h, if_neg (mt beq_iff_eq.mp h)]
        cases hrest : splitOn sep rest with
        | nil => exact absurd hrest (splitOn_ne_nil sep rest)
        | cons part parts =>
            rw [hrest] at ih
            exact ih

end Text

namespace Highlight

/-! ### Segments -/

/-- **The segments cover the source once.** -/
theorem segmentsFrom_text (source : List Char) {tokens : List Token}
    (htokens : ∀ t ∈ tokens, t.start ≤ t.stop) {pos : Int} (hpos : 0 ≤ pos) :
    (segmentsFrom source pos tokens).flatMap (·.text) = Text.sliceFrom source pos := by
  induction tokens generalizing pos with
  | nil =>
      rw [segmentsFrom]
      by_cases h : pos < source.length
      · rw [if_pos h]
        exact List.append_nil _
      · rw [if_neg h, Text.sliceFrom, if_pos hpos, List.drop_eq_nil_of_le (by omega)]
        rfl
  | cons t ts ih =>
      have hspan := htokens t (by simp)
      have hrest {pos : Int} (hpos : 0 ≤ pos) :
          (segmentsFrom source pos ts).flatMap (·.text) = Text.sliceFrom source pos :=
        ih (fun u hu => htokens u (by simp [hu])) hpos
      rw [segmentsFrom]
      by_cases hskip : t.start < pos
      · rw [if_pos hskip]
        exact hrest hpos
      · rw [if_neg hskip]
        have hgap : ((if pos < t.start then [{ text := Text.slice source pos t.start }] else [] :
            List Segment)).flatMap (·.text) = Text.slice source pos t.start := by
          by_cases hlt : pos < t.start
          · rw [if_pos hlt]
            exact List.append_nil _
          · have heq : t.start = pos := by omega
            rw [if_neg hlt, heq, Token.slice_of_le hpos (Int.le_refl pos), Nat.sub_self,
              List.take_zero]
            rfl
        rw [List.flatMap_append, hgap, List.flatMap_cons, hrest (by omega),
          Token.slice_append_sliceFrom (by omega) hspan,
          Token.slice_append_sliceFrom hpos (by omega)]

theorem segments_text (source : List Char) {tokens : List Token}
    (htokens : ∀ t ∈ Token.flatten tokens, t.start ≤ t.stop) :
    (segments source tokens).flatMap (·.text) = source :=
  segmentsFrom_text source htokens (Int.le_refl 0)

/-! ### Lines -/

theorem joinLines_cons (x : List Char) {xs ys : List (List Char)} (hxs : xs ≠ []) (hys : ys ≠ []) :
    joinLines (x :: xs) ys = x :: joinLines xs ys := by
  cases xs with
  | nil => exact absurd rfl hxs
  | cons y xs =>
      cases ys with
      | nil => exact absurd rfl hys
      | cons z ys => rfl

/-- The lines of a text are put together from those of its parts. -/
theorem splitOn_append (as bs : List Char) :
    Text.splitOn '\n' (as ++ bs) = joinLines (Text.splitOn '\n' as) (Text.splitOn '\n' bs) := by
  induction as with
  | nil =>
      cases h : Text.splitOn '\n' bs with
      | nil => exact absurd h (Text.splitOn_ne_nil '\n' bs)
      | cons line lines => rw [List.nil_append, h]; rfl
  | cons c as ih =>
      rw [List.cons_append, Text.splitOn, Text.splitOn, ih]
      by_cases h : c = '\n'
      · rw [if_pos h, if_pos h, joinLines_cons _ (Text.splitOn_ne_nil _ _) (Text.splitOn_ne_nil _ _)]
      · rw [if_neg h, if_neg h]
        cases has : Text.splitOn '\n' as with
        | nil => exact absurd has (Text.splitOn_ne_nil '\n' as)
        | cons line lines =>
            cases hbs : Text.splitOn '\n' bs with
            | nil => exact absurd hbs (Text.splitOn_ne_nil '\n' bs)
            | cons line' lines' => cases lines <;> rfl

/-- What joins with the lines it holds of holds of joined lines. -/
theorem joinLines_forall₂ {R : List Char → List Char → Prop}
    (happend : ∀ {a a' b b'}, R a a' → R b b' → R (a ++ b) (a' ++ b'))
    {xs xs' ys ys' : List (List Char)} (hxs : List.Forall₂ R xs xs')
    (hys : List.Forall₂ R ys ys') : List.Forall₂ R (joinLines xs ys) (joinLines xs' ys') := by
  induction hxs with
  | nil => exact hys
  | cons hx hxs ih =>
      cases hys with
      | nil => exact .cons hx hxs
      | cons hy hys =>
          cases hxs with
          | nil => exact .cons (happend hx hy) hys
          | cons hz hzs => exact .cons hx ih

/-- The markup is read as the line, and there is none for an empty line. -/
def Shown (entry line : List Char) : Prop :=
  Reads 2 0 0 entry line ∧ (line = [] → entry = [])

theorem Shown.append {entry entry' line line' : List Char} (h : Shown entry line)
    (h' : Shown entry' line') : Shown (entry ++ entry') (line ++ line') := by
  refine ⟨h.1.append h'.1, fun hnil => ?_⟩
  obtain ⟨hline, hline'⟩ := List.append_eq_nil_iff.mp hnil
  rw [h.2 hline, h'.2 hline']
  rfl

theorem Segment.pieces_shown (config : Config) (s : Segment) :
    List.Forall₂ Shown (s.pieces config) (Text.splitOn '\n' s.text) := by
  rw [Segment.pieces, List.forall₂_map_left_iff, List.forall₂_same]
  intro piece _
  by_cases h : piece.isEmpty = true
  · rw [if_pos h, List.isEmpty_iff.mp h]
    exact ⟨.nil, fun _ => rfl⟩
  · rw [if_neg h]
    exact ⟨renderChars_reads config s.style piece, fun hnil => absurd (List.isEmpty_iff.mpr hnil) h⟩

/-- The joined pieces of segments show the lines of the segments' text. -/
theorem joined_shown (config : Config) (segs : List Segment) :
    List.Forall₂ Shown (segs.foldr (fun s rest => joinLines (s.pieces config) rest) [[]])
      (Text.splitOn '\n' (segs.flatMap (·.text))) := by
  induction segs with
  | nil => exact .cons ⟨.nil, fun _ => rfl⟩ .nil
  | cons s segs ih =>
      rw [List.foldr_cons, List.flatMap_cons, splitOn_append]
      exact joinLines_forall₂ Shown.append (s.pieces_shown config) ih

/-- The entry of a line: the placeholder for an empty one, else the line in markup. -/
def IsEntry (config : Config) (entry : String) (line : List Char) : Prop :=
  if line = [] then entry = config.emptyLine else Displays 2 entry.toList line

theorem lines_entries (config : Config) (source : String) {tokens : List Token}
    (htokens : ∀ t ∈ Token.flatten tokens, t.start ≤ t.stop) :
    List.Forall₂ (IsEntry config) (lines config source tokens)
      (Text.splitOn '\n' source.toList) := by
  have hjoined := joined_shown config (segments source.toList tokens)
  rw [segments_text source.toList htokens] at hjoined
  rw [lines, List.forall₂_map_left_iff]
  refine hjoined.imp fun entry line hshown => ?_
  unfold IsEntry
  by_cases h : line = []
  · rw [if_pos h, if_pos (List.isEmpty_iff.mpr (hshown.2 h))]
  · have hentry : ¬entry.isEmpty = true := by
      intro hempty
      rw [List.isEmpty_iff.mp hempty] at hshown
      exact h hshown.1.text_of_nil
    rw [if_neg h, if_neg hentry, String.toList_ofList]
    exact hshown.1.displays

/-- **Highlighted text shows its source.**  Whatever the tokens are, as long as none ends before
it begins, the document is well-formed markup with spans at most two deep, and its text is
the source; in lines there is one entry for each line of the source, which is the placeholder
for an empty line and else is well-formed markup whose text is the line. -/
theorem highlight_displays (config : Config) (source : String) (tokens : List Token)
    (htokens : ∀ t ∈ Token.flatten tokens, t.start ≤ t.stop) :
    Displays 2 (document config source tokens).toList source.toList
      ∧ (lines config source tokens).length = source.toList.count '\n' + 1
      ∧ List.Forall₂ (IsEntry config) (lines config source tokens)
        (source.toList.splitOn '\n') := by
  have hentries := lines_entries config source htokens
  refine ⟨?_, ?_, ?_⟩
  · have hreads : Reads 2 0 0
        ((segments source.toList tokens).flatMap fun s => renderChars config s.style s.text)
        ((segments source.toList tokens).flatMap (·.text)) :=
      .flatMap fun s _ => renderChars_reads config s.style s.text
    rw [segments_text source.toList htokens] at hreads
    rw [document, String.toList_ofList]
    exact hreads.displays
  · rw [hentries.length_eq, Text.length_splitOn]
  · rwa [← Text.splitOn_eq]

/-- Tokens that overlap, leave a gap and reach past the end, over two lines of which one is
empty. -/
theorem highlight_displays_overlapping :
    let config : Config := { classPrefix := "\"<" }
    let source := "a <b\n"
    let tokens : List Token := [
      { kind := .keyword, value := "a ", start := 0, stop := 2, style := "k&" },
      { kind := .string, value := " <", start := 1, stop := 3, style := "s" },
      { kind := .string, value := "b", start := 3, stop := 9, style := "s" }]
    (∀ t ∈ Token.flatten tokens, t.start ≤ t.stop)
      ∧ Displays 2 (document config source tokens).toList source.toList
      ∧ (lines config source tokens).length = 2
      ∧ List.Forall₂ (IsEntry config) (lines config source tokens) ["a <b".toList, []] := by
  intro config source tokens
  have htokens : ∀ t ∈ Token.flatten tokens, t.start ≤ t.stop := by
    simp [tokens, Token.flatten, Token.leaves]
  obtain ⟨hdocument, hlength, hentries⟩ := highlight_displays config source tokens htokens
  have hsplit : source.toList.splitOn '\n' = ["a <b".toList, []] := by decide
  have hcount : source.toList.count '\n' + 1 = 2 := by decide
  rw [hsplit] at hentries
  exact ⟨htokens, hdocument, hlength.trans hcount, hentries⟩

end Highlight

end SourceView
