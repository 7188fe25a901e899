/-
Lines and columns are coordinates.

A line and a column name a place of the text.  The line says how many line feeds come before the
place, the column how far behind the beginning of its line it is; so the place is found again from
where its line begins, and no two places have the same line and the same column.  Of two places the
later one is on a later line, or it is on the same line in a later column.

An offset outside the text names the nearest place of the text.
-/
import Mathlib
import SourceView.Proofs.Lines

namespace SourceView.LineIndex

/-- The line and the column of an offset, the line before the column. -/
def place (lines : LineIndex) (offset : Int) : Nat ×ₗ Nat :=
  toLex (lines.lineOf offset, lines.columnOf offset)

variable (cs : List Char)

/-! ### Offsets outside the text -/

theorem clamp_ofChars (offset : Int) :
    ((ofChars cs).clamp offset : Int) = max 0 (min offset cs.length) := by
  show ((min offset.toNat cs.length : Nat) : Int) = max 0 (min offset cs.length)
  omega

theorem clamp_le (offset : Int) : (ofChars cs).clamp offset ≤ cs.length :=
  Nat.min_le_right _ _

theorem take_clamp (offset : Int) :
    cs.take ((ofChars cs).clamp offset) = cs.take offset.toNat :=
  List.take_eq_take_min.symm

theorem columnOf_clamp (offset : Int) :
    (ofChars cs).columnOf offset
      = (ofChars cs).clamp offset - lineBegin cs ((ofChars cs).clamp offset) + 1 := by
  have hclamp : (ofChars cs).clamp ((ofChars cs).clamp offset) = (ofChars cs).clamp offset :=
    Nat.min_eq_left (clamp_le cs offset)
  rw [← columnOf_ofChars cs (clamp_le cs offset), columnOf, columnOf, hclamp]

/-! ### Where lines begin -/

/-- The lines that there are begin somewhere, and no others do. -/
theorem lineStart_eq_error_iff (lines : LineIndex) (n : Int) :
    lines.lineStart n = .error ⟨n, lines.lineCount⟩ ↔ ¬(1 ≤ n ∧ n ≤ lines.lineCount) := by
  unfold lineStart
  by_cases hn : n < 1 ∨ (lines.lineCount : Int) < n
  · rw [if_pos hn]
    exact iff_of_true rfl (by omega)
  · rw [if_neg hn]
    exact iff_of_false (fun h => by cases h) (by omega)

theorem lineStart_lineOf (offset : Int) :
    (ofChars cs).lineStart ((ofChars cs).lineOf offset)
      = .ok (lineBegin cs ((ofChars cs).clamp offset)) := by
  have hpos := lineOf_pos cs offset
  have hle := lineOf_le_lineCount cs offset
  have hrange : ¬(((ofChars cs).lineOf offset : Int) < 1
      ∨ ((ofChars cs).lineCount : Int) < (ofChars cs).lineOf offset) := by
    omega
  rw [lineStart, if_neg hrange, Int.toNat_natCast, lineOf_ofChars, Nat.add_sub_cancel_left,
    ← take_clamp, getD_starts]

/-- Offsets on one line have the same beginning of their lines in front of them. -/
theorem lineBegin_eq_of_lineOf_eq {i j : Nat} (h : (ofChars cs).lineOf i = (ofChars cs).lineOf j) :
    lineBegin cs i = lineBegin cs j := by
  have hcount : (cs.take i).count '\n' = (cs.take j).count '\n' := by
    rw [lineOf_ofChars, lineOf_ofChars, Int.toNat_natCast, Int.toNat_natCast] at h
    omega
  rw [← getD_starts, hcount, getD_starts]

/-! ### Coordinates -/

/-- Later offsets are at later places. -/
theorem place_strictMonoOn : StrictMonoOn (ofChars cs).place (Set.Icc 0 cs.length) := by
  rintro i ⟨hi, -⟩ j ⟨-, hj⟩ hij
  obtain ⟨i, rfl⟩ := Int.eq_ofNat_of_zero_le hi
  obtain ⟨j, rfl⟩ := Int.eq_ofNat_of_zero_le (Int.le_trans hi (Int.le_of_lt hij))
  rw [place, place, Prod.Lex.toLex_lt_toLex]
  by_cases hline : (ofChars cs).lineOf i = (ofChars cs).lineOf j
  · refine .inr ⟨hline, ?_⟩
    have hbegin := lineBegin_eq_of_lineOf_eq cs hline
    have hle := lineBegin_le cs i
    show (ofChars cs).columnOf i < (ofChars cs).columnOf j
    rw [columnOf_ofChars cs (by omega), columnOf_ofChars cs (by omega), ← hbegin]
    omega
  · exact .inl (Nat.lt_of_le_of_ne (lineOf_mono cs (Int.le_of_lt hij)) hline)

/-- The coordinates of an offset, and the offset back from them. -/
theorem exists_offset (offset : Int) : ∃ c : Nat, (c : Int) = max 0 (min offset cs.length)
    ∧ (ofChars cs).lineOf offset = 1 + (cs.take c).count '\n'
    ∧ 1 ≤ (ofChars cs).columnOf offset
    ∧ ∃ start, (ofChars cs).lineStart ((ofChars cs).lineOf offset) = .ok start
      ∧ start + (ofChars cs).columnOf offset - 1 = c := by
  have hcolumn := columnOf_clamp cs offset
  have hbegin := lineBegin_le cs ((ofChars cs).clamp offset)
  refine ⟨_, clamp_ofChars cs offset, ?_, by omega, _, lineStart_lineOf cs offset, by omega⟩
  rw [lineOf_ofChars, take_clamp]

/-- **Lines and columns are coordinates.**  The line of an offset is one more than the number of
line feeds before it, where an offset outside the text counts as the nearest one inside; its column
counts from where the line begins and gives the offset back.  Over the text, offsets and places
are one to one and in the same order.  A line that the text does not have begins nowhere, and the
text has one line more than it has line feeds. -/
theorem places_exact (source : String) :
    let lines := ofSource source
    let cs := source.toList
    (∀ offset : Int, ∃ c : Nat, (c : Int) = max 0 (min offset cs.length)
        ∧ lines.lineOf offset = 1 + (cs.take c).count '\n'
        ∧ 1 ≤ lines.columnOf offset
        ∧ ∃ start, lines.lineStart (lines.lineOf offset) = .ok start
          ∧ start + lines.columnOf offset - 1 = c)
      ∧ StrictMonoOn lines.place (Set.Icc 0 cs.length)
      ∧ Set.BijOn lines.place (Set.Icc 0 cs.length) (lines.place '' Set.Icc 0 cs.length)
      ∧ lines.lineCount = cs.count '\n' + 1
      ∧ ∀ n : Int, lines.lineStart n = .error ⟨n, lines.lineCount⟩
        ↔ ¬(1 ≤ n ∧ n ≤ lines.lineCount) := by
  intro lines cs
  have hmono : StrictMonoOn lines.place (Set.Icc 0 cs.length) := place_strictMonoOn cs
  exact ⟨exists_offset cs, hmono, hmono.injOn.bijOn_image, lineCount_ofChars cs,
    lineStart_eq_error_iff lines⟩

end SourceView.LineIndex
