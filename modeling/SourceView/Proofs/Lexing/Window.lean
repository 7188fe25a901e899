/-
What a window shows from an offset on.

All that a look learns about its source it learns through the window, and all that the window
tells at or behind an offset is told by the text from there to its end: the text ahead.  The one
access that nothing keeps within the window is the slice, and where its offsets lie within the
window it is a part of the text ahead as well.
-/
import SourceView.Proofs.Lexing.Ahead

namespace SourceView

namespace Window

open Lexing

variable (w : Window) (pos : Nat)

/-- The text from an offset to the end of the window. -/
def ahead : List Char :=
  (w.source.toList.take w.stop).drop pos

theorem length_ahead : (w.ahead pos).length = w.stop - pos := by
  have hstop : w.stop ≤ w.source.toList.length := w.stop_le
  rw [ahead, List.length_drop, List.length_take, Nat.min_eq_left hstop]

@[simp] theorem drop_ahead (n : Nat) : (w.ahead pos).drop n = w.ahead (pos + n) := by
  rw [ahead, ahead, List.drop_drop]

@[simp] theorem tail_ahead : (w.ahead pos).tail = w.ahead (pos + 1) := by
  rw [← List.drop_one, drop_ahead]

/-- The character at an offset is the first one ahead. -/
@[simp] theorem head?_ahead : (w.ahead pos).head? = w.at? pos := by
  rw [ahead, List.head?_drop, at?]
  by_cases h : pos < w.stop
  · have hsize : pos < w.source.size := Nat.lt_of_lt_of_le h w.stop_le
    rw [dif_pos h, List.getElem?_take_of_lt h, Array.getElem?_toList,
      Array.getElem?_eq_getElem hsize]
  · rw [dif_neg h, List.getElem?_eq_none]
    rw [List.length_take]
    omega

theorem ahead_eq_nil_iff : w.ahead pos = [] ↔ w.stop ≤ pos := by
  rw [← List.length_eq_zero_iff, length_ahead]
  omega

theorem at?_eq_none_iff : w.at? pos = none ↔ w.stop ≤ pos := by
  rw [← head?_ahead, List.head?_eq_none_iff, ahead_eq_nil_iff]

variable {w pos} {c : Char}

theorem lt_stop (h : w.at? pos = some c) : pos < w.stop := by
  refine Nat.lt_of_not_le fun hstop => ?_
  rw [(w.at?_eq_none_iff pos).mpr hstop] at h
  cases h

/-- Where a character satisfies something, there is one. -/
theorem lt_stop_of_any {p : Char → Bool} (h : (w.at? pos).any p = true) : pos < w.stop := by
  cases hc : w.at? pos with
  | none => rw [hc] at h; cases h
  | some c => exact lt_stop hc

theorem exists_at? (h : pos < w.stop) : ∃ c, w.at? pos = some c :=
  ⟨_, dif_pos h⟩

/-- The text ahead is its first character and the text ahead of the next offset. -/
theorem ahead_eq_cons (h : w.at? pos = some c) : w.ahead pos = c :: w.ahead (pos + 1) := by
  rw [← head?_ahead] at h
  obtain ⟨rest, hrest⟩ := List.head?_eq_some_iff.mp h
  rw [← tail_ahead, hrest, List.tail_cons]

theorem ahead_eq_nil (h : w.at? pos = none) : w.ahead pos = [] :=
  (w.ahead_eq_nil_iff pos).mpr ((w.at?_eq_none_iff pos).mp h)

variable (w pos)

/-! ### Words and runs of characters -/

/-- A word stands at an offset if it begins the text ahead. -/
theorem startsWith_eq (word : List Char) : w.startsWith pos word = word.isPrefixOf (w.ahead pos) := by
  induction word generalizing pos with
  | nil => rfl
  | cons d word ih =>
      rw [startsWith, ih]
      cases h : w.at? pos with
      | none => rw [ahead_eq_nil h]; rfl
      | some c =>
          rw [ahead_eq_cons h, List.isPrefixOf]
          congr 1
          rw [Bool.eq_iff_iff]
          simp only [beq_iff_eq, Option.some.injEq]
          exact eq_comm

/-- Over all that is left, the search is the search in the text ahead. -/
theorem findFrom_eq {needle : List Char} (hneedle : needle ≠ []) (left : Nat)
    (hleft : left = w.stop - pos) :
    w.findFrom needle left pos = (Text.findIndex? needle (w.ahead pos)).map (pos + ·) := by
  induction left generalizing pos with
  | zero =>
      have hnil : w.ahead pos = [] := (w.ahead_eq_nil_iff pos).mpr (by omega)
      rw [findFrom, hnil, Text.findIndex?, if_neg (by simpa using hneedle)]
      rfl
  | succ left ih =>
      have hpos : pos < w.stop := by omega
      obtain ⟨c, hc⟩ := exists_at? hpos
      rw [findFrom, startsWith_eq, ih (pos + 1) (by omega), ahead_eq_cons hc, Text.findIndex?]
      by_cases h : needle.isPrefixOf (c :: w.ahead (pos + 1)) = true
      · rw [if_pos h, if_pos h]
        rfl
      · rw [if_neg h, if_neg h, Option.map_map]
        refine congrArg (fun f => Option.map f _) (funext fun n => ?_)
        show pos + 1 + n = pos + (n + 1)
        omega

theorem find?_eq {needle : List Char} (hneedle : needle ≠ []) :
    w.find? needle pos = (Text.findIndex? needle (w.ahead pos)).map (pos + ·) :=
  w.findFrom_eq pos hneedle _ rfl

variable (p : Char → Bool)

theorem skipFrom_eq (left : Nat) (hleft : left = w.stop - pos) :
    w.skipFrom p left pos = pos + countWhile p (w.ahead pos) := by
  induction left generalizing pos with
  | zero =>
      have hnil : w.ahead pos = [] := (w.ahead_eq_nil_iff pos).mpr (by omega)
      rw [skipFrom, hnil]
      rfl
  | succ left ih =>
      have hpos : pos < w.stop := by omega
      obtain ⟨c, hc⟩ := exists_at? hpos
      rw [skipFrom, hc, ahead_eq_cons hc, countWhile, List.takeWhile_cons]
      dsimp only
      by_cases h : p c = true
      · rw [if_pos h, if_pos h, ih (pos + 1) (by omega), countWhile, List.length_cons]
        omega
      · rw [if_neg h, if_neg h]
        rfl

/-- What is stepped over is counted in the text ahead. -/
theorem skipWhile_eq : w.skipWhile p pos = pos + countWhile p (w.ahead pos) :=
  w.skipFrom_eq pos p _ rfl

theorem skipUntil_eq : w.skipUntil p pos = pos + countWhile (fun c => !p c) (w.ahead pos) :=
  w.skipWhile_eq pos _

variable {pos p}

theorem lt_skipWhile_iff : pos < w.skipWhile p pos ↔ (w.ahead pos).takeWhile p ≠ [] := by
  rw [skipWhile_eq, countWhile, Ne, ← List.length_eq_zero_iff]
  omega

/-! ### Slices -/

/-- Within the window a slice is a part of the text ahead. -/
theorem slice_eq {n : Nat} (h : n ≤ (w.ahead pos).length) :
    w.slice pos (pos + n) = (w.ahead pos).take n := by
  rw [length_ahead] at h
  rw [slice, ahead, Array.toList_extract, List.extract_eq_take_drop, Nat.add_sub_cancel_left,
    List.drop_take, List.take_take, Nat.min_eq_left h]

/-- The characters that are stepped over. -/
theorem slice_skipWhile : w.slice pos (w.skipWhile p pos) = (w.ahead pos).takeWhile p := by
  have hfront : (w.ahead pos).takeWhile p <+: w.ahead pos := List.takeWhile_prefix p
  have hle : countWhile p (w.ahead pos) ≤ (w.ahead pos).length := hfront.length_le
  rw [skipWhile_eq, slice_eq w hle]
  exact (List.prefix_iff_eq_take.mp hfront).symm

/-- The text ahead in a bounded source is the bounded text. -/
theorem ahead_upTo (source : List Char) (start : Nat) (stop : Option Nat) :
    (upTo source.toArray stop).ahead start = boundedText source start stop := by
  have hwhole : source.take source.length = source := List.take_length
  cases stop with
  | none => simp only [ahead, upTo, boundedText, Option.getD_none, List.size_toArray, Nat.min_self,
      hwhole]
  | some stop =>
      simp only [ahead, upTo, boundedText, Option.getD_some, List.size_toArray]
      rw [← List.take_take, hwhole]

end Window

end SourceView
