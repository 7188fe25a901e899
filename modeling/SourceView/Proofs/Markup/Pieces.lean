/-
No piece of markup is empty.

A look at markup names one piece, and the piece has at least the character that it is chosen by.
None of them is a string, for the values of attributes have a kind of their own.
-/
import SourceView.Proofs.Markup.Ahead
import SourceView.Proofs.Lexing.EndTags
import SourceView.Proofs.Stylesheet.Boundaries

namespace SourceView.Markup

open Lexing

/-- The piece has some length, and is no string. -/
def NonemptyNoString (l : Lexeme) : Prop :=
  0 < l.length ∧ l.kind ≠ .string

theorem whitespace_nonempty {text : List Char} {l : Lexeme} (h : whitespace? text = some l) :
    NonemptyNoString l :=
  ⟨(whitespace?_trivia h).2, whitespace?_ne_string h⟩

theorem region_nonempty {kind : TokenKind} (hkind : kind ≠ .string) (style what : String)
    {opener : Nat} (hopener : 0 < opener) (closer : List Char) (pos : Nat) (c : Char)
    (rest : List Char) :
    NonemptyNoString (region kind style what opener closer pos (c :: rest)).lexeme := by
  refine ⟨Stylesheet.delimited_length_pos _ _ _ hopener _ pos (List.cons_ne_nil c rest), ?_⟩
  simp only [region, delimited_kind]
  exact hkind

theorem scanAngle_nonempty (pos : Nat) (c : Char) (rest : List Char) :
    NonemptyNoString (scanAngle pos (c :: rest)).lexeme := by
  simp only [scanAngle]
  split
  · exact region_nonempty (by decide) _ _ (by decide) ..
  split
  · exact region_nonempty (by decide) _ _ (by decide) ..
  split
  · exact region_nonempty (by decide) _ _ (by decide) ..
  split
  · exact region_nonempty (by decide) _ _ (by decide) ..
  split
  · exact ⟨Nat.add_pos_left Nat.two_pos _, nofun⟩
  split
  · exact ⟨Nat.add_pos_left Nat.one_pos _, nofun⟩
  · exact ⟨Nat.one_pos, nofun⟩

theorem entity?_pos {text : List Char} {n : Nat} (h : entity? text = some n) : 0 < n := by
  simp only [entity?] at h
  grind

theorem characterData_nonempty (c : Char) (rest : List Char) :
    NonemptyNoString (characterData c rest) := by
  unfold characterData
  split
  · split
    · rename_i n hn
      exact ⟨entity?_pos hn, nofun⟩
    · exact ⟨Nat.one_pos, nofun⟩
  split
  · rename_i l hl
    exact whitespace_nonempty hl
  · exact ⟨Nat.add_pos_left Nat.one_pos _, nofun⟩

theorem scanContent_nonempty (detail : Detail) (pos : Nat) (c : Char) (rest : List Char) :
    NonemptyNoString (scanContent detail pos c rest).lexeme := by
  unfold scanContent
  split
  · exact scanAngle_nonempty ..
  · cases detail with
    | rich => exact characterData_nonempty c rest
    | structural => exact ⟨Nat.add_pos_left Nat.one_pos _, nofun⟩

theorem scanAttributes_nonempty (tag : StartTag) (pos : Nat) (c : Char) (rest : List Char) :
    NonemptyNoString (scanAttributes tag pos c rest).lexeme := by
  unfold scanAttributes
  split
  · rename_i l hl
    exact whitespace_nonempty hl
  split
  · exact ⟨Nat.one_pos, nofun⟩
  split
  · exact ⟨Nat.two_pos, nofun⟩
  split
  · exact scanAngle_nonempty ..
  split
  · exact ⟨Nat.one_pos, nofun⟩
  split
  · unfold quotedValue
    split <;> exact ⟨Nat.succ_pos _, nofun⟩
  split
  · exact ⟨Nat.succ_pos _, nofun⟩
  split
  · exact ⟨Nat.one_pos, nofun⟩
  · refine ⟨?_, nofun⟩
    change 0 < (String.ofList (c :: rest.takeWhile fun c => !isAttributeStop c)).length
    rw [String.length_ofList]
    exact Nat.succ_pos _

theorem scanEndTag_nonempty (name : String) (start pos : Nat) (c : Char) (rest : List Char) :
    NonemptyNoString (scanEndTag name start pos c rest).lexeme := by
  unfold scanEndTag
  split
  · exact ⟨Nat.one_pos, nofun⟩
  split
  · exact scanAngle_nonempty ..
  split
  · rename_i l hl
    exact whitespace_nonempty hl
  · exact ⟨Nat.add_pos_left Nat.one_pos _, nofun⟩

theorem scanRawText_nonempty (surroundings : Surroundings) (tag : StartTag) (pos : Nat) (c : Char)
    (rest : List Char) : NonemptyNoString (scanRawText surroundings tag pos c rest).lexeme := by
  simp only [scanRawText]
  split
  · exact scanContent_nonempty ..
  · rename_i hn
    exact ⟨Nat.pos_of_ne_zero hn, nofun⟩

/-- A look at markup names one piece, which has some length and is no string. -/
theorem scan_single (surroundings : Surroundings) (mode : Mode) (pos : Nat) (c : Char)
    (rest : List Char) :
    ∃ l, (scan surroundings mode pos (c :: rest)).lexemes = [l] ∧ NonemptyNoString l := by
  refine ⟨_, rfl, ?_⟩
  cases mode with
  | content => exact scanContent_nonempty ..
  | attributes tag => exact scanAttributes_nonempty ..
  | endTag name start => exact scanEndTag_nonempty ..
  | rawText tag => exact scanRawText_nonempty ..

end SourceView.Markup
