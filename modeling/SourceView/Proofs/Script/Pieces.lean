/-
No piece of a script is empty.

A look at a script names one piece.  Each way to look takes at least the character by which it
is chosen: a run of characters of one sort begins with that character, and all the others are
at least as long as what opens them.
-/
import SourceView.Proofs.Lexing.Coverage
import SourceView.Proofs.Lexing.EndTags
import SourceView.Proofs.Script.Steps
import SourceView.Proofs.Stylesheet.Boundaries

namespace SourceView

open Lexing

namespace Script

theorem countWhile_pos {p : Char → Bool} {c : Char} (hc : p c = true) (rest : List Char) :
    0 < countWhile p (c :: rest) := by
  simp [countWhile, hc]

theorem operator_length_pos (text : List Char) : 0 < (operator text).length := by
  unfold operator
  cases hop : operator? text with
  | none => exact Nat.one_pos
  | some op =>
      have hnonempty : ∀ op ∈ operators, 0 < op.length := by decide
      exact hnonempty op (List.mem_of_find?_eq_some hop)

theorem le_ite {p : Prop} [Decidable p] {n a b : Nat} (ha : n ≤ a) (hb : n ≤ b) :
    n ≤ if p then a else b := by
  by_cases h : p
  · rwa [if_pos h]
  · rwa [if_neg h]

theorem decimalLength_pos {c : Char} {rest : List Char}
    (hc : (c.isDigit || (c == '.' && startsDigit rest)) = true) :
    0 < decimalLength (c :: rest) := by
  unfold decimalLength
  -- An exponent does not make a number shorter.
  refine Nat.lt_of_lt_of_le ?_ (le_ite (le_ite ?_ (Nat.le_refl _)) (Nat.le_refl _))
  · rcases Bool.or_eq_true _ _ ▸ hc with hdigit | hpoint
    · have hdigits := countWhile_pos (p := isNumberChar) (by rw [isNumberChar, hdigit]; rfl) rest
      exact Nat.lt_of_lt_of_le hdigits (le_ite (by omega) (Nat.le_refl _))
    · rw [Bool.and_eq_true, beq_iff_eq] at hpoint
      obtain ⟨rfl, -⟩ := hpoint
      have hnone : countWhile isNumberChar ('.' :: rest) = 0 := rfl
      have hmark : ((('.' :: rest).drop 0).head? == some '.') = true := rfl
      rw [hnone, if_pos hmark]
      omega
  · omega

theorem number_length_pos {c : Char} {rest : List Char}
    (hc : (c.isDigit || (c == '.' && startsDigit rest)) = true) :
    0 < (number (c :: rest)).length := by
  have hdecimal := decimalLength_pos hc
  unfold number
  simp only
  split <;> split <;> omega

theorem word_length_pos (detail : Detail) (s : LexState) {first : Nat} (hfirst : 0 < first)
    (text : List Char) : 0 < (word detail s first text).length := by
  cases detail <;> exact Nat.lt_of_lt_of_le hfirst (Nat.le_add_right _ _)

theorem regex?_length_pos {rest : List Char} {l : Lexeme} (h : regex? rest = some l) :
    0 < l.length := by
  obtain ⟨n, -, rfl⟩ := Option.map_eq_some_iff.mp h
  show 0 < 1 + n + _
  omega

theorem scanSlash_length_pos (s : LexState) (pos : Nat) (rest : List Char) :
    0 < (scanSlash s pos ('/' :: rest)).lexeme.length := by
  simp only [scanSlash]
  split
  · exact countWhile_pos rfl rest
  split
  · exact Stylesheet.delimited_length_pos _ _ _ Nat.two_pos _ pos (List.cons_ne_nil _ _)
  split
  · rename_i l hl
    split at hl
    · exact regex?_length_pos hl
    · exact absurd hl (by simp)
  · exact operator_length_pos _

theorem closeBrace_length_pos (s : LexState) : 0 < (closeBrace s).lexeme.length := by
  unfold closeBrace
  split
  · exact Nat.one_pos
  split
  · split <;> exact Nat.one_pos
  · exact Nat.one_pos

theorem openTag_length_pos (s : LexState) (region : Region) (text : List Char) :
    0 < (openTag s region text).lexeme.length :=
  Nat.lt_of_lt_of_le Nat.one_pos (Nat.le_add_right _ _)

theorem scanCode_length_pos (detail : Detail) (s : LexState) (pos : Nat) (c : Char)
    (rest : List Char) : 0 < (scanCode detail s pos c rest).lexeme.length := by
  have hstep := scanCode_step detail s pos c rest
  generalize scanCode detail s pos c rest = step at hstep
  cases hstep with
  | space hspace => exact (whitespace?_trivia hspace).2
  | slash hc =>
      rw [beq_iff_eq] at hc
      exact hc ▸ scanSlash_length_pos s pos rest
  | quoted => exact Stylesheet.quotedLiteral_length_pos ..
  | template | openBrace | bracket | punctuation => exact Nat.one_pos
  | closeBrace => exact closeBrace_length_pos s
  | tag => exact openTag_length_pos ..
  | number hc => exact number_length_pos hc
  | word => exact word_length_pos detail s Nat.one_pos _
  | privateWord => exact word_length_pos detail s Nat.two_pos _
  | operator => exact operator_length_pos _

theorem templateLength_pos {c : Char} {rest : List Char} (hend : (c == '\x60') = false)
    (hopen : (c == '$' && rest.head? == some '{') = false) : 0 < templateLength (c :: rest) := by
  unfold templateLength
  split
  · rename_i heq
    exact absurd heq (by simp)
  · exact Nat.one_pos
  · exact Nat.succ_pos _
  · rename_i heq
    obtain ⟨rfl, rfl⟩ := List.cons.inj heq
    rw [hend, hopen]
    exact Nat.succ_pos _

theorem scanTemplate_length_pos (s : LexState) (start : Nat) (c : Char) (rest : List Char) :
    0 < (scanTemplate s start c rest).lexeme.length := by
  unfold scanTemplate
  split
  · exact Nat.one_pos
  rename_i hend
  split
  · exact Nat.two_pos
  rename_i hopen
  exact templateLength_pos (Bool.eq_false_iff.mpr hend) (Bool.eq_false_iff.mpr hopen)

theorem scanAttributes_length_pos (s : LexState) (region : Region) (pos : Nat) (c : Char)
    (rest : List Char) : 0 < (scanAttributes s region pos c rest).lexeme.length := by
  unfold scanAttributes
  split
  · rename_i hspace
    exact (whitespace?_trivia hspace).2
  split
  · exact Nat.one_pos
  split
  · exact Nat.two_pos
  split
  · exact Nat.one_pos
  split
  · exact Stylesheet.quotedLiteral_length_pos ..
  split
  · exact Nat.one_pos
  · exact Nat.lt_of_lt_of_le Nat.one_pos (Nat.le_add_right _ _)

theorem scanChildren_length_pos (s : LexState) (region : Region) (pos : Nat) (c : Char)
    (rest : List Char) : 0 < (scanChildren s region pos c rest).lexeme.length := by
  unfold scanChildren
  split
  · exact Nat.one_pos
  split
  · exact Nat.lt_of_lt_of_le Nat.two_pos (Nat.le_add_right _ _)
  split
  · exact openTag_length_pos ..
  split
  · rename_i hspace
    exact (whitespace?_trivia hspace).2
  · exact Nat.lt_of_lt_of_le Nat.one_pos (Nat.le_add_right _ _)

theorem scanEndTag_length_pos (detail : Detail) (s : LexState) (region : Region) (name : String)
    (start pos : Nat) (c : Char) (rest : List Char) :
    0 < (scanEndTag detail s region name start pos c rest).lexeme.length := by
  unfold scanEndTag
  split
  · exact Nat.one_pos
  split
  · rename_i hspace
    exact (whitespace?_trivia hspace).2
  · show 0 < (scanResumed detail s region pos c rest).lexeme.length
    unfold scanResumed
    split
    · exact scanCode_length_pos ..
    · exact scanChildren_length_pos ..

/-- One look at a script names one piece, which takes up text. -/
theorem scan_single (detail : Detail) (s : LexState) (pos : Nat) (c : Char) (rest : List Char) :
    ∃ l, (scan detail s pos (c :: rest)).lexemes = [l] ∧ 0 < l.length := by
  refine ⟨_, rfl, ?_⟩
  cases s.mode with
  | code => exact scanCode_length_pos ..
  | template start => exact scanTemplate_length_pos ..
  | attributes region => exact scanAttributes_length_pos ..
  | children region => exact scanChildren_length_pos ..
  | endTag region name start => exact scanEndTag_length_pos ..

/-- **No token of a script is empty.** -/
theorem lex_nonempty (detail : Detail) (pos : Nat) (text : List Char) :
    ∀ t ∈ (lex detail pos text).tokens, t.start < t.stop := by
  intro t ht
  obtain ⟨s, pos, text, htext, ht⟩ :=
    (scanner detail).exists_of_mem_run ((Lexing.keep_sublist _ detail).subset ht)
  obtain ⟨c, rest, rfl⟩ := List.exists_cons_of_ne_nil htext
  obtain ⟨l, hl, hlength⟩ := scan_single detail s pos c rest
  rw [show ((scanner detail).scan s pos (c :: rest)) = scan detail s pos (c :: rest) from rfl,
    Scan.cut_single hl hlength, List.mem_singleton] at ht
  rw [ht]
  exact Lexeme.token_start_lt hlength pos c rest

end Script

end SourceView
