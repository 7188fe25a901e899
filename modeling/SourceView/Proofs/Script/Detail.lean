/-
A structural run over a script keeps the boundaries of the rich one.

What a slash, an angle bracket or a brace means depends on the state, and a structural run
does not ask what a word is.  It takes every word for an identifier, though, and so remembers
it as a word just as a rich run does.  Step by step the two leave the same state.
-/
import SourceView.Proofs.Lexing.Kept
import SourceView.Proofs.Script.Steps
import SourceView.Proofs.Lexing.Runs

namespace SourceView.Script

open Lexing

/-! ### Words -/

namespace LexState

theorem not_isInsignificant_of_isWord {kind : TokenKind} (h : isWord kind = true) :
    isInsignificant kind = false := by
  revert h
  cases kind <;> decide

theorem not_isStructural_of_isWord {kind : TokenKind} (h : isWord kind = true) :
    kind.isStructural = false := by
  revert h
  cases kind <;> decide

/-- Which word a piece is makes no difference to the memory of it. -/
theorem remember_word {kind kind' : TokenKind} (h : isWord kind = true) (h' : isWord kind' = true)
    (s : LexState) (piece : List Char) : s.remember kind piece = s.remember kind' piece := by
  simp only [remember, h, h', not_isInsignificant_of_isWord]

end LexState

theorem wordKind_isWord (afterMember : Bool) (text rest : List Char) :
    LexState.isWord (wordKind afterMember text rest).1 = true := by
  unfold wordKind
  grind [LexState.isWord]

theorem word_isWord (detail : Detail) (s : LexState) (first : Nat) (text : List Char) :
    LexState.isWord (word detail s first text).kind = true := by
  cases detail with
  | rich => exact wordKind_isWord ..
  | structural => rfl

theorem word_length (detail : Detail) (s : LexState) (first : Nat) (text : List Char) :
    (word detail s first text).length = first + countWhile isNameChar (text.drop first) := by
  cases detail <;> rfl

/-! ### Steps -/

/-- Two steps take the same piece, or words of one length, and leave the same state. -/
structure Step.Alike (a b : Step) : Prop where
  lexeme : a.lexeme = b.lexeme
    ∨ LexState.isWord a.lexeme.kind = true ∧ LexState.isWord b.lexeme.kind = true
      ∧ a.lexeme.length = b.lexeme.length
  state : a.state = b.state
  faults : a.faults = b.faults

namespace Step.Alike

theorem refl (a : Step) : a.Alike a :=
  ⟨Or.inl rfl, rfl, rfl⟩

theorem ite {p : Prop} [Decidable p] {a b c d : Step} (hac : a.Alike c) (hbd : b.Alike d) :
    Step.Alike (if p then a else b) (if p then c else d) := by
  by_cases h : p
  · rw [if_pos h, if_pos h]
    exact hac
  · rw [if_neg h, if_neg h]
    exact hbd

theorem lexeme_alike {a b : Step} (h : a.Alike b) : a.lexeme.Alike b.lexeme := by
  rcases h.lexeme with heq | ⟨ha, hb, hlength⟩
  · exact Or.inl heq
  · exact Or.inr ⟨LexState.not_isStructural_of_isWord ha, LexState.not_isStructural_of_isWord hb,
      hlength⟩

/-- After alike steps the same is remembered. -/
theorem remember_eq {a b : Step} (h : a.Alike b) (text : List Char) :
    a.state.remember a.lexeme.kind (text.take a.lexeme.length)
      = b.state.remember b.lexeme.kind (text.take b.lexeme.length) := by
  rw [h.state, h.lexeme_alike.length_eq]
  rcases h.lexeme with heq | ⟨ha, hb, -⟩
  · rw [heq]
  · exact LexState.remember_word ha hb b.state _

/-- Looks that are alike steps are alike looks. -/
theorem scan {a b : Step} (h : a.Alike b) (text : List Char) :
    Scan.Alike
      { lexemes := [a.lexeme]
        state := a.state.remember a.lexeme.kind (text.take a.lexeme.length)
        faults := a.faults }
      { lexemes := [b.lexeme]
        state := b.state.remember b.lexeme.kind (text.take b.lexeme.length)
        faults := b.faults } where
  lexemes := .cons h.lexeme_alike .nil
  state := h.remember_eq text
  faults := h.faults

end Step.Alike

variable (detail detail' : Detail)

theorem word_alike (s : LexState) (first : Nat) (text : List Char) :
    Step.Alike { lexeme := word detail s first text, state := s }
      { lexeme := word detail' s first text, state := s } where
  lexeme := Or.inr ⟨word_isWord .., word_isWord .., by rw [word_length, word_length]⟩
  state := rfl
  faults := rfl

theorem scanCode_alike (s : LexState) (pos : Nat) (c : Char) (rest : List Char) :
    (scanCode detail s pos c rest).Alike (scanCode detail' s pos c rest) := by
  unfold scanCode
  cases whitespace? (c :: rest) with
  | some l => exact .refl _
  | none =>
      refine .ite (.refl _) <| .ite (.refl _) <| .ite (.refl _) <| .ite (.refl _) <|
        .ite (.refl _) ?_
      cases bracket? c with
      | some kind => exact .refl _
      | none =>
          exact .ite (.refl _) <| .ite (.refl _) <| .ite (word_alike ..) <| .ite (word_alike ..) <|
            .ite (.refl _) (.refl _)

theorem scanResumed_alike (s : LexState) (region : Region) (pos : Nat) (c : Char)
    (rest : List Char) :
    (scanResumed detail s region pos c rest).Alike (scanResumed detail' s region pos c rest) :=
  .ite (scanCode_alike ..) (.refl _)

theorem scanEndTag_alike (s : LexState) (region : Region) (name : String) (start pos : Nat)
    (c : Char) (rest : List Char) :
    (scanEndTag detail s region name start pos c rest).Alike
      (scanEndTag detail' s region name start pos c rest) := by
  refine .ite (.refl _) ?_
  cases whitespace? (c :: rest) with
  | some l => exact .refl _
  | none =>
      have hresumed := scanResumed_alike detail detail' s region pos c rest
      exact ⟨hresumed.lexeme, hresumed.state, congrArg (_ :: ·) hresumed.faults⟩

/-- **One look leaves the same state at either detail**, and names the same piece unless it
is a word. -/
theorem scan_alike (s : LexState) (pos : Nat) (text : List Char) :
    (scan detail s pos text).Alike (scan detail' s pos text) := by
  cases text with
  | nil => exact ⟨.nil, rfl, rfl⟩
  | cons c rest =>
      refine Step.Alike.scan ?_ (c :: rest)
      cases s.mode with
      | code => exact scanCode_alike ..
      | endTag => exact scanEndTag_alike ..
      | template | attributes | children => exact .refl _

/-! ### Runs -/

/-- What is kept of a run from any state does not depend on its detail. -/
theorem kept_detail (s : LexState) (pos : Nat) (text : List Char) :
    (scanner detail).kept s pos text = (scanner detail').kept s pos text := by
  apply Scanner.kept_congr
  · intro s pos
    rfl
  · intro s pos text htext
    exact Scanner.kept_eq_of_alike htext (scan_alike detail detail' s pos text)

/-- A structural run keeps of a script what a rich run does. -/
theorem lex_structural (pos : Nat) (text : List Char) :
    lex .structural pos text = (lex .rich pos text).keep .structural :=
  kept_detail .structural .rich {} pos text

end SourceView.Script

namespace SourceView

/-- **The boundaries of a script do not depend on the detail.**  The tokens of a structural
run are those of the rich run whose kind bounds something, whole and in the same order, and
both runs find the same faults. -/
theorem Language.script_boundaries_agree (embed : Bool) (source : List Char) (start : Nat)
    (stop : Option Nat) :
    (script.lex .structural embed source start stop).tokens
        = (script.lex .rich embed source start stop).tokens.filter (·.kind.isStructural)
      ∧ (script.lex .structural embed source start stop).faults
        = (script.lex .rich embed source start stop).faults := by
  have hkept : script.lex .structural embed source start stop
      = (script.lex .rich embed source start stop).keep .structural := by
    rw [lex_script, lex_script]
    exact Script.lex_structural start (boundedText source start stop)
  rw [hkept]
  exact ⟨rfl, rfl⟩

end SourceView
