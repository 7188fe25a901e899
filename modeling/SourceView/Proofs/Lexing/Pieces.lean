/-
Texts that are put together from pieces.

Whoever prints a text knows the pieces that it is made of: their characters, and what the
lexer is to take them for.  The tokens are then known as well, since they lie side by side.
A scanner reads the pieces if it names them one after another and finds nothing wrong,
whatever follows; this is asked for one piece at a time, and what is read in parts is read
as a whole.
-/
import SourceView.Proofs.Lexing.Run

namespace SourceView

/-- A piece of a text: its characters, and what a lexer takes them for. -/
structure Piece where
  kind : TokenKind
  style : String
  text : List Char

namespace Piece

/-- The text that the pieces make. -/
def spell (ps : List Piece) : List Char :=
  ps.flatMap text

/-- What a scanner names the piece by. -/
def lexeme (p : Piece) : Lexeme :=
  { kind := p.kind, length := p.text.length, style := p.style }

/-- The token that the piece is at offset `pos`. -/
def token (p : Piece) (pos : Nat) : Token :=
  { kind := p.kind, value := String.ofList p.text, start := pos, stop := pos + p.text.length
    style := p.style }

/-- The tokens of pieces that lie side by side from offset `pos` on. -/
def tokens (pos : Nat) : List Piece → List Token
  | [] => []
  | p :: ps => p.token pos :: tokens (pos + p.text.length) ps

@[simp] theorem spell_nil : spell [] = [] := rfl

@[simp] theorem spell_cons (p : Piece) (ps : List Piece) :
    spell (p :: ps) = p.text ++ spell ps := rfl

@[simp] theorem spell_append (ps qs : List Piece) : spell (ps ++ qs) = spell ps ++ spell qs := by
  simp [spell]

theorem tokens_append (pos : Nat) (ps qs : List Piece) :
    tokens pos (ps ++ qs) = tokens pos ps ++ tokens (pos + (spell ps).length) qs := by
  induction ps generalizing pos with
  | nil => rfl
  | cons p ps ih =>
      rw [List.cons_append, tokens, tokens, ih, spell_cons, List.length_append, List.cons_append,
        Nat.add_assoc]

@[simp] theorem length_tokens (pos : Nat) (ps : List Piece) : (tokens pos ps).length = ps.length := by
  induction ps generalizing pos with
  | nil => rfl
  | cons p ps ih => simp [tokens, ih]

/-- The token of a piece is the one that its lexeme cuts off. -/
theorem token_lexeme (p : Piece) (pos : Nat) (rest : List Char) :
    p.lexeme.token pos (p.text ++ rest) = p.token pos := by
  simp [Lexeme.token, lexeme, token]

/-- Each token of pieces spells its part of the text that they make. -/
theorem spells_of_mem_tokens {before : List Char} {ps : List Piece} {t : Token}
    (ht : t ∈ tokens before.length ps) : t.Spells (before ++ spell ps) := by
  induction ps generalizing before with
  | nil => exact absurd ht List.not_mem_nil
  | cons p ps ih =>
      rw [tokens, List.mem_cons] at ht
      rcases ht with rfl | ht
      · show (String.ofList p.text).toList = Text.slice _ (before.length : Int)
          (before.length + p.text.length : Nat)
        rw [String.toList_ofList, Text.slice_ofNat, Nat.add_sub_cancel_left, List.drop_left, spell_cons,
          List.take_left]
      · rw [← List.length_append] at ht
        rw [spell_cons, ← List.append_assoc]
        exact ih ht

end Piece

/-- A run of characters ends where one comes that does not belong to it. -/
theorem Lexing.takeWhile_append_of_head {p : Char → Bool} {cs rest : List Char}
    (hcs : ∀ c ∈ cs, p c = true) (hrest : rest.head?.any p = false) :
    (cs ++ rest).takeWhile p = cs := by
  rw [List.takeWhile_append_of_pos hcs]
  cases rest with
  | nil => simp
  | cons c rest =>
      have hc : p c = false := hrest
      rw [List.takeWhile_cons, hc]
      simp

namespace Scanner

open Piece

variable {σ : Type} {scanner : Scanner σ} {s s' s'' : σ} {pos : Nat} {p : Piece}
  {ps qs : List Piece} {rest : List Char}

/-- From one state the scanner reads the pieces before `rest`, finds nothing wrong with them
and is in another state. -/
def Reads (scanner : Scanner σ) (s : σ) (pos : Nat) (ps : List Piece) (rest : List Char)
    (s' : σ) : Prop :=
  scanner.run 0 s pos (spell ps ++ rest) =
    let after := scanner.run 0 s' (pos + (spell ps).length) rest
    ⟨tokens pos ps ++ after.tokens, after.faults⟩

theorem Reads.nil : scanner.Reads s pos [] rest s := rfl

/-- One look suffices for one piece. -/
theorem Reads.piece (hne : p.text ≠ [])
    (hscan : scanner.scan s pos (p.text ++ rest) = ⟨[p.lexeme], s', []⟩) :
    scanner.Reads s pos [p] rest s' := by
  have hlen : 0 < p.lexeme.length := List.length_pos_iff.mpr hne
  have hwidth : Lexeme.width [p.lexeme] = p.text.length := rfl
  show scanner.run 0 s pos (p.text ++ [] ++ rest) = _
  rw [List.append_nil, scanner.run_eq s pos (List.append_ne_nil_of_left_ne_nil hne rest), hscan]
  simp only [Scan.pieces_single hlen, hwidth, List.take_left, List.drop_left, Lexeme.cut,
    token_lexeme, tokens, spell_cons, spell_nil, List.append_nil, List.nil_append]

theorem Reads.append (hps : scanner.Reads s pos ps (spell qs ++ rest) s')
    (hqs : scanner.Reads s' (pos + (spell ps).length) qs rest s'') :
    scanner.Reads s pos (ps ++ qs) rest s'' := by
  unfold Reads at *
  rw [spell_append, List.append_assoc, hps]
  simp only [hqs, tokens_append, List.append_assoc, List.length_append, Nat.add_assoc]

theorem Reads.cons (hne : p.text ≠ [])
    (hscan : scanner.scan s pos (p.text ++ (spell ps ++ rest)) = ⟨[p.lexeme], s', []⟩)
    (hps : scanner.Reads s' (pos + p.text.length) ps rest s'') :
    scanner.Reads s pos (p :: ps) rest s'' := by
  refine Reads.append (Reads.piece hne hscan) ?_
  rw [spell_cons, spell_nil, List.append_nil]
  exact hps

/-- A text that the scanner reads to its end has the tokens of its pieces, and the faults of
the state at the end. -/
theorem Reads.run_eq (h : scanner.Reads s pos ps [] s') :
    scanner.run 0 s pos (spell ps)
      = ⟨tokens pos ps, scanner.finish s' (pos + (spell ps).length)⟩ := by
  unfold Reads at h
  rw [List.append_nil] at h
  rw [h]
  simp [run]

end Scanner

end SourceView
