/-
Tokens that bound something are not empty.

A scanner may name an empty piece, but never one of a kind that bounds anything: such a piece
has at least the character that gives it away.  And a look is taken only where text is left, of
which all pieces but the last leave some, so that character is there.
-/
import SourceView.Proofs.Lexing.Starts
import SourceView.Proofs.Markup.Boundaries
import SourceView.Proofs.Script.Pieces
import SourceView.Proofs.Stylesheet.Boundaries

namespace SourceView

open Lexing

variable {σ : Type}

/-- If the token bounds something, it is not empty. -/
def Token.Solid (t : Token) : Prop :=
  t.kind.isStructural = true → t.start < t.stop

/-- If the piece bounds something, it is not empty. -/
def Lexeme.Solid (l : Lexeme) : Prop :=
  l.kind.isStructural = false ∨ 0 < l.length

/-- The pieces of the scan that bound something are not empty. -/
def Scan.Solid (s : Scan σ) : Prop :=
  ∀ l ∈ s.lexemes, l.Solid

theorem Lexeme.Solid.of_filler {l : Lexeme} (h : l.kind.isStructural = false) : l.Solid :=
  Or.inl h

theorem Lexeme.Solid.of_length {l : Lexeme} (h : 0 < l.length) : l.Solid :=
  Or.inr h

/-! ### Any scanner -/

theorem Lexeme.solid_of_mem_cut {ls : List Lexeme} (hls : ∀ l ∈ ls, l.Solid) (pos : Nat)
    (text : List Char) (h : width ls.dropLast < text.length) :
    ∀ t ∈ cut pos text ls, t.Solid := by
  induction ls generalizing pos text with
  | nil => simp [cut]
  | cons l ls ih =>
      intro t ht
      rw [cut, List.mem_cons] at ht
      rcases ht with rfl | ht
      · intro hkind
        have hl := (hls l (by simp)).resolve_left
          (by simp [show l.kind.isStructural = true from hkind])
        show (pos : Int) < (pos + (text.take l.length).length : Nat)
        rw [List.length_take]
        omega
      cases ls with
      | nil => exact absurd ht (by simp [cut])
      | cons m ms =>
          rw [List.dropLast_cons_cons, width] at h
          refine ih (fun l hl => hls l (List.mem_cons_of_mem _ hl)) _ _ ?_ t ht
          rw [List.length_drop]
          omega

theorem Scan.Solid.pieces {s : Scan σ} (h : s.Solid) : ∀ l ∈ s.pieces, l.Solid := by
  intro l hl
  rcases Scan.mem_pieces hl with hl | rfl
  · exact h l hl
  · exact .of_filler rfl

theorem Scan.Solid.ite {p : Prop} [Decidable p] {a b : Scan σ} (ha : a.Solid) (hb : b.Solid) :
    (if p then a else b).Solid := by
  by_cases h : p
  · rw [if_pos h]; exact ha
  · rw [if_neg h]; exact hb

theorem Scan.Solid.single {l : Lexeme} (h : l.Solid) (state : σ) (faults : List Fault) :
    Scan.Solid ⟨[l], state, faults⟩ := by
  intro m hm
  rw [List.mem_singleton.mp hm]
  exact h

theorem Scan.Solid.filler {l : Lexeme} (h : l.kind.isStructural = false) (state : σ)
    (faults : List Fault) : Scan.Solid ⟨[l], state, faults⟩ :=
  .single (.of_filler h) state faults

/-- A run finds no empty boundary if no look does, and each leaves some text to its last
piece. -/
theorem Scanner.run_solid {scanner : Scanner σ}
    (hscan : ∀ state pos c rest, (scanner.scan state pos (c :: rest)).Solid)
    (hleaves : ∀ state pos c rest, (scanner.scan state pos (c :: rest)).Leaves (c :: rest))
    (detail : Detail) (state : σ) (pos : Nat) (text : List Char) :
    ∀ t ∈ ((scanner.run 0 state pos text).keep detail).tokens, t.Solid := by
  intro t ht
  obtain ⟨state, pos, text, htext, ht⟩ :=
    scanner.exists_of_mem_run ((Lexing.keep_sublist _ detail).subset ht)
  obtain ⟨c, rest, rfl⟩ := List.exists_cons_of_ne_nil htext
  exact Lexeme.solid_of_mem_cut (hscan state pos c rest).pieces pos _
    (hleaves state pos c rest).pieces t ht

theorem Lexing.quotedLiteral_solid (kind : TokenKind) (style what : String) (multiline : Bool)
    (quote : Char) (pos : Nat) (rest : List Char) :
    (quotedLiteral kind style what multiline quote pos rest).1.Solid :=
  .of_length (Stylesheet.quotedLiteral_length_pos ..)

theorem Lexing.whitespace?_solid {text : List Char} {l : Lexeme} (h : whitespace? text = some l) :
    l.Solid := by
  have hkind := (whitespace?_trivia h).1
  refine .of_filler ?_
  revert hkind
  cases l.kind <;> decide

/-! ### Stylesheets -/

namespace Stylesheet

theorem scanColon_solid (s : LexState) (rest : List Char) : (scanColon s rest).Solid :=
  .ite (.filler rfl _ _) (.filler rfl _ _)

theorem scanHash_solid (s : LexState) (rest : List Char) : (scanHash s rest).Solid := by
  refine .filler ?_ _ _
  grind [TokenKind.isStructural, Lexeme.unknown]

theorem number_solid (text : List Char) : (number text).Solid := by
  refine .of_filler ?_
  unfold number
  grind [TokenKind.isStructural]

theorem urlBody_solid (text : List Char) : ∀ l ∈ urlBody text, l.Solid := by
  intro l hl
  refine .of_filler ?_
  unfold urlBody at hl
  grind [TokenKind.isStructural]

theorem scanWord_solid (s : LexState) (text : List Char) : (scanWord s text).Solid := by
  refine .ite ?_ (.filler (wordKind_filler ..) _ _)
  refine List.forall_mem_cons.mpr ⟨.of_filler rfl, List.forall_mem_cons.mpr
    ⟨.of_length Nat.one_pos, ?_⟩⟩
  split
  · exact urlBody_solid _
  · simp

theorem scanInStatement_solid (s : LexState) (pos : Nat) (c : Char) (rest : List Char) :
    (scanInStatement s pos c rest).Solid :=
  .ite (.single (quotedLiteral_solid ..) _ _) <| .ite (.filler rfl _ _) <|
  .ite (.ite (.filler rfl _ _) (.filler rfl _ _)) <| .ite (scanColon_solid s rest) <|
  .ite (scanHash_solid s rest) <| .ite (.ite (.filler rfl _ _) (.filler rfl _ _)) <|
  .ite (.single (number_solid _) _ _) <| .ite (.filler rfl _ _) <| .ite (.filler rfl _ _) <|
  .ite (scanWord_solid s _) <| .ite (.filler rfl _ _) (by simp [Scan.Solid])

theorem comment_solid (pos : Nat) (c : Char) (rest : List Char) :
    (delimited .comment "comment" "comment" 2 ['*', '/'] pos (c :: rest)).1.Solid :=
  .of_length (delimited_length_pos _ _ _ Nat.two_pos _ pos (List.cons_ne_nil c rest))

theorem scanRich_solid (s : LexState) (pos : Nat) (c : Char) (rest : List Char) :
    (scanRich s pos (c :: rest)).Solid := by
  simp only [scanRich]
  cases hspace : whitespace? (c :: rest) with
  | some l => exact .single (whitespace?_solid hspace) _ _
  | none =>
      refine .ite (.single (comment_solid pos c rest) _ _) <|
        .ite (.single (.of_length Nat.one_pos) _ _) <|
        .ite (.single (.of_length Nat.one_pos) _ _) <| .ite (.filler rfl _ _) ?_
      cases delimiter? c with
      | some kind => exact .single (.of_length Nat.one_pos) _ _
      | none => exact scanInStatement_solid _ pos c rest

theorem scanStructural_solid (s : Unit) (pos : Nat) (c : Char) (rest : List Char) :
    (scanStructural s pos (c :: rest)).Solid := by
  simp only [scanStructural]
  refine .ite (.single (comment_solid pos c rest) _ _) ?_
  cases delimiter? c with
  | some kind => exact .single (.of_length Nat.one_pos) _ _
  | none => exact .ite (.single (quotedLiteral_solid ..) _ _) (.filler rfl _ _)

theorem lex_solid (detail : Detail) (pos : Nat) (text : List Char) :
    ∀ t ∈ (lex detail pos text).tokens, t.Solid := by
  cases detail with
  | rich => exact richScanner.run_solid scanRich_solid scanRich_leaves .rich {} pos text
  | structural =>
      exact structuralScanner.run_solid scanStructural_solid scanStructural_leaves .structural ()
        pos text

end Stylesheet

/-! ### Scripts -/

namespace Script

theorem lex_solid (detail : Detail) (pos : Nat) (text : List Char) :
    ∀ t ∈ (lex detail pos text).tokens, t.Solid :=
  fun t ht _ => lex_nonempty detail pos text t ht

end Script

/-! ### Markup -/

namespace Markup

theorem region_solid {opener : Nat} (hopener : 0 < opener) (kind : TokenKind) (style what : String)
    (closer : List Char) (pos : Nat) (c : Char) (rest : List Char) :
    (region kind style what opener closer pos (c :: rest)).lexeme.Solid :=
  .of_length (Stylesheet.delimited_length_pos _ _ _ hopener _ pos (List.cons_ne_nil c rest))

theorem scanAngle_solid (pos : Nat) (c : Char) (rest : List Char) :
    (scanAngle pos (c :: rest)).lexeme.Solid := by
  simp only [scanAngle]
  split
  · exact region_solid (by decide) ..
  split
  · exact region_solid (by decide) ..
  split
  · exact region_solid (by decide) ..
  split
  · exact region_solid (by decide) ..
  split
  · exact .of_length (Nat.lt_of_lt_of_le Nat.two_pos (Nat.le_add_right _ _))
  split
  · exact .of_length (Nat.lt_of_lt_of_le Nat.one_pos (Nat.le_add_right _ _))
  · exact .of_filler rfl

theorem characterData_solid (c : Char) (rest : List Char) : (characterData c rest).Solid := by
  unfold characterData
  split
  · split <;> exact .of_filler rfl
  split
  · rename_i l hl
    exact whitespace?_solid hl
  · exact .of_filler rfl

theorem scanContent_solid (detail : Detail) (pos : Nat) (c : Char) (rest : List Char) :
    (scanContent detail pos c rest).lexeme.Solid := by
  unfold scanContent
  split
  · exact scanAngle_solid ..
  · cases detail with
    | rich => exact characterData_solid c rest
    | structural => exact .of_filler rfl

theorem scanAttributes_solid (tag : StartTag) (pos : Nat) (c : Char) (rest : List Char) :
    (scanAttributes tag pos c rest).lexeme.Solid := by
  unfold scanAttributes
  split
  · rename_i l hl
    exact whitespace?_solid hl
  split
  · exact .of_length Nat.one_pos
  split
  · exact .of_length Nat.two_pos
  split
  · exact scanAngle_solid ..
  split
  · exact .of_filler rfl
  split
  · unfold quotedValue
    split <;> exact .of_filler rfl
  split
  · exact .of_filler rfl
  split <;> exact .of_filler rfl

theorem scanEndTag_solid (name : String) (start pos : Nat) (c : Char) (rest : List Char) :
    (scanEndTag name start pos c rest).lexeme.Solid := by
  unfold scanEndTag
  split
  · exact .of_length Nat.one_pos
  split
  · exact scanAngle_solid ..
  split
  · rename_i l hl
    exact whitespace?_solid hl
  · exact .of_filler rfl

theorem scanRawText_solid (surroundings : Surroundings) (tag : StartTag) (pos : Nat) (c : Char)
    (rest : List Char) : (scanRawText surroundings tag pos c rest).lexeme.Solid := by
  simp only [scanRawText]
  split
  · exact scanContent_solid ..
  · rename_i hn
    exact .of_length (Nat.pos_of_ne_zero hn)

theorem scan_solid (surroundings : Surroundings) (mode : Mode) (pos : Nat) (c : Char)
    (rest : List Char) : (scan surroundings mode pos (c :: rest)).Solid := by
  refine .single ?_ _ _
  cases mode with
  | content => exact scanContent_solid ..
  | attributes tag => exact scanAttributes_solid ..
  | endTag name start => exact scanEndTag_solid ..
  | rawText tag => exact scanRawText_solid ..

theorem lex_solid (detail : Detail) (embed : Bool) (source : List Char) (start : Nat)
    (stop : Option Nat) : ∀ t ∈ (lex detail embed source start stop).tokens, t.Solid :=
  (scanner _).run_solid (scan_solid _) (fun _ _ _ _ => .single (Nat.le_refl _)) detail .content
    start _

theorem lexBody_solid (language : String) (detail : Detail) (pos : Nat) (text : List Char) :
    ∀ t ∈ (lexBody language detail pos text).tokens, t.Solid := by
  unfold lexBody
  split
  · exact Stylesheet.lex_solid detail pos text
  split
  · exact Script.lex_solid detail pos text
  · simp

/-- Every token of markup that stands for a region stands for the run over a body. -/
theorem exists_body (detail : Detail) (embed : Bool) (source : List Char) (start : Nat)
    (stop : Option Nat) :
    ∀ t ∈ (lex detail embed source start stop).tokens, t.embedded ≠ [] →
      ∃ language pos text, t.embedded = (lexBody language detail pos text).tokens := by
  intro t ht hne
  obtain ⟨mode, pos, text, -, ht⟩ :=
    (scanner _).exists_of_mem_run ((Lexing.keep_sublist _ detail).subset ht)
  obtain ⟨l, hl, _, _, rfl⟩ := Lexeme.exists_of_mem_cut ht
  rcases Scan.mem_pieces hl with hl | rfl
  · rcases scan_bodyOf _ mode pos text l hl with hnil | ⟨language, hbody⟩
    · exact absurd hnil hne
    · exact ⟨language, pos, _, hbody⟩
  · exact absurd rfl hne

end Markup

/-! ### Languages -/

namespace Language

variable (language : Language) (detail : Detail) (embed : Bool) (source : List Char) (start : Nat)
  (stop : Option Nat)

/-- Tokens of a stylesheet or a script stand for no regions. -/
theorem lex_plain (hmarkup : language ≠ .markup) :
    ∀ t ∈ (language.lex detail embed source start stop).tokens, t.embedded = [] := by
  have htext := boundedText_prefix source start stop
  cases language with
  | markup => exact absurd rfl hmarkup
  | stylesheet =>
      rw [lex_stylesheet]
      exact (Stylesheet.lex_plain detail start htext).embedded
  | script =>
      rw [lex_script]
      exact (Script.lex_plain detail start htext).embedded

/-- Every token that stands for a region stands for the run over a body. -/
theorem exists_body {t : Token} (ht : t ∈ (language.lex detail embed source start stop).tokens)
    (hembedded : t.embedded ≠ []) :
    ∃ body pos text, t.embedded = (Markup.lexBody body detail pos text).tokens := by
  by_cases hmarkup : language = .markup
  · rw [hmarkup, lex_markup] at ht
    exact Markup.exists_body detail embed source start stop t ht hembedded
  · exact absurd (language.lex_plain detail embed source start stop hmarkup t ht) hembedded

/-- **No token that bounds something is empty**, of a run or of a region. -/
theorem lex_solid :
    ∀ t ∈ (language.lex detail embed source start stop).tokens,
      t.Solid ∧ ∀ u ∈ t.embedded, u.Solid := by
  intro t ht
  constructor
  · cases language with
    | markup =>
        rw [lex_markup] at ht
        exact Markup.lex_solid detail embed source start stop t ht
    | stylesheet =>
        rw [lex_stylesheet] at ht
        exact Stylesheet.lex_solid detail start _ t ht
    | script =>
        rw [lex_script] at ht
        exact Script.lex_solid detail start _ t ht
  · by_cases hembedded : t.embedded = []
    · simp [hembedded]
    · obtain ⟨body, pos, text, hbody⟩ :=
        language.exists_body detail embed source start stop ht hembedded
      rw [hbody]
      exact Markup.lexBody_solid body detail pos text

end Language

end SourceView
