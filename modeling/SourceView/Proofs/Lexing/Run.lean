/-
What a run does, whatever its scanner.

A run counts the characters that a scan has spoken for one by one.  Its meaning is simpler:
a look at the text ahead, the pieces it names cut off, and the run over what is left.
`run_eq` is that equation and `run_induction` the induction that goes with it; nothing after
this file counts characters.

From the equation alone the tokens of a run lie side by side from the offset at which it
begins to the end of its text, and each spells its part.
-/
import SourceView.Proofs.Lexing.Ahead
import SourceView.Proofs.Lexing.Spans

namespace SourceView

variable {σ : Type}

/-! ### Pieces -/

namespace Lexeme

theorem width_append (ls ms : List Lexeme) : width (ls ++ ms) = width ls + width ms := by
  induction ls with
  | nil => simp [width]
  | cons l ls ih => simp [width, ih, Nat.add_assoc]

/-- The tokens that pieces cut off lie side by side. -/
theorem cut_tile (ls : List Lexeme) (pos : Nat) (text : List Char) :
    Token.Tile pos (pos + (text.take (width ls)).length : Nat) (cut pos text ls) := by
  induction ls generalizing pos text with
  | nil => simp [cut, width, Token.Laid]
  | cons l ls ih =>
      have hrest := ih (pos + (text.take l.length).length) (text.drop l.length)
      have hend : pos + (text.take (width (l :: ls))).length
          = pos + (text.take l.length).length
            + ((text.drop l.length).take (width ls)).length := by
        rw [width, List.take_add, List.length_append, Nat.add_assoc]
      rw [cut, hend]
      exact ⟨rfl, Int.ofNat_le.mpr (Nat.le_add_right _ _), hrest⟩

/-- A piece spells the text that it is cut from. -/
theorem token_spells {source text : List Char} {pos : Nat} (l : Lexeme)
    (htext : text <+: source.drop pos) : (l.token pos text).Spells source := by
  obtain ⟨rest, hrest⟩ := htext
  have hlen : (text.take l.length).length = min l.length text.length := List.length_take ..
  show (String.ofList (text.take l.length)).toList
    = Text.slice source (pos : Int) (pos + (text.take l.length).length : Nat)
  rw [String.toList_ofList, Text.slice_ofNat, ← hrest, Nat.add_sub_cancel_left, hlen,
    List.take_append_of_le_length (Nat.min_le_right _ _), ← List.take_eq_take_min]

theorem prefix_drop {source text : List Char} {pos n : Nat}
    (htext : text <+: source.drop pos) :
    text.drop n <+: source.drop (pos + (text.take n).length) := by
  obtain ⟨rest, hrest⟩ := htext
  by_cases hn : n ≤ text.length
  · refine ⟨rest, ?_⟩
    rw [List.length_take, Nat.min_eq_left hn, ← List.drop_drop, ← hrest,
      List.drop_append_of_le_length hn]
  · rw [List.drop_eq_nil_of_le (Nat.le_of_not_le hn)]
    exact List.nil_prefix

theorem token_start_lt {l : Lexeme} (hl : 0 < l.length) (pos : Nat) (c : Char) (rest : List Char) :
    (l.token pos (c :: rest)).start < (l.token pos (c :: rest)).stop := by
  show (pos : Int) < (pos + ((c :: rest).take l.length).length : Nat)
  rw [List.length_take, List.length_cons]
  omega

/-- What holds of every token that a piece may cut from some place of the source holds of
every token that pieces cut off. -/
theorem cut_forall {P : Token → Prop} {source : List Char} {ls : List Lexeme}
    (h : ∀ l ∈ ls, ∀ pos text, text <+: source.drop pos → P (l.token pos text)) (pos : Nat)
    (text : List Char) (htext : text <+: source.drop pos) : ∀ t ∈ cut pos text ls, P t := by
  induction ls generalizing pos text with
  | nil => simp [cut]
  | cons l ls ih =>
      intro t ht
      rw [cut, List.mem_cons] at ht
      rcases ht with rfl | ht
      · exact h l (by simp) pos text htext
      · exact ih (fun m hm => h m (by simp [hm])) _ _ (prefix_drop htext) t ht

/-- Every token that pieces cut off is cut along one of them. -/
theorem exists_of_mem_cut {ls : List Lexeme} {pos : Nat} {text : List Char} {t : Token}
    (ht : t ∈ cut pos text ls) : ∃ l ∈ ls, ∃ pos text, t = l.token pos text := by
  induction ls generalizing pos text with
  | nil => exact absurd ht (by simp [cut])
  | cons l ls ih =>
      rw [cut, List.mem_cons] at ht
      rcases ht with rfl | ht
      · exact ⟨l, by simp, pos, text, rfl⟩
      · obtain ⟨m, hm, hcut⟩ := ih ht
        exact ⟨m, by simp [hm], hcut⟩

theorem cut_append (ls ms : List Lexeme) (pos : Nat) (text : List Char) :
    cut pos text (ls ++ ms) = cut pos text ls
      ++ cut (pos + (text.take (width ls)).length) (text.drop (width ls)) ms := by
  induction ls generalizing pos text with
  | nil => simp [cut, width]
  | cons l ls ih =>
      have hend : pos + (text.take l.length).length
          + ((text.drop l.length).take (width ls)).length
          = pos + (text.take (width (l :: ls))).length := by
        rw [width, List.take_add, List.length_append, Nat.add_assoc]
      rw [List.cons_append, cut, ih, List.drop_drop, hend, width]
      rfl

end Lexeme

/-- A scan that names no character is given one. -/
theorem Scan.width_pieces_pos (s : Scan σ) : 0 < Lexeme.width s.pieces := by
  unfold Scan.pieces
  by_cases h : Lexeme.width s.lexemes = 0
  · rw [if_pos h, Lexeme.width_append, h]
    exact Nat.zero_lt_one
  · rw [if_neg h]
    exact Nat.pos_of_ne_zero h

/-- The pieces of a scan are those it names and at most one unknown character. -/
theorem Scan.mem_pieces {s : Scan σ} {l : Lexeme} (h : l ∈ s.pieces) :
    l ∈ s.lexemes ∨ l = Lexeme.unknown := by
  unfold Scan.pieces at h
  by_cases hw : Lexeme.width s.lexemes = 0
  · rw [if_pos hw, List.mem_append, List.mem_singleton] at h
    exact h
  · rw [if_neg hw] at h
    exact Or.inl h

theorem Scan.pieces_single {l : Lexeme} (hl : 0 < l.length) (state : σ) (faults : List Fault) :
    Scan.pieces ⟨[l], state, faults⟩ = [l] := by
  rw [Scan.pieces, if_neg]
  simp only [Lexeme.width]
  omega

/-- A scan that names one piece has that piece first, and behind it at most an unknown
character. -/
theorem Scan.cut_pieces {s : Scan σ} {l : Lexeme} (h : s.lexemes = [l]) (pos : Nat)
    (text : List Char) :
    ∃ more, Lexeme.cut pos text s.pieces = l.token pos text :: more
      ∧ (∀ t ∈ more, t.kind = .unknown) ∧ (0 < l.length → more = []) := by
  unfold Scan.pieces
  by_cases hw : Lexeme.width s.lexemes = 0
  · rw [if_pos hw, h]
    refine ⟨_, rfl, ?_, fun hpos => ?_⟩
    · simp [Lexeme.cut, Lexeme.token, Lexeme.unknown]
    · rw [h] at hw
      simp only [Lexeme.width] at hw
      omega
  · rw [if_neg hw, h]
    exact ⟨[], rfl, by simp, fun _ => rfl⟩

theorem Scan.cut_single {s : Scan σ} {l : Lexeme} (h : s.lexemes = [l]) (hl : 0 < l.length)
    (pos : Nat) (text : List Char) : Lexeme.cut pos text s.pieces = [l.token pos text] := by
  obtain ⟨more, hcut, -, hmore⟩ := Scan.cut_pieces h pos text
  rw [hcut, hmore hl]

/-! ### Runs -/

namespace Scanner

variable (scanner : Scanner σ)

/-- Characters that are spoken for are passed over. -/
theorem run_skip (skip : Nat) (state : σ) (pos : Nat) (text : List Char) :
    scanner.run skip state pos text
      = scanner.run 0 state (pos + (text.take skip).length) (text.drop skip) := by
  induction text generalizing skip pos with
  | nil => cases skip <;> simp [run]
  | cons c rest ih =>
      cases skip with
      | zero => simp
      | succ skip =>
          rw [run, ih, List.take_succ_cons, List.length_cons, List.drop_succ_cons]
          congr 1
          omega

/-- A run is a look at the text ahead, its pieces cut off, and the run over what is left. -/
theorem run_eq (state : σ) (pos : Nat) {text : List Char} (htext : text ≠ []) :
    scanner.run 0 state pos text =
      let scan := scanner.scan state pos text
      let n := Lexeme.width scan.pieces
      let rest := scanner.run 0 scan.state (pos + (text.take n).length) (text.drop n)
      ⟨Lexeme.cut pos text scan.pieces ++ rest.tokens, scan.faults ++ rest.faults⟩ := by
  cases text with
  | nil => exact absurd rfl htext
  | cons c rest =>
      have hpos := (scanner.scan state pos (c :: rest)).width_pieces_pos
      obtain ⟨n, hn⟩ := Nat.exists_eq_add_one_of_ne_zero (Nat.ne_of_gt hpos)
      rw [run]
      simp only [hn, Nat.add_sub_cancel, List.take_succ_cons, List.length_cons,
        List.drop_succ_cons]
      rw [run_skip, Nat.add_assoc pos 1, Nat.add_comm 1]

/-- What holds at the end of the text, and of a scan once it holds of what is left, holds of
every run. -/
theorem run_induction {motive : σ → Nat → List Char → Lexing → Prop}
    (done : ∀ state pos, motive state pos [] ⟨[], scanner.finish state pos⟩)
    (step : ∀ state pos text, text ≠ [] → ∀ rest,
      motive (scanner.scan state pos text).state
        (pos + (text.take (Lexeme.width (scanner.scan state pos text).pieces)).length)
        (text.drop (Lexeme.width (scanner.scan state pos text).pieces)) rest →
      motive state pos text
        ⟨Lexeme.cut pos text (scanner.scan state pos text).pieces ++ rest.tokens,
          (scanner.scan state pos text).faults ++ rest.faults⟩)
    (state : σ) (pos : Nat) (text : List Char) :
    motive state pos text (scanner.run 0 state pos text) := by
  generalize hn : text.length = n
  induction n using Nat.strongRecOn generalizing state pos text with
  | ind n ih =>
      by_cases htext : text = []
      · subst htext
        exact done state pos
      · have hpos := (scanner.scan state pos text).width_pieces_pos
        have hlen := List.length_pos_iff.mpr htext
        rw [scanner.run_eq state pos htext]
        refine step state pos text htext _ (ih _ ?_ _ _ _ rfl)
        rw [List.length_drop]
        omega

/-- **The tokens of a run lie side by side over its whole text.** -/
theorem run_tile (state : σ) (pos : Nat) (text : List Char) :
    Token.Tile pos (pos + text.length : Nat) (scanner.run 0 state pos text).tokens := by
  induction state, pos, text using scanner.run_induction with
  | done state pos => simp [Token.Laid]
  | step state pos text htext rest ih =>
      have hcut := Lexeme.cut_tile (scanner.scan state pos text).pieces pos text
      have hend : pos + text.length
          = pos + (text.take (Lexeme.width (scanner.scan state pos text).pieces)).length
            + (text.drop (Lexeme.width (scanner.scan state pos text).pieces)).length := by
        rw [List.length_take, List.length_drop]
        omega
      rw [hend]
      exact Token.Tile.append hcut ih

/-- Every token of a run is cut off at some look. -/
theorem exists_of_mem_run {state : σ} {pos : Nat} {text : List Char} {t : Token}
    (ht : t ∈ (scanner.run 0 state pos text).tokens) :
    ∃ state pos text, text ≠ [] ∧ t ∈ Lexeme.cut pos text (scanner.scan state pos text).pieces := by
  induction state, pos, text using scanner.run_induction with
  | done state pos => exact absurd ht (by simp)
  | step state pos text htext rest ih =>
      rcases List.mem_append.mp ht with ht | ht
      · exact ⟨state, pos, text, htext, ht⟩
      · exact ih ht

/-- What holds of every token that a scan may cut off holds of every token of a run. -/
theorem run_forall {P : Token → Prop} {source : List Char}
    (hscan : ∀ state pos text, text <+: source.drop pos →
      ∀ t ∈ Lexeme.cut pos text (scanner.scan state pos text).pieces, P t)
    (state : σ) (pos : Nat) (text : List Char) (htext : text <+: source.drop pos) :
    ∀ t ∈ (scanner.run 0 state pos text).tokens, P t := by
  induction state, pos, text using scanner.run_induction with
  | done state pos => simp
  | step state pos text _ rest ih =>
      intro t ht
      rcases List.mem_append.mp ht with ht | ht
      · exact hscan state pos text htext t ht
      · exact ih (Lexeme.prefix_drop htext) t ht

end Scanner

end SourceView
