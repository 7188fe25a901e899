/-
What a structural run keeps, whatever its scanner.

A run of either detail is filtered the same way; they differ in the looks they take.  Two
looks are alike when they name the same pieces up to those the filter drops, of which only
the lengths must agree.  Looks need not pair up one by one: it is enough that what the second
scanner keeps from any place is what the first look keeps there, followed by what the second
scanner keeps behind it.
-/
import SourceView.Proofs.Lexing.Run
import Mathlib.Data.List.Forall2

namespace SourceView

variable {σ : Type}

/-! ### Pieces -/

namespace Lexeme

/-- Two pieces are the same one, or both are dropped and take as many characters. -/
def Alike (l m : Lexeme) : Prop :=
  l = m ∨ l.kind.isStructural = false ∧ m.kind.isStructural = false ∧ l.length = m.length

theorem Alike.refl (l : Lexeme) : l.Alike l :=
  Or.inl rfl

theorem Alike.length_eq {l m : Lexeme} (h : l.Alike m) : l.length = m.length := by
  rcases h with rfl | ⟨-, -, h⟩
  · rfl
  · exact h

theorem Alike.width_eq {ls ms : List Lexeme} (h : List.Forall₂ Alike ls ms) :
    width ls = width ms := by
  induction h with
  | nil => rfl
  | cons h _ ih => rw [width, width, h.length_eq, ih]

/-- The tokens cut off along alike pieces are the same once the filler is dropped. -/
theorem Alike.filter_cut {ls ms : List Lexeme} (h : List.Forall₂ Alike ls ms) (pos : Nat)
    (text : List Char) :
    (cut pos text ls).filter (·.kind.isStructural)
      = (cut pos text ms).filter (·.kind.isStructural) := by
  induction h generalizing pos text with
  | nil => rfl
  | @cons l m ls ms hhead _ ih =>
      rw [cut, cut, hhead.length_eq]
      rcases hhead with rfl | ⟨hl, hm, -⟩
      · rw [List.filter_cons, List.filter_cons, ih]
      · rw [List.filter_cons_of_neg (by simp [token, hl]),
          List.filter_cons_of_neg (by simp [token, hm]), ih]

/-- Nothing is left of tokens cut off along filler. -/
theorem filter_cut_filler {ls : List Lexeme} (h : ∀ l ∈ ls, l.kind.isStructural = false) (pos : Nat)
    (text : List Char) : (cut pos text ls).filter (·.kind.isStructural) = [] := by
  rw [List.filter_eq_nil_iff]
  intro t ht
  obtain ⟨l, hl, _, _, rfl⟩ := exists_of_mem_cut ht
  simp [token, h l hl]

end Lexeme

/-! ### Looks -/

namespace Scan

/-- Two looks name alike pieces, find the same faults and leave the same state. -/
structure Alike (a b : Scan σ) : Prop where
  lexemes : List.Forall₂ Lexeme.Alike a.lexemes b.lexemes
  state : a.state = b.state
  faults : a.faults = b.faults

theorem Alike.refl (a : Scan σ) : a.Alike a :=
  ⟨List.forall₂_same.mpr fun l _ => .refl l, rfl, rfl⟩

theorem Alike.pieces {a b : Scan σ} (h : a.Alike b) :
    List.Forall₂ Lexeme.Alike a.pieces b.pieces := by
  unfold Scan.pieces
  rw [Lexeme.Alike.width_eq h.lexemes]
  split
  · exact List.rel_append h.lexemes (.cons (.refl _) .nil)
  · exact h.lexemes

/-- What is kept of the pieces of a look and its faults, with `rest` behind them. -/
def keptBefore (scan : Scan σ) (pos : Nat) (text : List Char) (rest : Lexing) : Lexing :=
  ⟨(Lexeme.cut pos text scan.pieces).filter (·.kind.isStructural) ++ rest.tokens,
    scan.faults ++ rest.faults⟩

theorem Alike.keptBefore_eq {a b : Scan σ} (h : a.Alike b) :
    a.keptBefore = b.keptBefore := by
  funext pos text rest
  rw [keptBefore, keptBefore, Lexeme.Alike.filter_cut h.pieces, h.faults]

/-- Of a look at filler nothing is kept. -/
theorem keptBefore_filler {scan : Scan σ} (hpieces : ∀ l ∈ scan.pieces, l.kind.isStructural = false)
    (hfaults : scan.faults = []) (pos : Nat) (text : List Char) (rest : Lexing) :
    scan.keptBefore pos text rest = rest := by
  rw [keptBefore, Lexeme.filter_cut_filler hpieces, hfaults]
  rfl

end Scan

/-! ### Runs -/

namespace Scanner

/-- What is kept of a run. -/
def kept (scanner : Scanner σ) (state : σ) (pos : Nat) (text : List Char) : Lexing :=
  (scanner.run 0 state pos text).keep .structural

theorem kept_nil (scanner : Scanner σ) (state : σ) (pos : Nat) :
    scanner.kept state pos [] = ⟨[], scanner.finish state pos⟩ :=
  rfl

/-- What is kept of a run is what is kept of its first look and of the run behind it. -/
theorem kept_eq (scanner : Scanner σ) (state : σ) (pos : Nat) {text : List Char}
    (htext : text ≠ []) :
    scanner.kept state pos text =
      let scan := scanner.scan state pos text
      let n := Lexeme.width scan.pieces
      scan.keptBefore pos text
        (scanner.kept scan.state (pos + (text.take n).length) (text.drop n)) := by
  rw [kept, scanner.run_eq state pos htext]
  simp only [Lexing.keep, List.filter_append]
  rfl

/-- Of a look at one piece of filler nothing is kept. -/
theorem kept_filler {scanner : Scanner σ} {state next : σ} {pos : Nat} {text : List Char}
    {l : Lexeme} (htext : text ≠ []) (hscan : scanner.scan state pos text = ⟨[l], next, []⟩)
    (hkind : l.kind.isStructural = false) (hl : 0 < l.length) :
    scanner.kept state pos text
      = scanner.kept next (pos + (text.take l.length).length) (text.drop l.length) := by
  have hpieces : Scan.pieces ⟨[l], next, []⟩ = [l] := Scan.pieces_single hl next []
  rw [kept_eq scanner state pos htext]
  simp only [hscan, hpieces, Lexeme.width, Nat.add_zero]
  refine Scan.keptBefore_filler (fun m hm => ?_) rfl pos text _
  rw [hpieces, List.mem_singleton] at hm
  exact hm ▸ hkind

variable {full brief : Scanner σ}

/-- A run keeps what another keeps if from every place it keeps what the other's look there
does and goes on as itself behind it. -/
theorem kept_congr (hfinish : ∀ state pos, brief.finish state pos = full.finish state pos)
    (hstep : ∀ state pos text, text ≠ [] →
      let scan := full.scan state pos text
      let n := Lexeme.width scan.pieces
      brief.kept state pos text = scan.keptBefore pos text
        (brief.kept scan.state (pos + (text.take n).length) (text.drop n)))
    (state : σ) (pos : Nat) (text : List Char) :
    brief.kept state pos text = full.kept state pos text := by
  rw [show full.kept state pos text = (full.run 0 state pos text).keep .structural from rfl]
  induction state, pos, text using full.run_induction with
  | done state pos => rw [kept_nil, hfinish]; rfl
  | step state pos text htext rest ih =>
      rw [hstep state pos text htext, ih]
      simp only [Scan.keptBefore, Lexing.keep, List.filter_append]

/-- Where the looks of two scanners are alike, one keeps there what the other's look does. -/
theorem kept_eq_of_alike {state : σ} {pos : Nat} {text : List Char} (htext : text ≠ [])
    (halike : (brief.scan state pos text).Alike (full.scan state pos text)) :
    let scan := full.scan state pos text
    let n := Lexeme.width scan.pieces
    brief.kept state pos text = scan.keptBefore pos text
      (brief.kept scan.state (pos + (text.take n).length) (text.drop n)) := by
  rw [kept_eq brief state pos htext]
  simp only [halike.keptBefore_eq, halike.state, Lexeme.Alike.width_eq halike.pieces]

end Scanner

end SourceView
