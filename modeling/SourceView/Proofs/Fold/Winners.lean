/-
Which candidates win their lines.

Candidates are considered line by line, the longest of a line first, and a later one takes
over only if its priority is higher.  So what wins a line beats all candidates on it: none is
of higher priority, and none of the same priority is longer.  There is one winner for every
line with candidates, and the winners come in the order of their lines.

Two lists of candidates therefore come down to the same lines as soon as what beats all
others covers the same lines in both.
-/
import Mathlib.Data.List.Sort
import SourceView.Fold.Analysis

namespace SourceView.Fold

namespace Candidate

/-- The candidate `w` is of higher priority than `c`, or of the same and no shorter. -/
def Beats (w c : Candidate) : Prop :=
  w.kind.rank < c.kind.rank ∨ (w.kind.rank = c.kind.rank ∧ c.span ≤ w.span)

/-- The candidate `w` beats all of `cs` that begin on its line. -/
structure Best (cs : List Candidate) (w : Candidate) : Prop where
  mem : w ∈ cs
  beats : ∀ c ∈ cs, c.startLine = w.startLine → w.Beats c

/-- The lines of the region that a candidate stands for. -/
def lines (c : Candidate) : Int × Int :=
  c.region.lines

variable {a b c w : Candidate} {cs : List Candidate}

theorem Beats.refl (w : Candidate) : w.Beats w :=
  Or.inr ⟨rfl, Int.le_refl _⟩

theorem Beats.trans (h : a.Beats b) (h' : b.Beats c) : a.Beats c := by
  unfold Beats at *
  omega

theorem before_trans (h : a.before b = true) (h' : b.before c = true) : a.before c = true := by
  simp only [before, decide_eq_true_eq] at *
  omega

theorem before_total (a b : Candidate) : (a.before b || b.before a) = true := by
  simp only [before, Bool.or_eq_true, decide_eq_true_eq]
  omega

theorem startLine_le_of_before (h : a.before b = true) : a.startLine ≤ b.startLine := by
  simp only [before, decide_eq_true_eq] at h
  omega

/-! ### One line -/

theorem startLine_better (h : c.startLine = b.startLine) :
    (b.better c).startLine = b.startLine := by
  unfold better
  by_cases hrank : c.kind.rank < b.kind.rank
  · rw [if_pos hrank, h]
  · rw [if_neg hrank]

/-- The better of two candidates beats both, if the later one is no longer. -/
theorem better_beats (h : c.span ≤ b.span) : (b.better c).Beats b ∧ (b.better c).Beats c := by
  unfold better
  by_cases hrank : c.kind.rank < b.kind.rank
  · rw [if_pos hrank]
    exact ⟨Or.inl hrank, Beats.refl c⟩
  · rw [if_neg hrank]
    refine ⟨Beats.refl b, ?_⟩
    unfold Beats
    omega

end Candidate

open Candidate

/-! ### All lines -/

/-- What winners are: in the order of their lines, one for every line of the candidates, each
best on its line. -/
structure Wins (cs ws : List Candidate) : Prop where
  increasing : ws.Pairwise fun v w => v.startLine < w.startLine
  best : ∀ w ∈ ws, Best cs w
  covers : ∀ c ∈ cs, ∃ w ∈ ws, w.startLine = c.startLine

theorem better_mem (b c : Candidate) (cs : List Candidate) {d : Candidate}
    (h : d ∈ b.better c :: cs) : d ∈ b :: c :: cs := by
  unfold better at h
  by_cases hrank : c.kind.rank < b.kind.rank
  · rw [if_pos hrank] at h
    exact List.mem_cons_of_mem _ h
  · rw [if_neg hrank] at h
    rcases List.mem_cons.mp h with rfl | h
    · exact List.mem_cons_self
    · exact List.mem_cons_of_mem _ (List.mem_cons_of_mem _ h)

/-- Of two candidates on a line the better one stands for both. -/
theorem Wins.of_better {b c : Candidate} {cs ws : List Candidate}
    (hline : c.startLine = b.startLine) (hspan : c.span ≤ b.span)
    (h : Wins (b.better c :: cs) ws) : Wins (b :: c :: cs) ws := by
  obtain ⟨hbeats, hbeats'⟩ := better_beats hspan
  have hsame := startLine_better hline
  refine ⟨h.increasing, fun w hw => ⟨better_mem b c cs (h.best w hw).mem, ?_⟩, ?_⟩
  · have hall := (h.best w hw).beats
    intro d hd hd'
    rcases List.mem_cons.mp hd with rfl | hd
    · exact (hall _ List.mem_cons_self (hsame.trans hd')).trans hbeats
    rcases List.mem_cons.mp hd with rfl | hd
    · exact (hall _ List.mem_cons_self ((hsame.trans hline.symm).trans hd')).trans hbeats'
    · exact hall d (List.mem_cons_of_mem _ hd) hd'
  · intro d hd
    rcases List.mem_cons.mp hd with rfl | hd
    · exact hsame ▸ h.covers _ List.mem_cons_self
    rcases List.mem_cons.mp hd with rfl | hd
    · exact (hsame.trans hline.symm) ▸ h.covers _ List.mem_cons_self
    · exact h.covers d (List.mem_cons_of_mem _ hd)

/-- A candidate whose line ends before the others begin wins it. -/
theorem Wins.cons {b : Candidate} {cs ws : List Candidate}
    (hlater : ∀ d ∈ cs, b.startLine < d.startLine) (h : Wins cs ws) : Wins (b :: cs) (b :: ws) := by
  refine ⟨List.pairwise_cons.mpr ⟨fun w hw => hlater w (h.best w hw).mem, h.increasing⟩, ?_, ?_⟩
  · intro w hw
    rcases List.mem_cons.mp hw with rfl | hmore
    · refine ⟨List.mem_cons_self, fun d hd hd' => ?_⟩
      rcases List.mem_cons.mp hd with rfl | hd
      · exact Beats.refl _
      · exact absurd hd' (Nat.ne_of_gt (hlater d hd))
    · have hlast := h.best w hmore
      refine ⟨List.mem_cons_of_mem _ hlast.mem, fun d hd hd' => ?_⟩
      rcases List.mem_cons.mp hd with rfl | hd
      · exact absurd hd' (Nat.ne_of_lt (hlater w hlast.mem))
      · exact hlast.beats d hd hd'
  · intro d hd
    rcases List.mem_cons.mp hd with rfl | hd
    · exact ⟨_, List.mem_cons_self, rfl⟩
    · obtain ⟨w, hw, hline⟩ := h.covers d hd
      exact ⟨w, List.mem_cons_of_mem _ hw, hline⟩

theorem winnersFrom_wins {best : Candidate} {cs : List Candidate}
    (hcs : (best :: cs).Pairwise fun a b => a.before b = true) :
    Wins (best :: cs) (winnersFrom best cs) := by
  induction cs generalizing best with
  | nil => exact Wins.cons (by simp) ⟨List.Pairwise.nil, by simp, by simp⟩
  | cons c cs ih =>
      obtain ⟨hbest, hcs'⟩ := List.pairwise_cons.mp hcs
      obtain ⟨hc, hrest⟩ := List.pairwise_cons.mp hcs'
      have hfirst := hbest c (by simp)
      unfold winnersFrom
      by_cases hline : c.startLine = best.startLine
      · rw [if_pos hline]
        have hspan : c.span ≤ best.span := by
          simp only [before, decide_eq_true_eq] at hfirst
          omega
        refine Wins.of_better hline hspan (ih (List.pairwise_cons.mpr ⟨fun d hd => ?_, hrest⟩))
        unfold better
        by_cases hrank : c.kind.rank < best.kind.rank
        · rw [if_pos hrank]
          exact hc d hd
        · rw [if_neg hrank]
          exact hbest d (by simp [hd])
      · rw [if_neg hline]
        refine Wins.cons (fun d hd => ?_) (ih hcs')
        have hle := startLine_le_of_before hfirst
        have hthen : c.startLine ≤ d.startLine := by
          rcases List.mem_cons.mp hd with rfl | hd
          · exact Nat.le_refl _
          · exact startLine_le_of_before (hc d hd)
        omega

theorem winners_wins (cs : List Candidate) : Wins cs (winners (cs.mergeSort before)) := by
  have hsorted : (cs.mergeSort before).Pairwise fun a b => a.before b = true :=
    @List.pairwise_mergeSort _ before (fun _ _ _ => before_trans) before_total cs
  have hmem (c : Candidate) : c ∈ cs.mergeSort before ↔ c ∈ cs := List.mem_mergeSort
  suffices hwins : Wins (cs.mergeSort before) (winners (cs.mergeSort before)) by
    refine ⟨hwins.increasing, fun w hw => ?_, fun c hc => hwins.covers c ((hmem c).mpr hc)⟩
    obtain ⟨hw, hbeats⟩ := hwins.best w hw
    exact ⟨(hmem w).mp hw, fun c hc => hbeats c ((hmem c).mpr hc)⟩
  cases hlist : cs.mergeSort before with
  | nil => exact ⟨List.Pairwise.nil, by simp [winners], by simp⟩
  | cons c rest =>
      rw [hlist] at hsorted
      exact winnersFrom_wins hsorted

/-- Candidates that are in order already are not moved. -/
theorem resolve_of_pairwise {cs : List Candidate} (h : cs.Pairwise fun a b => a.before b = true) :
    resolve cs = (winners cs).map Candidate.region := by
  rw [resolve, List.mergeSort_of_pairwise h]

/-! ### Lines of regions -/

/-- Candidates of one line that are equally long cover the same lines. -/
def Even (cs : List Candidate) : Prop :=
  ∀ c ∈ cs, ∀ d ∈ cs, c.startLine = d.startLine → c.span = d.span → c.lines = d.lines

theorem lines_resolve (cs : List Candidate) :
    (resolve cs).map FoldRegion.lines = (winners (cs.mergeSort before)).map Candidate.lines := by
  rw [resolve, List.map_map]
  rfl

/-- The lines of the regions are those of the best candidates. -/
theorem mem_lines_resolve {cs : List Candidate} (hcs : Even cs) (p : Int × Int) :
    p ∈ (resolve cs).map FoldRegion.lines ↔ ∃ w, Best cs w ∧ w.lines = p := by
  have hwins := winners_wins cs
  rw [lines_resolve, List.mem_map]
  constructor
  · rintro ⟨w, hw, hp⟩
    exact ⟨w, hwins.best w hw, hp⟩
  · rintro ⟨w, hw, hp⟩
    obtain ⟨v, hv, hline⟩ := hwins.covers w hw.mem
    have hbest := hwins.best v hv
    have hforth := hbest.beats w hw.mem hline.symm
    have hback := hw.beats v hbest.mem hline
    refine ⟨v, hv, (hcs v hbest.mem w hw.mem hline ?_).trans hp⟩
    unfold Beats at hforth hback
    omega

theorem lines_increasing (cs : List Candidate) :
    ((resolve cs).map FoldRegion.lines).Pairwise fun p q => p.1 < q.1 := by
  rw [lines_resolve, List.pairwise_map]
  refine (winners_wins cs).increasing.imp fun {v w} h => ?_
  show (v.startLine : Int) < w.startLine
  exact Int.ofNat_lt.mpr h

/-- A line has a region just when it has candidates. -/
theorem exists_region_iff (cs : List Candidate) (line : Nat) :
    (∃ p ∈ (resolve cs).map FoldRegion.lines, p.1 = (line : Int))
      ↔ ∃ c ∈ cs, c.startLine = line := by
  have hwins := winners_wins cs
  rw [lines_resolve]
  constructor
  · rintro ⟨p, hp, hline⟩
    obtain ⟨w, hw, rfl⟩ := List.mem_map.mp hp
    exact ⟨w, (hwins.best w hw).mem, Int.ofNat_inj.mp hline⟩
  · rintro ⟨c, hc, rfl⟩
    obtain ⟨w, hw, hline⟩ := hwins.covers c hc
    exact ⟨w.lines, List.mem_map_of_mem hw, congrArg Int.ofNat hline⟩

/-- **Candidates whose best cover the same lines come down to the same lines.** -/
theorem lines_resolve_eq {cs ds : List Candidate} (hcs : Even cs) (hds : Even ds)
    (h : ∀ p, (∃ w, Best cs w ∧ w.lines = p) ↔ ∃ w, Best ds w ∧ w.lines = p) :
    (resolve cs).map FoldRegion.lines = (resolve ds).map FoldRegion.lines := by
  have hirrefl : Std.Irrefl fun p q : Int × Int => p.1 < q.1 := ⟨fun p => Int.lt_irrefl p.1⟩
  have hantisymm : Std.Antisymm fun p q : Int × Int => p.1 < q.1 :=
    ⟨fun p q hpq hqp => absurd hpq (Int.lt_asymm hqp)⟩
  refine (lines_increasing cs).eq_of_mem_iff (lines_increasing ds) fun p => ?_
  rw [mem_lines_resolve hcs, mem_lines_resolve hds]
  exact h p

end SourceView.Fold
