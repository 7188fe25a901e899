/-
Which region a line gets.

`Proofs/Fold/Winners.lean` says that what wins a line beats all candidates on it.  Candidates may
tie, though, and among those of a tree whose spans are arbitrary a tie may stand for different
lines.  The sort that brings the longest candidates of a line to the front leaves those that tie
in the order of the visit, and a later one never takes over from one it ties with, so the winner
is the first candidate visited of those that tie with it.  With that a winner is determined:
there is one candidate of a line that beats all others and comes first among its equals.

Two consequences.  A region is that of the least candidate of its line by kind, length and place
in the visit, so nothing but the definition of a candidate is needed to tell the regions of a
tree.  And what is of lowest priority can be left out: comments that are not offered for folding
leave all other regions as they are.
-/
import Mathlib.Data.Prod.Lex
import SourceView.Proofs.Fold.Candidates

namespace SourceView.Fold

/-! ### Ties -/

namespace Candidate

/-- Whether two candidates of a line are of the same priority and equally long. -/
def ties (v w : Candidate) : Bool :=
  decide (v.startLine = w.startLine ∧ v.kind.rank = w.kind.rank ∧ v.span = w.span)

/-- The candidate `w` beats all of `cs` that begin on its line, and of those that tie with it comes
first. -/
structure First (cs : List Candidate) (w : Candidate) : Prop where
  best : Best cs w
  first : cs.find? w.ties = some w

variable {b c v w : Candidate} {cs : List Candidate}

theorem ties_self (w : Candidate) : w.ties w = true := by
  simp [ties]

theorem ties_congr (h : v.ties w = true) : v.ties = w.ties := by
  simp only [ties, decide_eq_true_eq] at h
  funext c
  rw [ties, ties, h.1, h.2.1, h.2.2]

/-- Candidates of a line that beat each other tie. -/
theorem ties_of_beats (hline : v.startLine = w.startLine) (h : v.Beats w) (h' : w.Beats v) :
    v.ties w = true := by
  simp only [ties, decide_eq_true_eq]
  unfold Beats at h h'
  omega

/-- On every line at most one candidate is the first. -/
theorem First.eq (hv : First cs v) (hw : First cs w) (hline : v.startLine = w.startLine) :
    v = w := by
  have hties : v.ties w = true :=
    ties_of_beats hline (hv.best.beats w hw.best.mem hline.symm) (hw.best.beats v hv.best.mem hline)
  have hfirst := hv.first
  rw [ties_congr hties, hw.first, Option.some.injEq] at hfirst
  exact hfirst.symm

end Candidate

open Candidate

/-! ### Winners -/

/-- Of candidates in order the winner of a line is the first of those that tie with it. -/
theorem winnersFrom_find? {best : Candidate} {cs : List Candidate}
    (hcs : (best :: cs).Pairwise fun a b => a.before b = true) :
    ∀ w ∈ winnersFrom best cs, (best :: cs).find? w.ties = some w := by
  induction cs generalizing best with
  | nil =>
      intro w hw
      rw [List.mem_singleton.mp hw]
      exact List.find?_cons_of_pos (ties_self best)
  | cons c cs ih =>
      obtain ⟨hbest, hcs'⟩ := List.pairwise_cons.mp hcs
      obtain ⟨hc, hrest⟩ := List.pairwise_cons.mp hcs'
      have hfirst := hbest c List.mem_cons_self
      unfold winnersFrom
      intro w hw
      by_cases hline : c.startLine = best.startLine
      · rw [if_pos hline] at hw
        have hspan : c.span ≤ best.span := by
          simp only [before, decide_eq_true_eq] at hfirst
          omega
        have hsame := startLine_better hline
        unfold better at hw hsame
        by_cases hrank : c.kind.rank < best.kind.rank
        · -- The line is won by `c` or a better one, none of which ties with what it took over from.
          rw [if_pos hrank] at hw
          have hwins := winnersFrom_wins (List.pairwise_cons.mpr ⟨hc, hrest⟩)
          have hno : ¬ w.ties best = true := by
            simp only [ties, decide_eq_true_eq]
            rintro ⟨hon, heq, -⟩
            have hbeats := (hwins.best w hw).beats c List.mem_cons_self (hline.trans hon.symm)
            unfold Beats at hbeats
            omega
          rw [List.find?_cons_of_neg hno]
          exact ih (List.pairwise_cons.mpr ⟨hc, hrest⟩) w hw
        · rw [if_neg hrank] at hw
          have hskip : (best :: cs).Pairwise fun a b => a.before b = true :=
            List.pairwise_cons.mpr ⟨fun d hd => hbest d (List.mem_cons_of_mem c hd), hrest⟩
          have hfind := ih hskip w hw
          by_cases hties : w.ties best = true
          · rwa [List.find?_cons_of_pos hties] at hfind ⊢
          · have hno : ¬ w.ties c = true := by
              simp only [ties, decide_eq_true_eq] at hties ⊢
              rintro ⟨hon, heq, hspan'⟩
              have hbeats := ((winnersFrom_wins hskip).best w hw).beats best List.mem_cons_self
                (hline.symm.trans hon.symm)
              unfold Beats at hbeats
              omega
            rw [List.find?_cons_of_neg hties] at hfind ⊢
            rwa [List.find?_cons_of_neg hno]
      · rw [if_neg hline] at hw
        rcases List.mem_cons.mp hw with rfl | hw
        · exact List.find?_cons_of_pos (ties_self w)
        · have hlater : c.startLine ≤ w.startLine := by
            rcases List.mem_cons.mp ((winnersFrom_wins hcs').best w hw).mem with rfl | hmem
            · exact Nat.le_refl _
            · exact startLine_le_of_before (hc w hmem)
          have hno : ¬ w.ties best = true := by
            have hle := startLine_le_of_before hfirst
            simp only [ties, decide_eq_true_eq]
            omega
          rw [List.find?_cons_of_neg hno]
          exact ih hcs' w hw

/-- The sort leaves candidates that tie in their order. -/
theorem filter_ties_mergeSort (w : Candidate) (cs : List Candidate) :
    (cs.mergeSort before).filter w.ties = cs.filter w.ties := by
  have hordered : (cs.filter w.ties).Pairwise fun a b => a.before b = true := by
    rw [List.pairwise_filter]
    refine List.pairwise_of_forall fun a b ha hb => ?_
    simp only [ties, decide_eq_true_eq] at ha hb
    simp only [before, decide_eq_true_eq]
    omega
  have hsub : (cs.filter w.ties).Sublist (cs.mergeSort before) :=
    @List.sublist_mergeSort _ before cs (fun _ _ _ => before_trans) before_total _ hordered
      List.filter_sublist
  have hkept := hsub.filter w.ties
  rw [List.filter_filter] at hkept
  simp only [Bool.and_self] at hkept
  exact (hkept.eq_of_length ((List.mergeSort_perm cs before).filter _).length_eq.symm).symm

theorem winners_first (cs : List Candidate) : ∀ w ∈ winners (cs.mergeSort before), First cs w := by
  intro w hw
  refine ⟨(winners_wins cs).best w hw, ?_⟩
  have hsorted : (cs.mergeSort before).Pairwise fun a b => a.before b = true :=
    @List.pairwise_mergeSort _ before (fun _ _ _ => before_trans) before_total cs
  have hfind : (cs.mergeSort before).find? w.ties = some w := by
    cases hlist : cs.mergeSort before with
    | nil =>
        rw [hlist] at hw
        exact absurd hw List.not_mem_nil
    | cons c rest =>
        rw [hlist] at hw hsorted
        exact winnersFrom_find? hsorted w hw
  rwa [← List.head?_filter, filter_ties_mergeSort, List.head?_filter] at hfind

/-- **What wins a line** is the candidate that beats all others there and comes first among its
equals. -/
theorem mem_winners_iff {cs : List Candidate} {w : Candidate} :
    w ∈ winners (cs.mergeSort before) ↔ First cs w := by
  refine ⟨winners_first cs w, fun h => ?_⟩
  obtain ⟨v, hv, hline⟩ := (winners_wins cs).covers w h.best.mem
  rwa [← (winners_first cs v hv).eq h hline]

theorem mem_resolve_iff {cs : List Candidate} {r : FoldRegion} :
    r ∈ resolve cs ↔ ∃ w, First cs w ∧ w.region = r := by
  simp only [resolve, List.mem_map, mem_winners_iff]

theorem resolve_increasing (cs : List Candidate) :
    (resolve cs).Pairwise fun r s => r.startLine < s.startLine := by
  rw [resolve, List.pairwise_map]
  exact (winners_wins cs).increasing.imp Int.ofNat_lt.mpr

/-! ### Regions of a tree -/

/-- The node can be folded from the line `line` on: it is of a class that folds, a comment only if
comments are offered, begins on that line, and there is a line between that one and the line of
its last character. -/
structure Foldable (lines : LineIndex) (config : Config) (line : Int) (kind : FoldKind)
    (n : Node) : Prop where
  kind : n.foldKind? = some kind
  shown : n.isComment = true → config.foldComments = true
  line : (lines.lineOf n.start : Int) = line
  hides : lines.lineOf n.start < lines.lineOf (max n.start (n.stop - 1)) - 1

/-- The order of the nodes that can be folded from one line: by the priority of the kind, then the
longest first, then by the place in the order of a visit. -/
def precedence (kind : FoldKind) (n : Node) (place : Nat) : Nat ×ₗ Int ×ₗ Nat :=
  toLex (kind.rank, toLex (n.start - n.stop, place))

variable {lines : LineIndex} {config : Config} {m n : Node} {c : Candidate}

theorem candidate?_eq_some_iff : candidate? lines config n = some c
    ↔ Foldable lines config c.startLine c.kind n
      ∧ c.endLine = lines.lineOf (max n.start (n.stop - 1)) - 1 ∧ c.span = n.stop - n.start := by
  constructor
  · intro h
    have hshown := shown_of_candidate? h
    unfold candidate? at h
    cases hkind : n.foldKind? with
    | none => simp [hkind] at h
    | some kind =>
        simp only [hkind, hshown, Bool.false_eq_true, if_false] at h
        split at h
        · rename_i hlines
          rw [Option.some.injEq] at h
          subst h
          refine ⟨⟨hkind, fun hcomment => ?_, rfl, by omega⟩, rfl, rfl⟩
          simpa [hcomment] using hshown
        · exact absurd h (by simp)
  · rintro ⟨⟨hkind, hshown, hline, hhides⟩, hend, hspan⟩
    have hoffered : (n.isComment && !config.foldComments) = false := by
      by_cases hcomment : n.isComment = true
      · simp [hshown hcomment]
      · simp [hcomment]
    unfold candidate?
    simp only [hkind, hoffered, Bool.false_eq_true, if_false]
    rw [if_pos (by omega), Option.some.injEq, ← hend, ← hspan, Int.ofNat_inj.mp hline]

/-- What can be folded is a candidate. -/
theorem Foldable.exists_candidate? {line : Int} {kind : FoldKind}
    (h : Foldable lines config line kind n) :
    ∃ c, candidate? lines config n = some c ∧ (c.startLine : Int) = line ∧ c.kind = kind
      ∧ c.span = n.stop - n.start :=
  ⟨⟨lines.lineOf n.start, _, _, kind⟩,
    candidate?_eq_some_iff.mpr ⟨⟨h.kind, h.shown, rfl, h.hides⟩, rfl, rfl⟩, h.line, rfl, rfl⟩

/-- A candidate lies within the text, with at least one line hidden. -/
theorem lines_of_candidate? {source : String}
    (h : candidate? (LineIndex.ofSource source) config n = some c) :
    1 ≤ c.startLine ∧ c.startLine < c.endLine
      ∧ c.endLine < (LineIndex.ofSource source).lineCount := by
  obtain ⟨⟨-, -, hline, hhides⟩, hend, -⟩ := candidate?_eq_some_iff.mp h
  have hpos : 0 < (LineIndex.ofSource source).lineOf n.start :=
    LineIndex.lineOf_pos source.toList n.start
  have hle : (LineIndex.ofSource source).lineOf (max n.start (n.stop - 1)) ≤ _ :=
    LineIndex.lineOf_le_lineCount source.toList (max n.start (n.stop - 1))
  change _ ≤ (LineIndex.ofSource source).lineCount at hle
  omega

/-- A node whose candidate is beaten does not go before, unless both tie and it comes earlier. -/
theorem precedence_le {c d : Candidate} {i j : Nat} (hc : c.span = n.stop - n.start)
    (hd : d.span = m.stop - m.start) (hline : c.startLine = d.startLine) (hbeats : c.Beats d)
    (hplace : c.ties d = true → i ≤ j) : precedence c.kind n i ≤ precedence d.kind m j := by
  simp only [precedence, Prod.Lex.toLex_le_toLex]
  unfold Beats at hbeats
  simp only [ties, decide_eq_true_eq] at hplace
  rcases hbeats with hrank | ⟨hrank, hspan⟩
  · exact Or.inl hrank
  · refine Or.inr ⟨hrank, ?_⟩
    rcases Int.lt_or_eq_of_le hspan with hlt | heq
    · exact Or.inl (by omega)
    · exact Or.inr ⟨by omega, hplace ⟨hline, hrank, heq.symm⟩⟩

/-- The winner of a line is the candidate of a node that precedes all others there. -/
theorem exists_least {nodes : List Node} {w : Candidate}
    (h : First (nodes.filterMap (candidate? lines config)) w) :
    ∃ i n, nodes[i]? = some n ∧ candidate? lines config n = some w
      ∧ ∀ j m kind, nodes[j]? = some m → Foldable lines config w.startLine kind m →
        precedence w.kind n i ≤ precedence kind m j := by
  have hfirst := h.first
  rw [List.find?_filterMap, Option.bind_eq_some_iff] at hfirst
  obtain ⟨n, hfind, hn⟩ := hfirst
  obtain ⟨-, i, hi, hplace, hearlier⟩ := List.find?_eq_some_iff_getElem.mp hfind
  refine ⟨i, n, List.getElem?_eq_some_iff.mpr ⟨hi, hplace⟩, hn, fun j m kind hm hfoldable => ?_⟩
  obtain ⟨d, hd, hline, rfl, hspan⟩ := hfoldable.exists_candidate?
  have hsame : d.startLine = w.startLine := Int.ofNat_inj.mp hline
  have hmem : d ∈ nodes.filterMap (candidate? lines config) :=
    List.mem_filterMap.mpr ⟨m, List.mem_of_getElem? hm, hd⟩
  refine precedence_le (candidate?_eq_some_iff.mp hn).2.2 hspan hsame.symm
    (h.best.beats d hmem hsame) fun hties => Nat.le_of_not_lt fun hlt => ?_
  obtain ⟨hj, hmj⟩ := List.getElem?_eq_some_iff.mp hm
  have hno := hearlier j hlt
  rw [hmj, hd] at hno
  simp [hties] at hno

/-- **A line gets the region of the least candidate that begins on it.**  Whatever the spans of a
tree are, its regions come in the order of their first lines, one for each line on which a node
can be folded, and lie within the text with at least one line hidden; and what a region shows is
the node that precedes all others that can be folded from its line, by kind, then length, then
the order of the visit. -/
theorem regions_least (source : String) (config : Config) (root : Node) :
    let lines := LineIndex.ofSource source
    let found := regions lines config root
    found.Pairwise (fun r s => r.startLine < s.startLine)
      ∧ (∀ r ∈ found, 1 ≤ r.startLine ∧ r.startLine < r.endLine ∧ r.endLine < lines.lineCount)
      ∧ (∀ line, (∃ r ∈ found, r.startLine = line)
          ↔ ∃ n ∈ root.visited, ∃ kind, Foldable lines config line kind n)
      ∧ ∀ r ∈ found, ∃ i n, root.visited[i]? = some n
          ∧ Foldable lines config r.startLine r.kind n
          ∧ r.endLine = lines.lineOf (max n.start (n.stop - 1)) - 1
          ∧ ∀ j m kind, root.visited[j]? = some m → Foldable lines config r.startLine kind m →
            precedence r.kind n i ≤ precedence kind m j := by
  intro lines found
  have hleast : ∀ r ∈ found, ∃ i n w, root.visited[i]? = some n
      ∧ candidate? lines config n = some w ∧ w.region = r
      ∧ ∀ j m kind, root.visited[j]? = some m → Foldable lines config w.startLine kind m →
        precedence w.kind n i ≤ precedence kind m j := by
    intro r hr
    obtain ⟨w, hw, hregion⟩ := mem_resolve_iff.mp hr
    obtain ⟨i, n, hi, hn, hall⟩ := exists_least hw
    exact ⟨i, n, w, hi, hn, hregion, hall⟩
  refine ⟨resolve_increasing _, fun r hr => ?_, fun line => ⟨?_, ?_⟩, fun r hr => ?_⟩
  · obtain ⟨-, n, w, -, hn, rfl, -⟩ := hleast r hr
    obtain ⟨hpos, hlt, hle⟩ := lines_of_candidate? hn
    exact ⟨Int.ofNat_le.mpr hpos, Int.ofNat_lt.mpr hlt, Int.ofNat_lt.mpr hle⟩
  · rintro ⟨r, hr, rfl⟩
    obtain ⟨i, n, w, hi, hn, rfl, -⟩ := hleast r hr
    exact ⟨n, List.mem_of_getElem? hi, w.kind, (candidate?_eq_some_iff.mp hn).1⟩
  · rintro ⟨n, hn, kind, hfoldable⟩
    obtain ⟨c, hc, hline, -⟩ := hfoldable.exists_candidate?
    have hmem : c ∈ candidates lines config root := List.mem_filterMap.mpr ⟨n, hn, hc⟩
    obtain ⟨w, hw, hsame⟩ := (winners_wins _).covers c hmem
    refine ⟨w.region, List.mem_map_of_mem hw, ?_⟩
    rw [← hline, ← hsame]
    rfl
  · obtain ⟨i, n, w, hi, hn, rfl, hall⟩ := hleast r hr
    obtain ⟨hfoldable, hend, -⟩ := candidate?_eq_some_iff.mp hn
    refine ⟨i, n, hi, hfoldable, ?_, hall⟩
    have hhides := hfoldable.hides
    show (w.endLine : Int) = lines.lineOf (max n.start (n.stop - 1)) - 1
    omega

/-! ### Comments -/

theorem isComment_iff : n.isComment = true ↔ n.foldKind? = some .comment := by
  cases n with
  | leaf _ _ info => cases info <;> simp [Node.isComment, Node.foldKind?]
  | container _ _ info _ => cases info <;> simp [Node.isComment, Node.foldKind?]
  | element => simp [Node.isComment, Node.foldKind?]

/-- Without comments, what can be folded is what could be before and is no comment. -/
theorem foldable_without_comments {line : Int} {kind : FoldKind} :
    Foldable lines { config with foldComments := false } line kind n
      ↔ Foldable lines { config with foldComments := true } line kind n ∧ kind ≠ .comment := by
  constructor
  · rintro ⟨hkind, hshown, hline, hhides⟩
    refine ⟨⟨hkind, fun _ => rfl, hline, hhides⟩, ?_⟩
    rintro rfl
    exact absurd (hshown (isComment_iff.mpr hkind)) Bool.false_ne_true
  · rintro ⟨⟨hkind, -, hline, hhides⟩, hne⟩
    refine ⟨hkind, fun hcomment => ?_, hline, hhides⟩
    rw [isComment_iff, hkind, Option.some.injEq] at hcomment
    exact absurd hcomment hne

theorem candidates_without_comments (lines : LineIndex) (config : Config) (root : Node) :
    candidates lines { config with foldComments := false } root
      = (candidates lines { config with foldComments := true } root).filter
        (·.kind != .comment) := by
  rw [candidates, candidates, List.filter_filterMap]
  congr 1
  funext n
  refine Option.ext fun c => ?_
  rw [Option.filter_eq_some_iff, candidate?_eq_some_iff, candidate?_eq_some_iff,
    foldable_without_comments, bne_iff_ne]
  exact and_right_comm

/-- Comments lose to all else, so without them the same candidates win, but for comments. -/
theorem first_without_comments {cs : List Candidate} {w : Candidate} :
    First (cs.filter (·.kind != .comment)) w ↔ First cs w ∧ w.kind ≠ .comment := by
  have hmem (c : Candidate) : c ∈ cs.filter (·.kind != .comment) ↔ c ∈ cs ∧ c.kind ≠ .comment := by
    rw [List.mem_filter, bne_iff_ne]
  -- What ties with a candidate that is no comment is none either.
  have hfind (hw : w.kind ≠ .comment) :
      (cs.filter (·.kind != .comment)).find? w.ties = cs.find? w.ties := by
    rw [List.find?_filter]
    congr 1
    funext c
    rw [Bool.eq_iff_iff, decide_eq_true_iff, and_iff_right_iff_imp, bne_iff_ne]
    simp only [ties, decide_eq_true_eq]
    rintro ⟨-, hrank, -⟩ hcomment
    rw [hcomment] at hrank
    revert hrank hw
    cases w.kind <;> decide
  constructor
  · intro h
    obtain ⟨hw, hne⟩ := (hmem w).mp h.best.mem
    refine ⟨⟨⟨hw, fun c hc hline => ?_⟩, hfind hne ▸ h.first⟩, hne⟩
    by_cases hcomment : c.kind = .comment
    · refine Or.inl ?_
      rw [hcomment]
      revert hne
      cases w.kind <;> decide
    · exact h.best.beats c ((hmem c).mpr ⟨hc, hcomment⟩) hline
  · rintro ⟨h, hne⟩
    exact ⟨⟨(hmem w).mpr ⟨h.best.mem, hne⟩, fun c hc => h.best.beats c ((hmem c).mp hc).1⟩,
      (hfind hne).trans h.first⟩

/-- **Comments that are not offered for folding leave all other regions as they are.** -/
theorem regions_without_comments (lines : LineIndex) (config : Config) (root : Node) :
    regions lines { config with foldComments := false } root
      = (regions lines { config with foldComments := true } root).filter
        (·.kind != .comment) := by
  have hirrefl : Std.Irrefl fun r s : FoldRegion => r.startLine < s.startLine :=
    ⟨fun r => Int.lt_irrefl r.startLine⟩
  have hantisymm : Std.Antisymm fun r s : FoldRegion => r.startLine < s.startLine :=
    ⟨fun r s hrs hsr => absurd hrs (Int.lt_asymm hsr)⟩
  refine (resolve_increasing _).eq_of_mem_iff ((resolve_increasing _).filter _) fun r => ?_
  rw [regions, candidates_without_comments, List.mem_filter, bne_iff_ne, mem_resolve_iff,
    mem_resolve_iff]
  constructor
  · rintro ⟨w, hw, rfl⟩
    obtain ⟨hfirst, hne⟩ := first_without_comments.mp hw
    exact ⟨⟨w, hfirst, rfl⟩, hne⟩
  · rintro ⟨⟨w, hw, rfl⟩, hne⟩
    exact ⟨w, first_without_comments.mpr ⟨hw, hne⟩, rfl⟩

end SourceView.Fold
