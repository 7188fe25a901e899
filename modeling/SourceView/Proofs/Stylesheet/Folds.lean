/-
When a stylesheet and its outline fold alike.

The outline has all the candidates of the full tree, and besides those the ones that
declarations hide.  A hidden candidate makes no difference just when its line is won by a
block that the declaration stands in; then the block is among the candidates of both trees.
Otherwise the outline has a region on that line and the full tree has none: what else of the
full tree could begin there would have to be a group around the declaration, and a
declaration stands in a group only inside of a block in it.
-/
import SourceView.Proofs.Fold.Candidates
import SourceView.Proofs.Stylesheet.Outline

namespace SourceView

namespace Stylesheet

open Node (Row visitedAll mem_visitedAll_leaf mem_visitedAll_container mem_visitedAll_append)

/-- Whether a node is a declaration. -/
def isDeclaration : Node → Bool
  | .leaf _ _ (.declaration ..) => true
  | _ => false

theorem foldKind?_of_declaration {d : Node} (h : isDeclaration d = true) : d.foldKind? = none := by
  cases d with
  | leaf _ _ info => cases info <;> simp_all [isDeclaration, Node.foldKind?]
  | container => simp [isDeclaration] at h
  | element => simp [isDeclaration] at h

theorem visited_of_declaration {d : Node} (h : isDeclaration d = true) : d.visited = [d] := by
  cases d with
  | leaf => rw [Node.visited]
  | container => simp [isDeclaration] at h
  | element => simp [isDeclaration] at h

theorem foldKind?_of_statement {a b : Int} {info : Container} {us : List Node}
    (h : isStatement info = true) : (Node.container a b info us).foldKind? = none := by
  cases info <;> simp_all [isStatement, Node.foldKind?]

/-! ### Rows that are filled in -/

namespace Fills

variable {statements : Bool} {xs ys : List Node}

/-- Neither tree of a stylesheet has attributes. -/
theorem bare (h : Fills statements xs ys) :
    (∀ n ∈ visitedAll xs, n.attributes = []) ∧ ∀ n ∈ visitedAll ys, n.attributes = [] := by
  have hleaf {a b : Int} {info : Leaf} {xs : List Node}
      (hxs : ∀ n ∈ visitedAll xs, n.attributes = []) :
      ∀ n ∈ visitedAll (.leaf a b info :: xs), n.attributes = [] := by
    intro n hn
    rcases mem_visitedAll_leaf.mp hn with rfl | hn
    · rfl
    · exact hxs n hn
  have hcontainer {a b : Int} {info : Container} {us xs : List Node}
      (hus : ∀ n ∈ visitedAll us, n.attributes = []) (hxs : ∀ n ∈ visitedAll xs, n.attributes = []) :
      ∀ n ∈ visitedAll (.container a b info us :: xs), n.attributes = [] := by
    intro n hn
    rcases mem_visitedAll_container.mp hn with rfl | hn | hn
    · rfl
    · exact hus n hn
    · exact hxs n hn
  have happend {us xs : List Node} (hus : ∀ n ∈ visitedAll us, n.attributes = [])
      (hxs : ∀ n ∈ visitedAll xs, n.attributes = []) :
      ∀ n ∈ visitedAll (us ++ xs), n.attributes = [] :=
    fun n hn => (mem_visitedAll_append.mp hn).elim (hus n) (hxs n)
  induction h with
  | nil => simp [visitedAll]
  | comment _ ih => exact ⟨hleaf ih.1, hleaf ih.2⟩
  | block _ _ ihinner ih => exact ⟨hcontainer ihinner.1 ih.1, hcontainer ihinner.2 ih.2⟩
  | group _ _ _ ihinner ih => exact ⟨hcontainer ihinner.1 ih.1, hcontainer ihinner.2 ih.2⟩
  | statement _ _ _ ihinner ih => exact ⟨hcontainer ihinner.1 ih.1, happend ihinner.2 ih.2⟩
  | declaration _ _ _ ihinner ih => exact ⟨hleaf ih.1, happend ihinner.2 ih.2⟩

/-- Whatever folds in the full row is in the outline. -/
theorem kept (h : Fills statements xs ys) :
    ∀ n ∈ visitedAll xs, n.foldKind? ≠ none → ∃ o ∈ visitedAll ys, o.Alike n := by
  have hcontainer {a b : Int} {info : Container} {us vs xs ys : List Node}
      (hus : ∀ n ∈ visitedAll us, n.foldKind? ≠ none → ∃ o ∈ visitedAll vs, o.Alike n)
      (hxs : ∀ n ∈ visitedAll xs, n.foldKind? ≠ none → ∃ o ∈ visitedAll ys, o.Alike n) :
      ∀ n ∈ visitedAll (.container a b info us :: xs), n.foldKind? ≠ none →
        ∃ o ∈ visitedAll (.container a b info vs :: ys), o.Alike n := by
    intro n hn hfold
    rcases mem_visitedAll_container.mp hn with rfl | hn | hn
    · exact ⟨_, mem_visitedAll_container.mpr (Or.inl rfl), rfl, rfl, rfl, rfl⟩
    · obtain ⟨o, ho, halike⟩ := hus n hn hfold
      exact ⟨o, mem_visitedAll_container.mpr (Or.inr (Or.inl ho)), halike⟩
    · obtain ⟨o, ho, halike⟩ := hxs n hn hfold
      exact ⟨o, mem_visitedAll_container.mpr (Or.inr (Or.inr ho)), halike⟩
  induction h with
  | nil => simp [visitedAll]
  | comment _ ih =>
      intro n hn hfold
      rcases mem_visitedAll_leaf.mp hn with rfl | hn
      · exact ⟨_, mem_visitedAll_leaf.mpr (Or.inl rfl), rfl, rfl, rfl, rfl⟩
      · obtain ⟨o, ho, halike⟩ := ih n hn hfold
        exact ⟨o, mem_visitedAll_leaf.mpr (Or.inr ho), halike⟩
  | block _ _ ihinner ih => exact hcontainer ihinner ih
  | group _ _ _ ihinner ih => exact hcontainer ihinner ih
  | statement hinfo _ _ ihinner ih =>
      intro n hn hfold
      rcases mem_visitedAll_container.mp hn with rfl | hn | hn
      · exact absurd (foldKind?_of_statement hinfo) hfold
      · obtain ⟨o, ho, halike⟩ := ihinner n hn hfold
        exact ⟨o, mem_visitedAll_append.mpr (Or.inl ho), halike⟩
      · obtain ⟨o, ho, halike⟩ := ih n hn hfold
        exact ⟨o, mem_visitedAll_append.mpr (Or.inr ho), halike⟩
  | declaration _ _ _ _ ih =>
      intro n hn hfold
      rcases mem_visitedAll_leaf.mp hn with rfl | hn
      · exact absurd rfl hfold
      · obtain ⟨o, ho, halike⟩ := ih n hn hfold
        exact ⟨o, mem_visitedAll_append.mpr (Or.inr ho), halike⟩

/-- Whatever else the outline has lies in a declaration of the full row. -/
theorem added (h : Fills statements xs ys) {lo hi : Int} (hrow : Row lo hi xs) :
    ∀ o ∈ visitedAll ys, (∃ n ∈ visitedAll xs, o.Alike n)
      ∨ ∃ d ∈ visitedAll xs, isDeclaration d = true ∧ d.start ≤ o.start ∧ o.stop ≤ d.stop := by
  -- What is found among some of the nodes is found among all of them.
  have hmore {us xs : List Node} {o : Node} (hsub : ∀ n ∈ visitedAll us, n ∈ visitedAll xs)
      (h : (∃ n ∈ visitedAll us, o.Alike n)
        ∨ ∃ d ∈ visitedAll us, isDeclaration d = true ∧ d.start ≤ o.start ∧ o.stop ≤ d.stop) :
      (∃ n ∈ visitedAll xs, o.Alike n)
        ∨ ∃ d ∈ visitedAll xs, isDeclaration d = true ∧ d.start ≤ o.start ∧ o.stop ≤ d.stop := by
    rcases h with ⟨n, hn, halike⟩ | ⟨d, hd, hinside⟩
    · exact Or.inl ⟨n, hsub n hn, halike⟩
    · exact Or.inr ⟨d, hsub d hd, hinside⟩
  have hcontainer {a b : Int} {info : Container} {us vs xs ys : List Node}
      (hvs : ∀ o ∈ visitedAll vs, (∃ n ∈ visitedAll us, o.Alike n)
        ∨ ∃ d ∈ visitedAll us, isDeclaration d = true ∧ d.start ≤ o.start ∧ o.stop ≤ d.stop)
      (hys : ∀ o ∈ visitedAll ys, (∃ n ∈ visitedAll xs, o.Alike n)
        ∨ ∃ d ∈ visitedAll xs, isDeclaration d = true ∧ d.start ≤ o.start ∧ o.stop ≤ d.stop) :
      ∀ o ∈ visitedAll (.container a b info vs :: ys),
        (∃ n ∈ visitedAll (.container a b info us :: xs), o.Alike n)
          ∨ ∃ d ∈ visitedAll (.container a b info us :: xs),
            isDeclaration d = true ∧ d.start ≤ o.start ∧ o.stop ≤ d.stop := by
    intro o ho
    rcases mem_visitedAll_container.mp ho with rfl | ho | ho
    · exact Or.inl ⟨_, mem_visitedAll_container.mpr (Or.inl rfl), rfl, rfl, rfl, rfl⟩
    · exact hmore (fun n hn => mem_visitedAll_container.mpr (Or.inr (Or.inl hn))) (hvs o ho)
    · exact hmore (fun n hn => mem_visitedAll_container.mpr (Or.inr (Or.inr hn))) (hys o ho)
  induction h generalizing lo hi with
  | nil => simp [visitedAll]
  | comment _ ih =>
      intro o ho
      rcases mem_visitedAll_leaf.mp ho with rfl | ho
      · exact Or.inl ⟨_, mem_visitedAll_leaf.mpr (Or.inl rfl), rfl, rfl, rfl, rfl⟩
      · exact hmore (fun n hn => mem_visitedAll_leaf.mpr (Or.inr hn)) (ih hrow.2.2 o ho)
  | block _ _ ihinner ih => exact hcontainer (ihinner hrow.2.1) (ih hrow.2.2)
  | group _ _ _ ihinner ih => exact hcontainer (ihinner hrow.2.1) (ih hrow.2.2)
  | statement _ _ _ ihinner ih =>
      intro o ho
      rcases mem_visitedAll_append.mp ho with ho | ho
      · exact hmore (fun n hn => mem_visitedAll_container.mpr (Or.inr (Or.inl hn)))
          (ihinner hrow.2.1 o ho)
      · exact hmore (fun n hn => mem_visitedAll_container.mpr (Or.inr (Or.inr hn)))
          (ih hrow.2.2 o ho)
  | declaration hinside hinner _ _ ih =>
      intro o ho
      rcases mem_visitedAll_append.mp ho with ho | ho
      · exact Or.inr ⟨_, mem_visitedAll_leaf.mpr (Or.inl rfl), rfl,
          (hinner.row hinside).inside o ho⟩
      · exact hmore (fun n hn => mem_visitedAll_leaf.mpr (Or.inr hn)) (ih hrow.2.2 o ho)

/-- Where no statements occur, a declaration stands in a block. -/
theorem declared_in_block (h : Fills false xs ys) :
    ∀ d ∈ visitedAll xs, isDeclaration d = true →
      ∃ b ∈ visitedAll xs, b.foldKind? = some .block ∧ d ∈ b.visited := by
  generalize hfalse : false = statements at h
  induction h with
  | nil => simp [visitedAll]
  | comment _ ih =>
      intro d hd hdeclaration
      rcases mem_visitedAll_leaf.mp hd with rfl | hd
      · exact absurd hdeclaration (by simp [isDeclaration])
      · obtain ⟨b, hb, hblock⟩ := ih hfalse d hd hdeclaration
        exact ⟨b, mem_visitedAll_leaf.mpr (Or.inr hb), hblock⟩
  | block _ _ _ ih =>
      intro d hd hdeclaration
      rcases mem_visitedAll_container.mp hd with rfl | hinner | hd
      · exact absurd hdeclaration (by simp [isDeclaration])
      · refine ⟨_, mem_visitedAll_container.mpr (Or.inl rfl), rfl, ?_⟩
        rw [Node.visited]
        exact List.mem_cons_of_mem _ hinner
      · obtain ⟨b, hb, hblock⟩ := ih hfalse d hd hdeclaration
        exact ⟨b, mem_visitedAll_container.mpr (Or.inr (Or.inr hb)), hblock⟩
  | group _ _ _ ihinner ih =>
      intro d hd hdeclaration
      rcases mem_visitedAll_container.mp hd with rfl | hd | hd
      · exact absurd hdeclaration (by simp [isDeclaration])
      · obtain ⟨b, hb, hblock⟩ := ihinner rfl d hd hdeclaration
        exact ⟨b, mem_visitedAll_container.mpr (Or.inr (Or.inl hb)), hblock⟩
      · obtain ⟨b, hb, hblock⟩ := ih hfalse d hd hdeclaration
        exact ⟨b, mem_visitedAll_container.mpr (Or.inr (Or.inr hb)), hblock⟩
  | statement => exact absurd hfalse (by simp)
  | declaration => exact absurd hfalse (by simp)

/-- Whatever folds around a declaration is a block or has one around the declaration in it. -/
theorem block_between (h : Fills statements xs ys) :
    ∀ n ∈ visitedAll xs, n.foldKind? ≠ none → ∀ d ∈ n.visited, isDeclaration d = true →
      ∃ b ∈ n.visited, b.foldKind? = some .block ∧ d ∈ b.visited := by
  induction h with
  | nil => simp [visitedAll]
  | comment _ ih =>
      intro n hn hfold d hd hdeclaration
      rcases mem_visitedAll_leaf.mp hn with rfl | hn
      · rw [Node.visited, List.mem_singleton] at hd
        exact absurd hdeclaration (by rw [hd]; simp [isDeclaration])
      · exact ih n hn hfold d hd hdeclaration
  | block _ _ ihinner ih =>
      intro n hn hfold d hd hdeclaration
      rcases mem_visitedAll_container.mp hn with rfl | hn | hn
      · exact ⟨_, by simp [Node.visited], rfl, hd⟩
      · exact ihinner n hn hfold d hd hdeclaration
      · exact ih n hn hfold d hd hdeclaration
  | group _ hinner _ ihinner ih =>
      intro n hn hfold d hd hdeclaration
      rcases mem_visitedAll_container.mp hn with rfl | hn | hn
      · rw [Node.visited, List.mem_cons] at hd
        rcases hd with rfl | hd
        · exact absurd hdeclaration (by simp [isDeclaration])
        · obtain ⟨b, hb, hblock⟩ := hinner.declared_in_block d hd hdeclaration
          exact ⟨b, by rw [Node.visited]; exact List.mem_cons_of_mem _ hb, hblock⟩
      · exact ihinner n hn hfold d hd hdeclaration
      · exact ih n hn hfold d hd hdeclaration
  | statement hinfo _ _ ihinner ih =>
      intro n hn hfold d hd hdeclaration
      rcases mem_visitedAll_container.mp hn with rfl | hn | hn
      · exact absurd (foldKind?_of_statement hinfo) hfold
      · exact ihinner n hn hfold d hd hdeclaration
      · exact ih n hn hfold d hd hdeclaration
  | declaration _ _ _ _ ih =>
      intro n hn hfold d hd hdeclaration
      rcases mem_visitedAll_leaf.mp hn with rfl | hn
      · exact absurd rfl hfold
      · exact ih n hn hfold d hd hdeclaration

end Fills

/-! ### Lines that are won -/

/-- What the outline has in the declaration `d` begins on the line of a block around `d`. -/
def OnBlockLine (lines : LineIndex) (full : List Node) (d o : Node) : Prop :=
  ∃ b ∈ full, b.foldKind? = some .block ∧ b.start ≤ d.start ∧ d.stop ≤ b.stop
    ∧ lines.lineOf b.start = lines.lineOf o.start

/-- Every candidate that the outline has in a declaration begins on the line of a block around
it. -/
def AllOnBlockLine (lines : LineIndex) (config : Config) (full outline : List Node) : Prop :=
  ∀ d ∈ full, isDeclaration d = true → ∀ o ∈ outline, d.start ≤ o.start → o.stop ≤ d.stop →
    (Fold.candidate? lines config o).isSome = true → OnBlockLine lines full d o

instance (lines : LineIndex) (full : List Node) (d o : Node) :
    Decidable (OnBlockLine lines full d o) :=
  inferInstanceAs (Decidable (∃ b ∈ full, _ ∧ _ ∧ _ ∧ _))

instance (lines : LineIndex) (config : Config) (full outline : List Node) :
    Decidable (AllOnBlockLine lines config full outline) :=
  inferInstanceAs (Decidable (∀ d ∈ full, _ → ∀ o ∈ outline, _ → _ → _ → _))

namespace Fills

open Fold LineIndex

variable {statements : Bool} {xs ys : List Node} {cs : List Char} {config : Config}

/-- The candidates of a full row are among those of the outline. -/
theorem candidate_kept (h : Fills statements xs ys) {c : Candidate}
    (hc : c ∈ (visitedAll xs).filterMap (candidate? (ofChars cs) config)) :
    c ∈ (visitedAll ys).filterMap (candidate? (ofChars cs) config) := by
  obtain ⟨n, hn, hc⟩ := List.mem_filterMap.mp hc
  have hfold : n.foldKind? ≠ none := by
    rw [(marks_of_candidate? hc).kind]
    simp
  obtain ⟨o, ho, halike⟩ := h.kept n hn hfold
  exact List.mem_filterMap.mpr ⟨o, ho, (candidate?_of_alike _ _ halike).trans hc⟩

/-- Where the outline has a candidate that is not of the full row, a block of the full row
beats it on its line. -/
theorem candidate_added (h : Fills statements xs ys) {lo hi : Int} (hrow : Row lo hi xs)
    (hblocks : AllOnBlockLine (ofChars cs) config (visitedAll xs) (visitedAll ys)) {c : Candidate}
    (hc : c ∈ (visitedAll ys).filterMap (candidate? (ofChars cs) config)) :
    c ∈ (visitedAll xs).filterMap (candidate? (ofChars cs) config)
      ∨ ∃ e ∈ (visitedAll xs).filterMap (candidate? (ofChars cs) config),
        e.startLine = c.startLine ∧ e.kind = .block ∧ c.span ≤ e.span := by
  obtain ⟨o, ho, hc⟩ := List.mem_filterMap.mp hc
  rcases h.added hrow o ho with ⟨n, hn, halike⟩ | ⟨d, hd, hdeclaration, hstart, hstop⟩
  · exact Or.inl (List.mem_filterMap.mpr ⟨n, hn, (candidate?_of_alike _ _ halike).symm.trans hc⟩)
  · obtain ⟨b, hb, hblock, hbefore, hafter, hline⟩ :=
      hblocks d hd hdeclaration o ho hstart hstop (by rw [hc]; rfl)
    obtain ⟨e, he, hsame, hkind, hspan⟩ := candidate?_around config
      (marks_of_candidate? hc) hblock (Int.le_trans hbefore hstart) (Int.le_trans hstop hafter) hline
    exact Or.inr ⟨e, List.mem_filterMap.mpr ⟨b, hb, he⟩, hsame, hkind, hspan⟩

theorem rank_of_block {e : Candidate} (h : e.kind = .block) : e.kind.rank = 0 := by
  rw [h]
  rfl

/-- Where blocks begin on the lines of all candidates in declarations, the lines are won alike. -/
theorem lines_eq_of_onBlockLine (h : Fills statements xs ys) {lo hi : Int} (hrow : Row lo hi xs)
    (hblocks : AllOnBlockLine (ofChars cs) config (visitedAll xs) (visitedAll ys)) :
    (resolve ((visitedAll xs).filterMap (candidate? (ofChars cs) config))).map FoldRegion.lines
      = (resolve ((visitedAll ys).filterMap (candidate? (ofChars cs) config))).map
        FoldRegion.lines := by
  have hrow' := h.row hrow
  have heven := even_candidates cs config hrow'.mem_visitedAll
    (hrow'.laminar h.bare.2)
  have heven' := even_candidates cs config hrow.mem_visitedAll
    (hrow.laminar h.bare.1)
  refine lines_resolve_eq heven' heven fun p => ⟨?_, ?_⟩
  · rintro ⟨w, hw, hp⟩
    refine ⟨w, ⟨h.candidate_kept hw.mem, fun c hc hline => ?_⟩, hp⟩
    rcases h.candidate_added hrow hblocks hc with hc | ⟨e, he, hsame, hkind, hspan⟩
    · exact hw.beats c hc hline
    · have hbeats := hw.beats e he (hsame.trans hline)
      have hrank := rank_of_block hkind
      unfold Candidate.Beats at hbeats ⊢
      omega
  · rintro ⟨w, hw, hp⟩
    have hbest {v : Candidate}
        (hv : v ∈ (visitedAll xs).filterMap (candidate? (ofChars cs) config))
        (hbeats : v.Beats w) (hline : v.startLine = w.startLine) :
        Candidate.Best ((visitedAll xs).filterMap (candidate? (ofChars cs) config)) v :=
      ⟨hv, fun c hc hc' => hbeats.trans (hw.beats c (h.candidate_kept hc) (hc'.trans hline))⟩
    rcases h.candidate_added hrow hblocks hw.mem with hmem | ⟨e, he, hsame, hkind, hspan⟩
    · exact ⟨w, hbest hmem (Candidate.Beats.refl w) rfl, hp⟩
    · -- The block beats what won the line, so it is as long and covers the same lines.
      have hbeats := hw.beats e (h.candidate_kept he) hsame
      have hrank := rank_of_block hkind
      unfold Candidate.Beats at hbeats
      refine ⟨e, hbest he (Or.inr ⟨by omega, hspan⟩) hsame, ?_⟩
      rw [← hp]
      exact heven e (h.candidate_kept he) w hw.mem hsame (by omega)

/-- Where the lines are won alike, blocks begin on the lines of all candidates in declarations. -/
theorem onBlockLine_of_lines_eq (h : Fills statements xs ys) {lo hi : Int} (hrow : Row lo hi xs)
    (heq : (resolve ((visitedAll xs).filterMap (candidate? (ofChars cs) config))).map
        FoldRegion.lines
      = (resolve ((visitedAll ys).filterMap (candidate? (ofChars cs) config))).map
        FoldRegion.lines) :
    AllOnBlockLine (ofChars cs) config (visitedAll xs) (visitedAll ys) := by
  intro d hd hdeclaration o ho hstart hstop hcandidate
  obtain ⟨c, hc⟩ := Option.isSome_iff_exists.mp hcandidate
  have hmarks := marks_of_candidate? hc
  -- Both trees have a region on the line of the hidden candidate.
  have hregion := (exists_region_iff _ c.startLine).mpr ⟨c, List.mem_filterMap.mpr ⟨o, ho, hc⟩, rfl⟩
  rw [← heq] at hregion
  obtain ⟨e, he, hline⟩ := (exists_region_iff _ c.startLine).mp hregion
  obtain ⟨n, hn, he⟩ := List.mem_filterMap.mp he
  have hmarks' := marks_of_candidate? he
  have hfold : n.foldKind? ≠ none := by
    rw [hmarks'.kind]
    simp
  rcases hrow.laminar h.bare.1 n hn d hd with hmem | hmem | happart | happart
  · rw [visited_of_declaration hdeclaration, List.mem_singleton] at hmem
    exact absurd (foldKind?_of_declaration hdeclaration) (hmem ▸ hfold)
  · obtain ⟨b, hb, hblock, hinside⟩ := h.block_between n hn hfold d hmem hdeclaration
    have hnested := hrow.mem_visitedAll n hn
    obtain ⟨hbefore, -⟩ := hnested.inside b hb
    obtain ⟨hbegin, hend⟩ := (hnested.mem_visited b hb).inside d hinside
    refine ⟨b, Node.visitedAll_trans hn hb, hblock, hbegin, hend, ?_⟩
    -- The block begins between what folds on the line and what is hidden on it.
    have hfirst := lineOf_mono cs hbefore
    have hthen := lineOf_mono cs (Int.le_trans hbegin hstart)
    have hfrom := hmarks'.startLine
    have hto := hmarks.startLine
    omega
  · exact absurd (Int.le_trans happart hstart) (hmarks'.not_before hmarks hline)
  · exact absurd (Int.le_trans hstop happart) (hmarks.not_before hmarks' hline.symm)

end Fills

/-! ### Roots -/

variable {lines : LineIndex} {config : Config} {a b : Int} {xs ys : List Node}

theorem regions_document :
    Fold.regions lines config (.container a b .document xs)
      = Fold.resolve ((visitedAll xs).filterMap (Fold.candidate? lines config)) := by
  have hnone : Fold.candidate? lines config (.container a b .document xs) = none := rfl
  rw [Fold.regions, Fold.candidates, Node.visited, List.filterMap_cons_none hnone]

theorem allOnBlockLine_document :
    AllOnBlockLine lines config (Node.container a b .document xs).visited
        (Node.container a b .document ys).visited
      ↔ AllOnBlockLine lines config (visitedAll xs) (visitedAll ys) := by
  rw [Node.visited, Node.visited]
  constructor
  · intro h d hd hdeclaration o ho hstart hstop hcandidate
    obtain ⟨n, hn, hblock, hinside⟩ := h d (List.mem_cons_of_mem _ hd) hdeclaration o
      (List.mem_cons_of_mem _ ho) hstart hstop hcandidate
    rcases List.mem_cons.mp hn with rfl | hn
    · exact absurd hblock (by simp [Node.foldKind?])
    · exact ⟨n, hn, hblock, hinside⟩
  · intro h d hd hdeclaration o ho hstart hstop hcandidate
    rcases List.mem_cons.mp hd with rfl | hd
    · exact absurd hdeclaration (by simp [isDeclaration])
    rcases List.mem_cons.mp ho with rfl | ho
    · exact absurd hcandidate (by simp [Fold.candidate?, Node.foldKind?])
    obtain ⟨n, hn, hblock⟩ := h d hd hdeclaration o ho hstart hstop hcandidate
    exact ⟨n, List.mem_cons_of_mem _ hn, hblock⟩

end Stylesheet

open Stylesheet in
/-- **When a stylesheet and its outline fold alike.**  As long as the addresses in it are plain,
the regions are on the same lines if and only if every candidate that the outline has in a
declaration begins on the line of a block around the declaration. -/
theorem Language.stylesheet_folds_agree_iff (config : Config) (source : String)
    (hplain : ∀ t ∈ (stylesheet.analyze config source).tokens, isPlainText t = true) :
    (stylesheet.analyze config source).folds.map FoldRegion.lines
        = (stylesheet.outline config source).folds.map FoldRegion.lines
      ↔ AllOnBlockLine (LineIndex.ofSource source) config
          (stylesheet.analyze config source).tree.visited
          (stylesheet.outline config source).tree.visited := by
  have hembedded := (Stylesheet.lex_plain .rich 0 (List.prefix_refl source.toList)).embedded
  have htokens : (stylesheet.analyze config source).tokens
      = (Stylesheet.lex .rich 0 source.toList).tokens := by
    rw [← Token.flatten_of_embedded_nil hembedded,
      ← lex_stylesheet_whole .rich config.embeddedLanguages]
    rfl
  rw [htokens] at hplain
  obtain ⟨xs, ys, hfull, houtline, hrow, hfills, -, -⟩ :=
    Language.outline_fills config source.toList hplain
  have hfull' : (stylesheet.analyze config source).tree
      = .container 0 source.toList.length .document xs :=
    hfull
  have houtline' : (stylesheet.outline config source).tree
      = .container 0 source.toList.length .document ys := houtline
  have hfolds : (stylesheet.analyze config source).folds
      = Fold.regions (LineIndex.ofSource source) config (stylesheet.analyze config source).tree := rfl
  have hfolds' : (stylesheet.outline config source).folds
      = Fold.regions (LineIndex.ofSource source) config (stylesheet.outline config source).tree := rfl
  rw [hfolds, hfolds', hfull', houtline', regions_document, regions_document, allOnBlockLine_document]
  exact ⟨hfills.onBlockLine_of_lines_eq hrow, hfills.lines_eq_of_onBlockLine hrow⟩

open Stylesheet in
/-- The arguments of a function on lines of their own fold in the outline alone. -/
theorem Language.stylesheet_folds_differ_in_declaration :
    let source := "a \x7b\n  b: f(\n    c,\n    d\n  );\n\x7d\n"
    (∀ t ∈ (stylesheet.analyze {} source).tokens, isPlainText t = true)
      ∧ (stylesheet.analyze {} source).folds.map FoldRegion.lines
        ≠ (stylesheet.outline {} source).folds.map FoldRegion.lines := by
  intro source
  have hplain : ∀ t ∈ (stylesheet.analyze {} source).tokens, isPlainText t = true := by
    decide +kernel
  refine ⟨hplain, fun heq => ?_⟩
  have hblocks := (stylesheet_folds_agree_iff {} source hplain).mp heq
  exact absurd hblocks (by decide +kernel)

end SourceView
