/-
Which regions of a stylesheet survive an edit further down.

A character is put in somewhere below the last line of a region.  What the region folds ends
there at the latest.  If it ends before, it stands in the outline of the edited text as well,
and so does whatever begins on its line and ends before the edit.  What else begins on that
line goes around the edit in both texts, and so it is longer than what the region folds: it
has lost the line already or would have won it.

If it ends just where the edit is, it was never closed, and came to an end there because a
closer of something further out was next or nothing at all.  Most characters put in there
belong to it, so it becomes longer, and still wins the line.  `stylesheet_folds_survive_iff`
says that this is the only way in which such a region is lost.
-/
import SourceView.Proofs.Stylesheet.Folds
import SourceView.Proofs.Stylesheet.Locality

namespace SourceView

open LineIndex

/-! ### Lines of two texts that begin alike -/

namespace LineIndex

variable {p : List Char} {i : Int}

theorem lineOf_append (hi : i ≤ p.length) (s s' : List Char) :
    (ofChars (p ++ s)).lineOf i = (ofChars (p ++ s')).lineOf i := by
  have hle : i.toNat ≤ p.length := by omega
  rw [lineOf_ofChars, lineOf_ofChars, List.take_append_of_le_length hle,
    List.take_append_of_le_length hle]

/-- Where a line begins a line feed comes before. -/
theorem getLast?_of_lineOf_lt {s : List Char}
    (h : (ofChars (p ++ s)).lineOf (p.length - 1) < (ofChars (p ++ s)).lineOf p.length) :
    p.getLast? = some '\n' := by
  rcases List.eq_nil_or_concat p with rfl | ⟨q, c, rfl⟩
  · simp [lineOf] at h
  · have hbefore : ((q.concat c).length - 1 : Int).toNat = q.length := by
      rw [List.length_concat]
      omega
    rw [lineOf_ofChars, lineOf_ofChars, hbefore, Int.toNat_natCast, List.take_left,
      List.concat_eq_append, List.append_assoc, List.take_left, List.count_append] at h
    by_cases hc : c = '\n'
    · rw [hc, List.concat_eq_append, List.getLast?_concat]
    · rw [List.count_singleton, if_neg (by simpa using hc)] at h
      omega

end LineIndex

/-! ### Regions and their nodes -/

/-- The region folds the node: the node's candidate is the best on its line. -/
def Fold.Folds (lines : LineIndex) (config : Config) (root : Node) (r : FoldRegion) (n : Node) :
    Prop :=
  n ∈ root.visited ∧ ∃ w, candidate? lines config n = some w
    ∧ Candidate.Best (candidates lines config root) w ∧ w.region = r

namespace Stylesheet

open Fold Candidate
open Node (visitedAll)

variable {p s s' : List Char} {config : Config} {m n : Node} {c w : Candidate}

/-- The candidates of the outline of a text. -/
def outlineCandidates (config : Config) (text : List Char) : List Candidate :=
  (visitedAll (drafted text)).filterMap (candidate? (ofChars text) config)

theorem even_outlineCandidates (config : Config) (text : List Char) :
    Even (outlineCandidates config text) :=
  even_candidates text config (row_drafted text).mem_visitedAll (laminar_drafted text)

/-- What ends where two texts part is the same candidate in both. -/
theorem candidate?_append (config : Config) (hstart : n.start ≤ p.length)
    (hstop : n.stop ≤ p.length) (s s' : List Char) :
    candidate? (ofChars (p ++ s)) config n = candidate? (ofChars (p ++ s')) config n := by
  unfold candidate?
  rw [lineOf_append hstart s s', lineOf_append (i := max n.start (n.stop - 1)) (by omega) s s']

/-- Of a candidate that goes past the place where two texts part there is one in the other text
that begins alike and goes past it as well. -/
theorem Reaches.exists_candidate (h : Reaches p s m)
    (hm : candidate? (ofChars (p ++ s)) config m = some c)
    (hline : c.startLine + 1 < (ofChars (p ++ s)).lineOf (p.length - 1)) (s' : List Char) :
    ∃ o ∈ visitedAll (drafted (p ++ s')), ∃ d, candidate? (ofChars (p ++ s')) config o = some d
      ∧ o.start = m.start ∧ reach p s' ≤ o.stop ∧ d.startLine = c.startLine ∧ d.kind = c.kind
      ∧ d.span = o.stop - o.start := by
  have hstart : m.start + 1 < p.length := by
    by_contra hge
    have hmono := lineOf_mono (p ++ s) (show (p.length : Int) - 1 ≤ m.start by omega)
    have hfirst := (marks_of_candidate? hm).startLine
    omega
  obtain ⟨o, ho, hbegins, hstop⟩ := h.matched.resolve_left (by omega) s'
  have hreach := length_le_reach p s'
  have hfirst : (ofChars (p ++ s')).lineOf o.start = c.startLine := by
    rw [hbegins.start, (marks_of_candidate? hm).startLine]
    exact lineOf_append (by omega) s' s
  have hlast :
      (ofChars (p ++ s)).lineOf (p.length - 1) ≤ (ofChars (p ++ s')).lineOf (o.stop - 1) := by
    rw [lineOf_append (by omega) s s']
    exact lineOf_mono (p ++ s') (by omega)
  have hkind : o.foldKind? = some c.kind := hbegins.foldKind.trans (marks_of_candidate? hm).kind
  have hshown : (o.isComment && !config.foldComments) = false := by
    rw [hbegins.comment]
    exact shown_of_candidate? hm
  exact ⟨o, ho, _, candidate?_eq_some hkind hshown (by omega), hbegins.start, hstop, hfirst, rfl,
    rfl⟩

/-- **What has won its line and ends before a place in the text wins it whatever follows.** -/
theorem best_of_stop_lt (hn : n ∈ visitedAll (drafted (p ++ s)))
    (hw : candidate? (ofChars (p ++ s)) config n = some w)
    (hbest : Best (outlineCandidates config (p ++ s)) w) (hstop : n.stop < p.length)
    (s' : List Char) : Best (outlineCandidates config (p ++ s')) w := by
  have hmarks := marks_of_candidate? hw
  have hspan := ((row_drafted (p ++ s)).mem_visitedAll n hn).le
  have hmem (s' : List Char) : w ∈ outlineCandidates config (p ++ s') := by
    refine List.mem_filterMap.mpr ⟨n, stands_of_stop_lt hn hstop s', ?_⟩
    rw [← hw]
    exact candidate?_append config (by omega) (by omega) s' s
  refine ⟨hmem s', fun c hc hline => ?_⟩
  obtain ⟨m, hm, hc⟩ := List.mem_filterMap.mp hc
  rcases stands_or_reaches hm with ⟨hstands, hend, -⟩ | hreaches
  · -- What ends before the place was beaten already.
    have hle := ((row_drafted (p ++ s')).mem_visitedAll m hm).le
    rw [candidate?_append config (by omega) hend s' s] at hc
    exact hbest.beats c (List.mem_filterMap.mpr ⟨m, hstands s, hc⟩) hline
  · -- What goes past it did so before, and was beaten although it is longer.
    have hhides := hmarks.hides
    have hlast := hmarks.endLine
    have hmono := lineOf_mono (p ++ s) (show n.stop - 1 ≤ (p.length : Int) - 1 by omega)
    rw [lineOf_append (i := (p.length : Int) - 1) (by omega) s s'] at hmono
    obtain ⟨o, ho, d, hd, -, hreach, hsame, hkind, hlength⟩ :=
      hreaches.exists_candidate hc (by omega) s
    have hpast := Int.le_trans (length_le_reach p s) hreach
    have hbeats := hbest.beats d (List.mem_filterMap.mpr ⟨o, ho, hd⟩) (hsame.trans hline)
    rw [Beats, hkind] at hbeats
    refine Or.inl (hbeats.resolve_right fun hlonger => ?_)
    have hshorter := hmarks.span
    rcases laminar_drafted (p ++ s) o ho n hn with hin | hin | happart | happart
    · have hinside := ((row_drafted (p ++ s)).mem_visitedAll n hn).inside o hin
      omega
    · have hinside := ((row_drafted (p ++ s)).mem_visitedAll o ho).inside n hin
      omega
    · omega
    · exact hmarks.not_before (marks_of_candidate? hd) (hsame.trans hline).symm happart

/-- What has won its line and ends at a place in the text becomes longer, if what follows
begins with a character that a structural run does not stop at. -/
theorem lines_ne_of_stop_eq (hn : n ∈ visitedAll (drafted (p ++ s)))
    (hw : candidate? (ofChars (p ++ s)) config n = some w)
    (hbest : Best (outlineCandidates config (p ++ s)) w) (hstop : n.stop = p.length)
    (hline : w.endLine + 1 < (ofChars (p ++ s)).lineOf p.length) {ch : Char}
    (hch : isStructuralStop ch = false) {v : Candidate}
    (hv : Best (outlineCandidates config (p ++ ch :: s')) v) : v.lines ≠ w.lines := by
  intro hlines
  have hstart : v.startLine = w.startLine := Int.ofNat_inj.mp (congrArg Prod.fst hlines)
  have hend : v.endLine = w.endLine := Int.ofNat_inj.mp (congrArg Prod.snd hlines)
  have hmarks := marks_of_candidate? hw
  have hhides := hmarks.hides
  have hlast := hmarks.endLine
  have hshorter := hmarks.span
  rw [hstop] at hlast
  have hlong : reach p (ch :: s') = p.length + 1 := by
    rw [reach, if_pos (by simp [hch])]
  -- What has the lines in the other text ends before the place, and so was there already.
  obtain ⟨m, hm, hv'⟩ := List.mem_filterMap.mp hv.mem
  have hbefore : m.stop ≤ p.length := by
    by_contra hlt
    have hmono := lineOf_mono (p ++ ch :: s') (show (p.length : Int) ≤ m.stop - 1 by omega)
    have hlast' := (marks_of_candidate? hv').endLine
    rw [lineOf_append (Int.le_refl _) (ch :: s') s] at hmono
    omega
  have hstands : Stands p m := by
    rcases stands_or_reaches hm with ⟨hstands, -⟩ | hreaches
    · exact hstands
    · have hreach := hreaches.stop
      omega
  have hbeats : w.Beats v := by
    have hle := ((row_drafted (p ++ ch :: s')).mem_visitedAll m hm).le
    rw [candidate?_append config (by omega) hbefore (ch :: s') s] at hv'
    exact hbest.beats v (List.mem_filterMap.mpr ⟨m, hstands s, hv'⟩) hstart
  -- What had them goes past the place, and in the other text something does that begins alike.
  have hreaches : Reaches p s n := by
    refine (stands_or_reaches hn).resolve_left fun ⟨_, _, hends⟩ => ?_
    have hfeed := getLast?_of_lineOf_lt (p := p) (s := s) (by omega)
    have hlt := hends (by rw [hfeed]; rfl)
    omega
  obtain ⟨o, ho, d, hd, hsame, hreach, hline', hkind, hlength⟩ :=
    hreaches.exists_candidate hw (by omega) (ch :: s')
  have hbeats' := hv.beats d (List.mem_filterMap.mpr ⟨o, ho, hd⟩) (hline'.trans hstart.symm)
  unfold Beats at hbeats hbeats'
  rw [hkind] at hbeats'
  omega

theorem outline_folds (config : Config) (source : String) :
    (Language.stylesheet.outline config source).folds
      = resolve (outlineCandidates config source.toList) := by
  show regions _ config (Language.stylesheet.pass config .structural source.toList).parse.tree = _
  rw [tree_eq_drafted, regions_document]
  rfl

theorem folds_outline_iff {source : String} {r : FoldRegion} :
    Folds (LineIndex.ofSource source) config (Language.stylesheet.outline config source).tree r n
      ↔ n ∈ visitedAll (drafted source.toList) ∧ ∃ w,
        candidate? (ofChars source.toList) config n = some w
          ∧ Best (outlineCandidates config source.toList) w ∧ w.region = r := by
  have htree : (Language.stylesheet.outline config source).tree
      = .container 0 source.toList.length .document (drafted source.toList) :=
    tree_eq_drafted config source.toList
  have hcandidates : candidates (LineIndex.ofSource source) config
      (.container 0 source.toList.length .document (drafted source.toList))
      = outlineCandidates config source.toList := by
    rw [candidates, Node.visited, List.filterMap_cons_none rfl]
    rfl
  rw [Folds, htree, hcandidates, Node.visited, List.mem_cons]
  constructor
  · rintro ⟨rfl | hn, w, hw, hbest⟩
    · exact absurd hw (by simp [candidate?, Node.foldKind?])
    · exact ⟨hn, w, hw, hbest⟩
  · rintro ⟨hn, hfolds⟩
    exact ⟨Or.inr hn, hfolds⟩

end Stylesheet

open Stylesheet Fold in
/-- **A region of a stylesheet that ends above an edit is lost only if what it folds ends just
there.** -/
theorem Language.stylesheet_folds_survive_iff (config : Config) (before after : String)
    (r : FoldRegion) (hr : r ∈ (stylesheet.outline config (before ++ after)).folds)
    (hline : r.endLine + 1 < (LineIndex.ofSource (before ++ after)).lineOf before.length) :
    (∀ ch : Char, r.lines ∈
        (stylesheet.outline config (before ++ String.singleton ch ++ after)).folds.map
          FoldRegion.lines)
      ↔ ∀ n, Folds (LineIndex.ofSource (before ++ after)) config
          (stylesheet.outline config (before ++ after)).tree r n → n.stop ≠ before.length := by
  have hedited (ch : Char) : (before ++ String.singleton ch ++ after).toList
      = before.toList ++ ch :: after.toList := by simp
  have hlines (ch : Char) : r.lines ∈
        (stylesheet.outline config (before ++ String.singleton ch ++ after)).folds.map
          FoldRegion.lines
      ↔ ∃ w, Candidate.Best (outlineCandidates config (before.toList ++ ch :: after.toList)) w
        ∧ w.lines = r.lines := by
    rw [outline_folds, hedited]
    exact mem_lines_resolve (even_outlineCandidates config _) r.lines
  have hlength : (before.length : Int) = before.toList.length := by rw [String.length_toList]
  rw [LineIndex.ofSource, String.toList_append, hlength] at hline
  constructor
  · intro hkept n hn hstop
    rw [folds_outline_iff, String.toList_append] at hn
    obtain ⟨hn, w, hw, hbest, rfl⟩ := hn
    obtain ⟨v, hv, hsame⟩ := (hlines 'a').mp (hkept 'a')
    refine lines_ne_of_stop_eq hn hw hbest (hstop.trans hlength) (Int.ofNat_lt.mp hline) ?_ hv hsame
    decide
  · intro hclear ch
    rw [outline_folds] at hr
    obtain ⟨w, hw, rfl⟩ := List.mem_map.mp hr
    have hbest := (winners_wins _).best w hw
    obtain ⟨n, hn, hw⟩ := List.mem_filterMap.mp hbest.mem
    have hstop := hclear n (folds_outline_iff.mpr ⟨hn, w, hw, hbest, rfl⟩)
    rw [String.toList_append] at hn hw hbest
    have hlt : n.stop < before.toList.length := by
      have hle : n.stop ≤ before.toList.length := by
        by_contra hgt
        have hmono := lineOf_mono (before.toList ++ after.toList)
          (show (before.toList.length : Int) ≤ n.stop - 1 by omega)
        have hlast := (marks_of_candidate? hw).endLine
        have hline : w.endLine + 1 < (ofChars (before.toList ++ after.toList)).lineOf
            before.toList.length := Int.ofNat_lt.mp hline
        omega
      omega
    exact (hlines ch).mpr ⟨w, best_of_stop_lt hn hw hbest hlt (ch :: after.toList), rfl⟩

open Stylesheet Fold in
/-- A block that is never closed becomes longer with what is put in at its end. -/
theorem Language.stylesheet_folds_lost_in_open_block :
    let before := "\x7b\n\n\n"
    let r : FoldRegion := ⟨1, 2, .block⟩
    r ∈ (stylesheet.outline {} (before ++ "")).folds
      ∧ r.endLine + 1 < (LineIndex.ofSource (before ++ "")).lineOf before.length
      ∧ ¬ ∀ ch : Char, r.lines ∈
        (stylesheet.outline {} (before ++ String.singleton ch ++ "")).folds.map
          FoldRegion.lines := by
  intro before r
  have hcandidates : candidates (LineIndex.ofSource (before ++ "")) {}
      (stylesheet.outline {} (before ++ "")).tree = [⟨1, 2, 4, .block⟩] := by
    decide +kernel
  have hr : r ∈ (stylesheet.outline {} (before ++ "")).folds := by
    show r ∈ resolve (candidates (LineIndex.ofSource (before ++ "")) {}
      (stylesheet.outline {} (before ++ "")).tree)
    rw [hcandidates, resolve_of_pairwise (by decide)]
    exact List.mem_singleton.mpr rfl
  have hline : r.endLine + 1 < (LineIndex.ofSource (before ++ "")).lineOf before.length := by
    decide +kernel
  refine ⟨hr, hline, fun hkept => ?_⟩
  refine (stylesheet_folds_survive_iff {} before "" r hr hline).mp hkept
    (.container 0 4 (.block false) [])
    ⟨by decide +kernel, ⟨1, 2, 4, .block⟩, by decide +kernel, ?_, rfl⟩ (by decide)
  rw [hcandidates]
  refine ⟨List.mem_singleton.mpr rfl, fun c hc _ => ?_⟩
  exact List.mem_singleton.mp hc ▸ Candidate.Beats.refl _

end SourceView
