/-
What a candidate says about its node.

A candidate begins on the line of its node and ends on the line before that of the node's
last character, and there is a line between the two.  So nodes that lie apart are never
candidates on one line, and a node that begins on the line of a candidate and goes around it
is a candidate as well.
-/
import SourceView.Proofs.Fold.Winners
import SourceView.Proofs.Lines
import SourceView.Proofs.Tree.Nesting

namespace SourceView

/-- The two nodes are the same to a fold analysis. -/
structure Node.Alike (m n : Node) : Prop where
  start : m.start = n.start
  stop : m.stop = n.stop
  foldKind : m.foldKind? = n.foldKind?
  comment : m.isComment = n.isComment

namespace Fold

open LineIndex

variable {cs : List Char} {config : Config} {m n : Node} {c d : Candidate}

theorem candidate?_of_alike (lines : LineIndex) (config : Config) (h : m.Alike n) :
    candidate? lines config m = candidate? lines config n := by
  unfold candidate?
  rw [h.start, h.stop, h.foldKind, h.comment]

/-- How a candidate lies to its node. -/
structure Marks (cs : List Char) (n : Node) (c : Candidate) : Prop where
  startLine : c.startLine = (ofChars cs).lineOf n.start
  endLine : c.endLine + 1 = (ofChars cs).lineOf (n.stop - 1)
  hides : c.startLine < c.endLine
  span : c.span = n.stop - n.start
  kind : n.foldKind? = some c.kind

theorem marks_of_candidate? (h : candidate? (ofChars cs) config n = some c) : Marks cs n c := by
  unfold candidate? at h
  cases hkind : n.foldKind? with
  | none => simp [hkind] at h
  | some kind =>
      simp only [hkind] at h
      split at h
      · exact absurd h (by simp)
      split at h
      · rename_i hlines
        -- More than one line lies between, so the node has more than one character.
        have hlast : max n.start (n.stop - 1) = n.stop - 1 := by
          by_cases hle : n.start ≤ n.stop - 1
          · exact Int.max_eq_right hle
          · rw [Int.max_eq_left (by omega)] at hlines
            omega
        rw [hlast] at h hlines
        rw [Option.some.injEq] at h
        subst h
        refine ⟨rfl, ?_, ?_, rfl, hkind⟩
        · show (ofChars cs).lineOf (n.stop - 1) - 1 + 1 = (ofChars cs).lineOf (n.stop - 1)
          omega
        · show (ofChars cs).lineOf n.start < (ofChars cs).lineOf (n.stop - 1) - 1
          omega
      · exact absurd h (by simp)

/-- Of a node that lies before another one and a candidate on the same line there is none. -/
theorem Marks.not_before (h : Marks cs m c) (h' : Marks cs n d)
    (hline : c.startLine = d.startLine) : ¬ m.stop ≤ n.start := by
  intro hle
  have hmono := lineOf_mono cs (show m.stop - 1 ≤ n.start by omega)
  have hstart := h'.startLine
  have hend := h.endLine
  have hhides := h.hides
  omega

/-- Candidates of one line that are equally long cover the same lines, if their nodes are of
one tree. -/
theorem even_candidates (cs : List Char) (config : Config) {nodes : List Node}
    (hnodes : ∀ n ∈ nodes, n.Nested)
    (hlaminar : ∀ m ∈ nodes, ∀ n ∈ nodes, m.Laminar n) :
    Even (nodes.filterMap (candidate? (ofChars cs) config)) := by
  have hwithin {m n : Node} {c d : Candidate} (hn : n.Nested) (hmem : m ∈ n.visited)
      (hc : Marks cs m c) (hd : Marks cs n d) (hline : c.startLine = d.startLine)
      (hspan : c.span = d.span) : c.lines = d.lines := by
    obtain ⟨hstart, hstop⟩ := hn.inside m hmem
    have hsame : m.stop = n.stop := by
      have hc' := hc.span
      have hd' := hd.span
      omega
    have hlast : c.endLine = d.endLine := by
      have hc' := hc.endLine
      have hd' := hd.endLine
      rw [hsame] at hc'
      omega
    rw [Candidate.lines, Candidate.lines, Candidate.region, Candidate.region, hline, hlast]
    rfl
  intro c hc d hd hline hspan
  obtain ⟨m, hm, hc⟩ := List.mem_filterMap.mp hc
  obtain ⟨n, hn, hd⟩ := List.mem_filterMap.mp hd
  have hc := marks_of_candidate? hc
  have hd := marks_of_candidate? hd
  rcases hlaminar m hm n hn with hmem | hmem | happart | happart
  · exact hwithin (hnodes n hn) hmem hc hd hline hspan
  · exact (hwithin (hnodes m hm) hmem hd hc hline.symm hspan.symm).symm
  · exact absurd happart (hc.not_before hd hline)
  · exact absurd happart (hd.not_before hc hline.symm)

/-- What is a candidate is not hidden as a comment. -/
theorem shown_of_candidate? {lines : LineIndex} (h : candidate? lines config n = some c) :
    (n.isComment && !config.foldComments) = false := by
  unfold candidate? at h
  cases hkind : n.foldKind? with
  | none => simp [hkind] at h
  | some kind =>
      simp only [hkind] at h
      split at h
      · exact absurd h (by simp)
      · rename_i hshown
        exact Bool.not_eq_true _ ▸ hshown

/-- A node with a line between those of its first and its last character is a candidate. -/
theorem candidate?_eq_some {kind : FoldKind} (hkind : n.foldKind? = some kind)
    (hshown : (n.isComment && !config.foldComments) = false)
    (hlines : (ofChars cs).lineOf n.start + 1 < (ofChars cs).lineOf (n.stop - 1)) :
    candidate? (ofChars cs) config n
      = some ⟨(ofChars cs).lineOf n.start, (ofChars cs).lineOf (n.stop - 1) - 1, n.stop - n.start,
          kind⟩ := by
  have hlast : max n.start (n.stop - 1) = n.stop - 1 := by
    refine Int.max_eq_right (Int.not_lt.mp fun hlt => ?_)
    have hmono := lineOf_mono cs (Int.le_of_lt hlt)
    omega
  unfold candidate?
  rw [hkind, hlast]
  simp only [hshown, Bool.false_eq_true, if_false]
  rw [if_pos hlines]

/-- A block around a node that begins on the line of the node's candidate is a candidate that
beats it. -/
theorem candidate?_around (config : Config) (h : Marks cs n c) (hblock : m.foldKind? = some .block)
    (hstart : m.start ≤ n.start) (hstop : n.stop ≤ m.stop)
    (hline : (ofChars cs).lineOf m.start = (ofChars cs).lineOf n.start) :
    ∃ d, candidate? (ofChars cs) config m = some d ∧ d.startLine = c.startLine
      ∧ d.kind = .block ∧ c.span ≤ d.span := by
  have hcomment : m.isComment = false := by
    cases m with
    | leaf _ _ info => cases info <;> simp_all [Node.foldKind?]
    | container => rfl
    | element => rfl
  have hmono := lineOf_mono cs (show n.stop - 1 ≤ m.stop - 1 by omega)
  have hfirst := h.startLine
  have hlast := h.endLine
  have hhides := h.hides
  have hspan := h.span
  refine ⟨_, candidate?_eq_some hblock (by rw [hcomment, Bool.false_and]) (by omega), ?_, rfl, ?_⟩
  · show (ofChars cs).lineOf m.start = c.startLine
    omega
  · show c.span ≤ m.stop - m.start
    omega

end Fold

end SourceView
