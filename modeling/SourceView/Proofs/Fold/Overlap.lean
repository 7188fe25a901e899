/-
Regions that never overlap in part.

Of two nodes in a tree either one stands below the other or they lie apart, attributes left
aside, and those are never folded.  A candidate begins on the line of its node and ends on
the line before that of the node's last character, so the lines of two candidates are laid
out as their nodes are: the later one ends within the other, or begins after its end.  That
the closing line of a region stays visible is what keeps apart two nodes that touch on one
line.
-/
import SourceView.Analysis
import SourceView.Proofs.Fold.Candidates
import SourceView.Proofs.Parsing.Shape

namespace SourceView

/-! ### Attributes -/

/-- The elements of a tree have attributes for attributes, and nothing else. -/
def Node.Regular (node : Node) : Prop :=
  ∀ n ∈ node.visited, ∀ a ∈ n.attributes, a.isAttribute = true

namespace Node

theorem forall_mem_visitedAll {P : Node → Prop} {nodes : List Node} :
    (∀ n ∈ visitedAll nodes, P n) ↔ ∀ node ∈ nodes, ∀ n ∈ node.visited, P n := by
  induction nodes with
  | nil => simp [visitedAll]
  | cons node nodes ih => simp only [visitedAll, List.forall_mem_append, ih, List.forall_mem_cons]

theorem visited_of_isAttribute {a : Node} (h : a.isAttribute = true) : a.visited = [a] := by
  cases a with
  | leaf => rfl
  | container => simp [isAttribute] at h
  | element => simp [isAttribute] at h

theorem attributes_of_isAttribute {a : Node} (h : a.isAttribute = true) : a.attributes = [] := by
  cases a with
  | leaf => rfl
  | container => rfl
  | element => simp [isAttribute] at h

theorem foldKind?_of_isAttribute {a : Node} (h : a.isAttribute = true) : a.foldKind? = none := by
  cases a with
  | leaf _ _ info => cases info <;> simp_all [isAttribute, foldKind?]
  | container => simp [isAttribute] at h
  | element => simp [isAttribute] at h

/-- Nothing below the attributes of a regular tree can be folded. -/
theorem Regular.foldKind?_eq_none {node n a : Node} (h : node.Regular) (hn : n ∈ node.visited)
    (ha : a ∈ visitedAll n.attributes) : a.foldKind? = none := by
  refine forall_mem_visitedAll (P := fun a => a.foldKind? = none).mpr (fun b hb a ha => ?_) a ha
  have hattribute := h n hn b hb
  rw [visited_of_isAttribute hattribute, List.mem_singleton] at ha
  exact ha ▸ foldKind?_of_isAttribute hattribute

end Node

open Node

theorem Parsing.inherits_regular : Parsing.Inherits Node.Regular where
  leaf _ := by simp [Regular, visited, attributes]
  container h := List.forall_mem_cons.mpr ⟨by simp [attributes], forall_mem_visitedAll.mpr h⟩
  element hattributes h := by
    refine List.forall_mem_cons.mpr ⟨hattributes, List.forall_mem_append.mpr ⟨?_, ?_⟩⟩
    · refine forall_mem_visitedAll.mpr fun a ha => ?_
      rw [visited_of_isAttribute (hattributes a ha)]
      simp [attributes_of_isAttribute (hattributes a ha)]
    · exact forall_mem_visitedAll.mpr h

/-! ### Regions -/

namespace Fold

open LineIndex

variable {cs : List Char} {config : Config} {m n : Node} {c d : Candidate}

/-- Of two candidates the one that begins on a later line ends within the other or begins
after its end, if one of their nodes stands below the other or the nodes lie apart. -/
theorem Marks.within_or_after (hm : m.Nested) (hn : n.Nested) (hlaminar : m.Laminar n)
    (hc : Marks cs m c) (hd : Marks cs n d) (hline : c.startLine < d.startLine) :
    d.endLine ≤ c.endLine ∨ c.endLine < d.startLine := by
  have hstart := hc.startLine
  have hstart' := hd.startLine
  have hend := hc.endLine
  have hend' := hd.endLine
  have hhides := hd.hides
  rcases hlaminar with hmem | hmem | happart | happart
  · have hmono := lineOf_mono cs (hn.inside m hmem).1
    omega
  · have hle := (hm.inside n hmem).2
    have hmono := lineOf_mono cs (show n.stop - 1 ≤ m.stop - 1 by omega)
    exact .inl (by omega)
  · have hmono := lineOf_mono cs (show m.stop - 1 ≤ n.start by omega)
    exact .inr (by omega)
  · have hmono := lineOf_mono cs (show n.stop - 1 ≤ m.start by omega)
    omega

/-- The regions of a tree that nests do not overlap in part. -/
theorem regions_nest {root : Node} (hnested : root.Nested) (hregular : root.Regular) :
    ∀ r ∈ regions (ofChars cs) config root, ∀ s ∈ regions (ofChars cs) config root,
      r.startLine < s.startLine → s.endLine ≤ r.endLine ∨ r.endLine < s.startLine := by
  have hwins := winners_wins (candidates (ofChars cs) config root)
  intro r hr s hs hline
  obtain ⟨c, hc, rfl⟩ := List.mem_map.mp hr
  obtain ⟨d, hd, rfl⟩ := List.mem_map.mp hs
  obtain ⟨m, hm, hcandidate⟩ := List.mem_filterMap.mp (hwins.best c hc).mem
  obtain ⟨n, hn, hcandidate'⟩ := List.mem_filterMap.mp (hwins.best d hd).mem
  have hmarks := marks_of_candidate? hcandidate
  have hmarks' := marks_of_candidate? hcandidate'
  have hlaminar : m.Laminar n := by
    refine hnested.laminar_of (P := fun n => n.foldKind? ≠ none) (fun o ho a ha => ?_) m hm n hn
      (by simp [hmarks.kind]) (by simp [hmarks'.kind])
    exact not_not_intro (hregular.foldKind?_eq_none ho ha)
  have hlaid := hmarks.within_or_after (hnested.mem_visited m hm) (hnested.mem_visited n hn)
    hlaminar hmarks' (Int.ofNat_lt.mp hline)
  exact hlaid.imp Int.ofNat_le.mpr Int.ofNat_lt.mpr

end Fold

namespace Language

open Parsing

/-- **Regions never overlap in part.**  Of any two regions of a full analysis the one that
begins on a later line ends no later than the other, or begins after its end. -/
theorem analyze_folds_nest (language : Language) (config : Config) (source : String) :
    ∀ r ∈ (language.analyze config source).folds, ∀ s ∈ (language.analyze config source).folds,
      r.startLine < s.startLine → s.endLine ≤ r.endLine ∨ r.endLine < s.startLine := by
  have hsnug := language.snug_of_rich config source.toList
  obtain ⟨nodes, htree, hrow⟩ := language.parse_nests hsnug
  have hyields := language.parse_yields inherits_regular (Input.mk
    (language.lex .rich config.embeddedLanguages source.toList 0 none).tokens source.toList .rich
    config 0 source.toList.length)
  rw [htree] at hyields
  have htree' : (language.pass config .rich source.toList).parse.tree
      = .container 0 source.toList.length .document nodes := htree
  have hnested : (language.pass config .rich source.toList).parse.tree.Nested := htree' ▸ hrow
  refine Fold.regions_nest hnested ?_
  rw [htree']
  exact inherits_regular.container hyields

/-- Two rules inside of a block, the second of which is not closed. -/
theorem analyze_folds_nest_of_media_rules :
    let source := "@media print \x7b\n  a \x7b\n    b: c\n\n  \x7d\n  d \x7b\n\n\n\n"
    let outer : FoldRegion := ⟨1, 8, .block⟩
    let first : FoldRegion := ⟨2, 4, .block⟩
    let second : FoldRegion := ⟨6, 8, .block⟩
    (stylesheet.analyze {} source).folds = [outer, first, second]
      ∧ (second.endLine ≤ outer.endLine ∨ outer.endLine < second.startLine)
      ∧ (second.endLine ≤ first.endLine ∨ first.endLine < second.startLine) := by
  intro source outer first second
  have hcandidates : Fold.candidates (LineIndex.ofChars source.toList) {}
      (stylesheet.pass {} .rich source.toList).parse.tree
        = [⟨1, 8, 31, .block⟩, ⟨2, 4, 15, .block⟩, ⟨6, 8, 5, .block⟩] := by
    decide +kernel
  have hfolds : (stylesheet.analyze {} source).folds = [outer, first, second] := by
    show Fold.resolve (Fold.candidates (LineIndex.ofChars source.toList) {}
      (stylesheet.pass {} .rich source.toList).parse.tree) = _
    rw [hcandidates, Fold.resolve_of_pairwise (by decide)]
    rfl
  have hnest := analyze_folds_nest stylesheet {} source
  rw [hfolds] at hnest
  exact ⟨hfolds, hnest outer (by simp) second (by simp) (by decide),
    hnest first (by simp) second (by simp) (by decide)⟩

end Language

end SourceView
