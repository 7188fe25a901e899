/-
What an outline has of the folds of a full tree.

Folds come from candidates, in the order of a visit.  Two rows of nodes therefore fold alike
when a visit of either comes upon the same candidates.  A full tree has more nodes than its
outline, but most of them can never be folded, and to leave one of those out, or to put what
stands in it in its place, changes nothing.
-/
import SourceView.Proofs.Fold.Candidates
import SourceView.Proofs.Parsing.ElementOutline

namespace SourceView.Fold

open Node

/-- A visit comes upon the same candidates in both rows. -/
def SameCandidates (lines : LineIndex) (config : Config) (xs ys : List Node) : Prop :=
  (visitedAll xs).filterMap (candidate? lines config)
    = (visitedAll ys).filterMap (candidate? lines config)

namespace SameCandidates

variable {lines : LineIndex} {config : Config} {us vs xs ys : List Node} {a b : Int}

theorem refl (xs : List Node) : SameCandidates lines config xs xs :=
  rfl

theorem append (h : SameCandidates lines config xs ys) (h' : SameCandidates lines config us vs) :
    SameCandidates lines config (xs ++ us) (ys ++ vs) := by
  have hsplit (ns ms : List Node) :
      (visitedAll (ns ++ ms)).filterMap (candidate? lines config)
        = (visitedAll ns).filterMap (candidate? lines config)
          ++ (visitedAll ms).filterMap (candidate? lines config) := by
    induction ns with
    | nil => rfl
    | cons n ns ih =>
        rw [List.cons_append, visitedAll, visitedAll, List.filterMap_append, ih,
          List.filterMap_append, List.append_assoc]
  rw [SameCandidates, hsplit, hsplit, h, h']

/-- Nodes that are alike and hold the same candidates are of no difference. -/
theorem single {m n : Node} (hsame : m.Alike n) {below below' : List Node}
    (hm : m.visited = m :: below) (hn : n.visited = n :: below')
    (h : below.filterMap (candidate? lines config) = below'.filterMap (candidate? lines config)) :
    SameCandidates lines config [m] [n] := by
  simp only [SameCandidates, visitedAll, List.append_nil, hm, hn, List.filterMap_cons,
    candidate?_of_alike lines config hsame, h]

theorem container {info : Container} (h : SameCandidates lines config us vs) :
    SameCandidates lines config [.container a b info us] [.container a b info vs] :=
  single ⟨rfl, rfl, rfl, rfl⟩ rfl rfl h

/-- Attributes are no candidates. -/
theorem visitedAll_attributes (h : ∀ u ∈ us, u.isAttribute = true) :
    (visitedAll us).filterMap (candidate? lines config) = [] := by
  induction us with
  | nil => rfl
  | cons u us ih =>
      have hu := h u (by simp)
      rw [visitedAll, List.filterMap_append, ih fun v hv => h v (by simp [hv])]
      match u, hu with
      | .leaf _ _ (.attribute ..), _ => rfl

theorem element {info : ElementInfo} {attributes : List Node}
    (hattributes : ∀ u ∈ attributes, u.isAttribute = true)
    (h : SameCandidates lines config us vs) :
    SameCandidates lines config [.element a b info attributes us] [.element a b info [] vs] := by
  refine single ⟨rfl, rfl, rfl, rfl⟩ rfl rfl ?_
  rw [List.filterMap_append, visitedAll_attributes hattributes]
  exact h

/-- What is no candidate gives way to what stands in it. -/
theorem within {info : Container} (hinfo : (Node.container a b info us).foldKind? = none)
    (h : SameCandidates lines config us vs) :
    SameCandidates lines config [.container a b info us] vs := by
  have hnone : candidate? lines config (.container a b info us) = none := by
    rw [candidate?, hinfo]
  simp only [SameCandidates, visitedAll, visited, List.append_nil, List.filterMap_cons, hnone]
  exact h

/-- A leaf that is no candidate may be left out. -/
theorem without {info : Leaf} (hnone : candidate? lines config (.leaf a b info) = none) :
    SameCandidates lines config [.leaf a b info] [] := by
  simp only [SameCandidates, visitedAll, visited, List.append_nil, List.filterMap_cons, hnone]

/-- What lies on one line is no candidate. -/
theorem candidate?_of_line {node : Node}
    (h : lines.lineOf node.start = lines.lineOf (max node.start (node.stop - 1))) :
    candidate? lines config node = none := by
  unfold candidate?
  split
  · rfl
  split
  · rfl
  · rw [if_neg (by omega)]

theorem regions_eq {info : Container} (h : SameCandidates lines config xs ys) :
    regions lines config (.container a b info xs)
      = regions lines config (.container a b info ys) := by
  have hroot : SameCandidates lines config [.container a b info xs] [.container a b info ys] :=
    container h
  simp only [SameCandidates, visitedAll, List.append_nil] at hroot
  rw [regions, regions, candidates, candidates, hroot]

end SameCandidates

/-! ### Up to the nesting limit -/

/-- Unless the nesting limit is among the faults, both rows fold alike. -/
def FoldsAlike (lines : LineIndex) (config : Config) (faults : List Fault) (xs ys : List Node) :
    Prop :=
  (∀ fault ∈ faults, fault.cause ≠ .tooDeep) → SameCandidates lines config xs ys

namespace FoldsAlike

variable {lines : LineIndex} {config : Config} {f : List Fault} {xs ys : List Node}

theorem relates (lines : LineIndex) (config : Config) :
    Parsing.Relates (FoldsAlike lines config) := by
  refine ⟨fun _ _ => .refl _, fun h h' hf => (h hf).append (h' hf), ?_⟩
  intro f f' xs ys h hsuffix hf
  exact h fun fault hfault => hf fault (hsuffix.subset hfault)

theorem of_tooDeep (h : ∃ fault ∈ f, fault.cause = .tooDeep) : FoldsAlike lines config f xs ys := by
  obtain ⟨fault, hmem, hdeep⟩ := h
  exact fun hf => absurd hdeep (hf fault hmem)

end FoldsAlike

end SourceView.Fold
