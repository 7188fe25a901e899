/-
Two ways over a tree.

A walk and a visit were made for different readers, one with a stack and one by recursion, and only
a visit goes to attributes.  Where attributes stand nowhere but among the attributes of elements,
that is all they differ in: a visit from which the attributes are left out is a walk.

Where a node stands is said by a path, the places among the children to be taken one after another.
Paths are what tells apart two nodes that are alike.  A path comes before those that go on from it
and before those that turn off to a later place, which is the order of words in a dictionary, and a
walk meets every path of the tree in that order.
-/
import SourceView.Proofs.Fold.Overlap
import SourceView.Proofs.Tree.Walks

namespace SourceView.Node

variable {root node : Node} {nodes attributes : List Node} {path : List Nat}

/-! ### Paths -/

/-- The node that a path leads to. -/
def at? : Node → List Nat → Option Node
  | node, [] => some node
  | node, place :: path => node.children[place]?.bind (at? · path)

mutual

/-- The paths of a tree, a path before those that go on from it. -/
def paths : Node → List (List Nat)
  | leaf .. => [[]]
  | container _ _ _ children | element _ _ _ _ children => [] :: pathsFrom 0 children

/-- The paths through several children, the first of which stands at the given place. -/
def pathsFrom (place : Nat) : List Node → List (List Nat)
  | [] => []
  | node :: nodes => (paths node).map (place :: ·) ++ pathsFrom (place + 1) nodes

end

theorem paths_eq (node : Node) : node.paths = [] :: pathsFrom 0 node.children := by
  cases node <;> rfl

/-- A path through several children takes one of them, and is a path of that child from there. -/
theorem mem_pathsFrom {place : Nat} : path ∈ pathsFrom place nodes ↔
    ∃ k rest, path = (place + k) :: rest ∧ ∃ node, nodes[k]? = some node ∧ rest ∈ node.paths := by
  induction nodes generalizing place with
  | nil => simp [pathsFrom]
  | cons node nodes ih =>
      rw [pathsFrom, List.mem_append, ih, List.mem_map]
      constructor
      · rintro (⟨rest, hrest, rfl⟩ | ⟨k, rest, rfl, hnode⟩)
        · exact ⟨0, rest, rfl, node, rfl, hrest⟩
        · exact ⟨k + 1, rest, by rw [Nat.add_right_comm, Nat.add_assoc], hnode⟩
      · rintro ⟨k, rest, rfl, other, hother, hrest⟩
        cases k with
        | zero => exact .inl ⟨rest, Option.some.inj hother ▸ hrest, rfl⟩
        | succ k =>
            refine .inr ⟨k, rest, ?_, other, hother, hrest⟩
            rw [Nat.add_right_comm, Nat.add_assoc]

/-- The paths of a tree are those that lead somewhere. -/
theorem mem_paths : path ∈ root.paths ↔ (root.at? path).isSome = true := by
  induction path generalizing root with
  | nil => simp [paths_eq, at?]
  | cons place path ih =>
      have hpaths : place :: path ∈ root.paths
          ↔ ∃ node, root.children[place]? = some node ∧ path ∈ node.paths := by
        rw [paths_eq, List.mem_cons, mem_pathsFrom]
        constructor
        · rintro (h | ⟨k, rest, h, hnode⟩)
          · cases h
          · obtain ⟨rfl, rfl⟩ := List.cons_eq_cons.mp h
            exact (Nat.zero_add k).symm ▸ hnode
        · exact fun hnode => .inr ⟨place, path, by rw [Nat.zero_add], hnode⟩
      rw [hpaths, at?]
      cases hplace : root.children[place]? with
      | none => simp
      | some node => simp [ih]

mutual

/-- Paths stand in the order of a dictionary. -/
theorem paths_pairwise : ∀ node : Node, node.paths.Pairwise (· < ·)
  | leaf .. => List.pairwise_singleton _ _
  | container _ _ _ children | element _ _ _ _ children => by
    refine List.pairwise_cons.mpr ⟨fun path hpath => ?_, pathsFrom_pairwise 0 children⟩
    obtain ⟨k, rest, rfl, -⟩ := mem_pathsFrom.mp hpath
    exact List.nil_lt_cons _ _

theorem pathsFrom_pairwise (place : Nat) : ∀ nodes : List Node,
    (pathsFrom place nodes).Pairwise (· < ·)
  | [] => List.Pairwise.nil
  | node :: nodes => by
    refine List.pairwise_append.mpr ⟨?_, pathsFrom_pairwise (place + 1) nodes, ?_⟩
    · refine List.pairwise_map.mpr ((paths_pairwise node).imp fun h => ?_)
      exact List.cons_lt_cons_iff.mpr (.inr ⟨rfl, h⟩)
    · intro path hpath other hother
      obtain ⟨rest, -, rfl⟩ := List.mem_map.mp hpath
      obtain ⟨k, rest', rfl, -⟩ := mem_pathsFrom.mp hother
      exact List.cons_lt_cons_iff.mpr (.inl (by omega))

end

mutual

/-- The nodes in preorder are those that the paths lead to, one by one. -/
theorem preorder_map_some : ∀ node : Node, node.preorder.map some = node.paths.map node.at?
  | leaf .. => rfl
  | container start stop info children => by
    rw [preorder, paths, List.map_cons, List.map_cons, at?]
    exact congrArg _ (preorderAll_map_some children (container start stop info children) 0 rfl)
  | element start stop info attributes children => by
    rw [preorder, paths, List.map_cons, List.map_cons, at?]
    exact congrArg _
      (preorderAll_map_some children (element start stop info attributes children) 0 rfl)

theorem preorderAll_map_some : ∀ (nodes : List Node) (parent : Node) (place : Nat),
    parent.children.drop place = nodes →
      (preorderAll nodes).map some = (pathsFrom place nodes).map parent.at?
  | [], _, _, _ => rfl
  | node :: nodes, parent, place, h => by
    have hnode : parent.children[place]? = some node := by
      rw [← Nat.add_zero place, ← List.getElem?_drop, h, List.getElem?_cons_zero]
    have hnodes : parent.children.drop (place + 1) = nodes := by
      rw [← List.drop_drop, h, List.drop_one, List.tail_cons]
    have hfirst : (node.paths.map (place :: ·)).map parent.at? = node.paths.map node.at? := by
      rw [List.map_map]
      exact List.map_congr_left fun path _ => by simp [at?, hnode]
    rw [preorderAll, pathsFrom, List.map_append, List.map_append, hfirst, preorder_map_some node,
      preorderAll_map_some nodes parent (place + 1) hnodes]

end

/-! ### Visits without attributes -/

/-- Attributes stand among the attributes of elements and nowhere else, and nothing else stands
there. -/
structure AttributesInPlace (root : Node) : Prop where
  self : root.isAttribute = false
  below : ∀ node ∈ root.visited, ∀ child ∈ node.children, child.isAttribute = false
  regular : root.Regular

theorem children_of_isAttribute (h : node.isAttribute = true) : node.children = [] := by
  cases node with
  | leaf => rfl
  | container => simp [isAttribute] at h
  | element => simp [isAttribute] at h

theorem mem_visited_self (node : Node) : node ∈ node.visited := by
  cases node <;> exact List.mem_cons_self

/-- A visit goes on to what a visit to a child meets. -/
theorem visited_subset (hnode : node ∈ root.children) : ∀ n ∈ node.visited, n ∈ root.visited := by
  cases root with
  | leaf => exact absurd hnode List.not_mem_nil
  | container =>
      exact forall_mem_visitedAll.mp (fun n hn => List.mem_cons_of_mem _ hn) node hnode
  | element =>
      exact forall_mem_visitedAll.mp
        (fun n hn => List.mem_cons_of_mem _ (List.mem_append_right _ hn)) node hnode

/-- What stands below such a tree is such a tree. -/
theorem AttributesInPlace.child (h : root.AttributesInPlace) (hnode : node ∈ root.children) :
    node.AttributesInPlace where
  self := h.below root (mem_visited_self root) node hnode
  below n hn := h.below n (visited_subset hnode n hn)
  regular n hn := h.regular n (visited_subset hnode n hn)

/-- A visit to attributes alone meets nothing else. -/
theorem filter_visitedAll_attributes (h : ∀ a ∈ attributes, a.isAttribute = true) :
    (visitedAll attributes).filter (!·.isAttribute) = [] := by
  refine List.filter_eq_nil_iff.mpr (forall_mem_visitedAll.mpr fun a ha b hb => ?_)
  rw [visited_of_isAttribute (h a ha), List.mem_singleton] at hb
  simp [hb, h a ha]

mutual

/-- A visit from which the attributes are left out is in preorder. -/
theorem filter_visited : ∀ node : Node, node.AttributesInPlace →
    node.visited.filter (!·.isAttribute) = node.preorder
  | leaf start stop info, h => by
    rw [visited, preorder, List.filter_cons_of_pos (by simp [h.self]), List.filter_nil]
  | container start stop info children, h => by
    rw [visited, preorder, List.filter_cons_of_pos (by simp [h.self]),
      filter_visitedAll children fun _ hchild => h.child hchild]
  | element start stop info attributes children, h => by
    have hattributes : ∀ a ∈ attributes, a.isAttribute = true := h.regular _ (mem_visited_self _)
    rw [visited, preorder, List.filter_cons_of_pos (by simp [h.self]), List.filter_append,
      filter_visitedAll_attributes hattributes, List.nil_append,
      filter_visitedAll children fun _ hchild => h.child hchild]

theorem filter_visitedAll : ∀ nodes : List Node, (∀ node ∈ nodes, node.AttributesInPlace) →
    (visitedAll nodes).filter (!·.isAttribute) = preorderAll nodes
  | [], _ => rfl
  | node :: nodes, h => by
    rw [visitedAll, preorderAll, List.filter_append, filter_visited node (h node List.mem_cons_self),
      filter_visitedAll nodes fun other hother => h other (List.mem_cons_of_mem node hother)]

end

/-! ### Trees of a parse -/

theorem inherits_attributesInPlace : Parsing.Inherits AttributesInPlace where
  leaf h := ⟨h, by simp [visited, children], Parsing.inherits_regular.leaf h⟩
  container h := by
    have hbelow := forall_mem_visitedAll.mpr fun child hchild => (h child hchild).below
    exact ⟨rfl, List.forall_mem_cons.mpr ⟨fun child hchild => (h child hchild).self, hbelow⟩,
      Parsing.inherits_regular.container fun child hchild => (h child hchild).regular⟩
  element hattributes h := by
    have hbelow := forall_mem_visitedAll.mpr fun child hchild => (h child hchild).below
    refine ⟨rfl, List.forall_mem_cons.mpr ⟨fun child hchild => (h child hchild).self,
      List.forall_mem_append.mpr ⟨forall_mem_visitedAll.mpr fun a ha => ?_, hbelow⟩⟩,
      Parsing.inherits_regular.element hattributes fun child hchild => (h child hchild).regular⟩
    rw [visited_of_isAttribute (hattributes a ha)]
    simp [children_of_isAttribute (hattributes a ha)]

/-- The root of a parse is a document, whether or not the start rule reads one. -/
theorem isDocument_tree (g : Parsing.Grammar Parsing.Rule) (input : Parsing.Input) :
    (g.parse input).tree.isDocument = true := by
  simp only [Parsing.Grammar.parse]
  split
  · assumption
  · rfl

theorem attributesInPlace_of_isDocument (hdocument : root.isDocument = true)
    (h : ∀ node ∈ root.children, node.AttributesInPlace) : root.AttributesInPlace := by
  cases root with
  | leaf => simp [isDocument] at hdocument
  | container => exact inherits_attributesInPlace.container h
  | element => simp [isDocument] at hdocument

/-- Every parse builds such a tree. -/
theorem attributesInPlace_parse (language : Language) (input : Parsing.Input) :
    (language.grammar.parse input).tree.AttributesInPlace :=
  attributesInPlace_of_isDocument (isDocument_tree _ input)
    (language.parse_yields inherits_attributesInPlace input)

/-! ### Walks and visits -/

/-- **A walk and a visit agree.**  A walk goes over a tree in preorder, and meets what stands at
each path of the tree, once and in the order of the paths; the count is the number of the paths.
In a tree where attributes stand among the attributes of elements alone, a visit from which the
attributes are left out goes over the same nodes in the same order.  Every parse builds such a
tree. -/
theorem traversals_agree (root : Node) (h : root.AttributesInPlace) :
    root.walk = root.preorder
      ∧ (∃ paths : List (List Nat), paths.Pairwise (· < ·)
        ∧ (∀ path, path ∈ paths ↔ (root.at? path).isSome = true)
        ∧ root.walk.map some = paths.map root.at?
        ∧ root.count = paths.length)
      ∧ root.visited.filter (!·.isAttribute) = root.walk
      ∧ ∀ (language : Language) (input : Parsing.Input),
        (language.grammar.parse input).tree.AttributesInPlace := by
  have hwalk : root.walk = root.preorder := by rw [walk_eq, preorder_eq]
  have hmap : root.walk.map some = root.paths.map root.at? := hwalk ▸ preorder_map_some root
  have hcount : root.count = root.paths.length := by
    rw [count, ← List.length_map some, hmap, List.length_map]
  exact ⟨hwalk, ⟨root.paths, paths_pairwise root, fun _ => mem_paths, hmap, hcount⟩,
    by rw [filter_visited root h, hwalk], attributesInPlace_parse⟩

/-- An element with an attribute, and twice the same text in it. -/
theorem traversals_agree_of_paragraph :
    let name : Node := .leaf 3 4 (.attribute "a" none)
    let text : Node := .leaf 5 6 .text
    let paragraph : Node := .element 0 9 {} [name] [text, text]
    let root : Node := .container 0 9 .document [paragraph]
    root.AttributesInPlace ∧ root.walk = [root, paragraph, text, text] ∧ root.count = 4
      ∧ root.visited = [root, paragraph, name, text, text]
      ∧ root.visited.filter (!·.isAttribute) = root.walk := by
  intro name text paragraph root
  have hroot : root.AttributesInPlace := ⟨rfl, by decide, by unfold Regular; decide⟩
  obtain ⟨hwalk, -, hvisit, -⟩ := traversals_agree root hroot
  exact ⟨hroot, hwalk, by rw [count, hwalk]; rfl, rfl, hvisit⟩

end SourceView.Node
