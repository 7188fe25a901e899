/-
Trees whose nodes nest.

A tree nests when no node ends before it begins and the nodes that stand in another lie in
its span, one after another.  It is defined by the shape of a tree, a row of nodes after the
node that holds it, because that is how trees are built; `Nested.visited` gives it back as a
statement about every node and what stands in it.
-/
import SourceView.Tree.Traversal

namespace SourceView.Node

mutual

/-- The node does not end before it begins, and what stands in it lies in its span, one after
another.  The attributes of an element are one such row, its children another. -/
def Nested : Node → Prop
  | leaf start stop _ => start ≤ stop
  | container start stop _ children => Row start stop children
  | element start stop _ attributes children => Row start stop attributes ∧ Row start stop children

/-- The nodes are nested and lie one after another between `lo` and `hi`. -/
def Row (lo hi : Int) : List Node → Prop
  | [] => lo ≤ hi
  | node :: nodes => lo ≤ node.start ∧ Nested node ∧ Row node.stop hi nodes

end

variable {lo mid hi : Int}

mutual

theorem Nested.le : ∀ {node : Node}, node.Nested → node.start ≤ node.stop
  | leaf .., h => h
  | container _ _ _ _, h => Row.le h
  | element _ _ _ _ _, h => Row.le h.2

theorem Row.le {lo hi : Int} : ∀ {nodes : List Node}, Row lo hi nodes → lo ≤ hi
  | [], h => h
  | _ :: _, ⟨hlo, hnode, hrest⟩ =>
    Int.le_trans hlo (Int.le_trans (Nested.le hnode) (Row.le hrest))

end

theorem Row.of_le {nodes : List Node} (h : Row mid hi nodes) (hle : lo ≤ mid) :
    Row lo hi nodes := by
  cases nodes with
  | nil => exact Int.le_trans hle h
  | cons node nodes => exact ⟨Int.le_trans hle h.1, h.2⟩

theorem Row.append {nodes others : List Node} (h : Row lo mid nodes) (h' : Row mid hi others) :
    Row lo hi (nodes ++ others) := by
  induction nodes generalizing lo with
  | nil => exact h'.of_le h
  | cons node nodes ih => exact ⟨h.1, h.2.1, ih h.2.2⟩

theorem Row.to_le {nodes : List Node} (h : Row lo mid nodes) (hle : mid ≤ hi) :
    Row lo hi nodes := by
  have happend := h.append (show Row mid hi [] from hle)
  rwa [List.append_nil] at happend

theorem Row.single {node : Node} (hlo : lo ≤ node.start) (hnode : node.Nested)
    (hhi : node.stop ≤ hi) : Row lo hi [node] :=
  ⟨hlo, hnode, hhi⟩

/-- The nodes of a row lie in its range, and each ends before the next one begins. -/
theorem Row.mem {nodes : List Node} (h : Row lo hi nodes) :
    (∀ node ∈ nodes, lo ≤ node.start ∧ node.stop ≤ hi)
      ∧ nodes.Pairwise fun left right => left.stop ≤ right.start := by
  induction nodes generalizing lo with
  | nil => simp
  | cons node nodes ih =>
      obtain ⟨hlo, hnode, hrest⟩ := h
      obtain ⟨hmem, hpairs⟩ := ih hrest
      refine ⟨?_, List.pairwise_cons.mpr ⟨fun right hright => (hmem right hright).1, hpairs⟩⟩
      intro other hother
      rcases List.mem_cons.mp hother with rfl | hother
      · exact ⟨hlo, hrest.le⟩
      · have hle := Int.le_trans hlo hnode.le
        exact ⟨Int.le_trans hle (hmem other hother).1, (hmem other hother).2⟩

/-- What nesting says of one node and what stands in it. -/
structure Placed (node : Node) : Prop where
  span : node.start ≤ node.stop
  attribute_inside : ∀ a ∈ node.attributes, node.start ≤ a.start ∧ a.stop ≤ node.stop
  child_inside : ∀ child ∈ node.children, node.start ≤ child.start ∧ child.stop ≤ node.stop
  attributes_apart : node.attributes.Pairwise fun left right => left.stop ≤ right.start
  children_apart : node.children.Pairwise fun left right => left.stop ≤ right.start

theorem Nested.placed {node : Node} (h : node.Nested) : node.Placed := by
  have hspan := h.le
  cases node with
  | leaf => exact ⟨hspan, by simp [attributes], by simp [children], by simp [attributes],
      by simp [children]⟩
  | container => exact ⟨hspan, by simp [attributes], h.mem.1, by simp [attributes], h.mem.2⟩
  | element => exact ⟨hspan, h.1.mem.1, h.2.mem.1, h.1.mem.2, h.2.mem.2⟩

/-! ### Everything below a node -/

theorem mem_visitedAll_leaf {n : Node} {a b : Int} {info : Leaf} {nodes : List Node} :
    n ∈ visitedAll (leaf a b info :: nodes) ↔ n = leaf a b info ∨ n ∈ visitedAll nodes := by
  rw [visitedAll, visited, List.singleton_append, List.mem_cons]

theorem mem_visitedAll_container {n : Node} {a b : Int} {info : Container}
    {children nodes : List Node} :
    n ∈ visitedAll (container a b info children :: nodes)
      ↔ n = container a b info children ∨ n ∈ visitedAll children ∨ n ∈ visitedAll nodes := by
  rw [visitedAll, visited, List.cons_append, List.mem_cons, List.mem_append]

theorem mem_visitedAll_append {n : Node} {nodes others : List Node} :
    n ∈ visitedAll (nodes ++ others) ↔ n ∈ visitedAll nodes ∨ n ∈ visitedAll others := by
  induction nodes with
  | nil => simp [visitedAll]
  | cons node nodes ih =>
      rw [List.cons_append, visitedAll, visitedAll, List.mem_append, List.mem_append, ih, or_assoc]

mutual

theorem Nested.mem_visited : ∀ {node : Node}, node.Nested → ∀ n ∈ node.visited, n.Nested
  | leaf .., h => by
    intro n hn
    rw [visited, List.mem_singleton] at hn
    exact hn ▸ h
  | container _ _ _ _, h => by
    intro n hn
    rw [visited, List.mem_cons] at hn
    rcases hn with rfl | hn
    · exact h
    · exact Row.mem_visitedAll h n hn
  | element _ _ _ _ _, h => by
    intro n hn
    rw [visited, List.mem_cons, List.mem_append] at hn
    rcases hn with rfl | hn | hn
    · exact h
    · exact Row.mem_visitedAll h.1 n hn
    · exact Row.mem_visitedAll h.2 n hn

theorem Row.mem_visitedAll {lo hi : Int} : ∀ {nodes : List Node}, Row lo hi nodes →
    ∀ n ∈ visitedAll nodes, n.Nested
  | [], _ => by simp [visitedAll]
  | _ :: _, ⟨_, hnode, hrest⟩ => by
    intro n hn
    rw [visitedAll, List.mem_append] at hn
    rcases hn with hn | hn
    · exact Nested.mem_visited hnode n hn
    · exact Row.mem_visitedAll hrest n hn

end

theorem Nested.visited {node : Node} (h : node.Nested) : ∀ n ∈ node.visited, n.Placed :=
  fun n hn => (h.mem_visited n hn).placed

mutual

/-- Whatever stands below a node lies in its span. -/
theorem Nested.inside : ∀ {node : Node}, node.Nested →
    ∀ n ∈ node.visited, node.start ≤ n.start ∧ n.stop ≤ node.stop
  | leaf .., _ => by
    intro n hn
    rw [visited, List.mem_singleton] at hn
    exact hn ▸ ⟨Int.le_refl _, Int.le_refl _⟩
  | container _ _ _ _, h => by
    intro n hn
    rw [visited, List.mem_cons] at hn
    rcases hn with rfl | hn
    · exact ⟨Int.le_refl _, Int.le_refl _⟩
    · exact Row.inside h n hn
  | element _ _ _ _ _, h => by
    intro n hn
    rw [visited, List.mem_cons, List.mem_append] at hn
    rcases hn with rfl | hn | hn
    · exact ⟨Int.le_refl _, Int.le_refl _⟩
    · exact Row.inside h.1 n hn
    · exact Row.inside h.2 n hn

/-- Whatever stands in a row or below lies in its range. -/
theorem Row.inside {lo hi : Int} : ∀ {nodes : List Node}, Row lo hi nodes →
    ∀ n ∈ visitedAll nodes, lo ≤ n.start ∧ n.stop ≤ hi
  | [], _ => by simp [visitedAll]
  | _ :: _, ⟨hlo, hnode, hrest⟩ => by
    intro n hn
    rw [visitedAll, List.mem_append] at hn
    rcases hn with hn | hn
    · obtain ⟨hstart, hstop⟩ := Nested.inside hnode n hn
      exact ⟨Int.le_trans hlo hstart, Int.le_trans hstop hrest.le⟩
    · obtain ⟨hstart, hstop⟩ := Row.inside hrest n hn
      exact ⟨Int.le_trans (Int.le_trans hlo hnode.le) hstart, hstop⟩

end

mutual

/-- What stands below a node that stands below another stands below that. -/
theorem visited_trans : ∀ {node m n : Node}, m ∈ node.visited → n ∈ m.visited → n ∈ node.visited
  | leaf .., _, _, hm, hn => by
    rw [visited, List.mem_singleton] at hm
    exact hm ▸ hn
  | container _ _ _ _, _, _, hm, hn => by
    rw [visited, List.mem_cons] at hm
    rcases hm with rfl | hm
    · exact hn
    · rw [visited]
      exact List.mem_cons_of_mem _ (visitedAll_trans hm hn)
  | element _ _ _ _ _, _, _, hm, hn => by
    rw [visited, List.mem_cons, List.mem_append] at hm
    rcases hm with rfl | hm | hm
    · exact hn
    · rw [visited]
      exact List.mem_cons_of_mem _ (List.mem_append_left _ (visitedAll_trans hm hn))
    · rw [visited]
      exact List.mem_cons_of_mem _ (List.mem_append_right _ (visitedAll_trans hm hn))

theorem visitedAll_trans : ∀ {nodes : List Node} {m n : Node}, m ∈ visitedAll nodes →
    n ∈ m.visited → n ∈ visitedAll nodes
  | [], _, _, hm, _ => by simp [visitedAll] at hm
  | _ :: _, _, _, hm, hn => by
    rw [visitedAll, List.mem_append] at hm ⊢
    rcases hm with hm | hm
    · exact Or.inl (visited_trans hm hn)
    · exact Or.inr (visitedAll_trans hm hn)

end

/-! ### Two nodes of one tree -/

/-- One of two nodes stands below the other, or they lie apart. -/
def Laminar (m n : Node) : Prop :=
  m ∈ n.visited ∨ n ∈ m.visited ∨ m.stop ≤ n.start ∨ n.stop ≤ m.start

theorem Laminar.symm {m n : Node} (h : m.Laminar n) : n.Laminar m := by
  unfold Laminar at *
  rcases h with h | h | h | h
  · exact Or.inr (Or.inl h)
  · exact Or.inl h
  · exact Or.inr (Or.inr (Or.inr h))
  · exact Or.inr (Or.inr (Or.inl h))

mutual

/-- Any two nodes of a tree that are no attributes, nor stand below one, are one below the
other or apart.  Attributes are left out because they and the children of their element are
two rows in one span; `P` is true of the nodes that are not. -/
theorem Nested.laminar_of {P : Node → Prop} : ∀ {node : Node}, node.Nested →
    (∀ n ∈ node.visited, ∀ a ∈ visitedAll n.attributes, ¬ P a) →
    ∀ m ∈ node.visited, ∀ n ∈ node.visited, P m → P n → m.Laminar n
  | leaf .., _, _ => by
    intro m hm n hn _ _
    rw [visited, List.mem_singleton] at hm hn
    subst hm hn
    exact Or.inl (by simp [visited])
  | container a b info children, h, hbare => by
    intro m hm n hn hPm hPn
    have hwhole := hm
    have hwhole' := hn
    rw [visited, List.mem_cons] at hm hn
    rcases hm with rfl | hm
    · exact Or.inr (Or.inl hwhole')
    rcases hn with rfl | hn
    · exact Or.inl hwhole
    · refine Row.laminar_of h (fun o ho => hbare o ?_) m hm n hn hPm hPn
      rw [visited]
      exact List.mem_cons_of_mem _ ho
  | element a b info attributes children, h, hbare => by
    intro m hm n hn hPm hPn
    have hwhole := hm
    have hwhole' := hn
    have hnone := hbare (element a b info attributes children) (by simp [visited])
    rw [visited, List.mem_cons, List.mem_append] at hm hn
    rcases hm with rfl | hm | hm
    · exact Or.inr (Or.inl hwhole')
    · exact absurd hPm (hnone m hm)
    rcases hn with rfl | hn | hn
    · exact Or.inl hwhole
    · exact absurd hPn (hnone n hn)
    · refine Row.laminar_of h.2 (fun o ho => hbare o ?_) m hm n hn hPm hPn
      rw [visited]
      exact List.mem_cons_of_mem _ (List.mem_append_right _ ho)

theorem Row.laminar_of {P : Node → Prop} {lo hi : Int} : ∀ {nodes : List Node}, Row lo hi nodes →
    (∀ n ∈ visitedAll nodes, ∀ a ∈ visitedAll n.attributes, ¬ P a) →
    ∀ m ∈ visitedAll nodes, ∀ n ∈ visitedAll nodes, P m → P n → m.Laminar n
  | [], _, _ => by simp [visitedAll]
  | node :: nodes, ⟨_, hnode, hrest⟩, hbare => by
    have hfirst : ∀ m ∈ node.visited, ∀ n ∈ visitedAll nodes, m.Laminar n := by
      intro m hm n hn
      have hend := (Nested.inside hnode m hm).2
      have hbegin := (Row.inside hrest n hn).1
      exact Or.inr (Or.inr (Or.inl (Int.le_trans hend hbegin)))
    intro m hm n hn hPm hPn
    rw [visitedAll] at hbare
    rw [visitedAll, List.mem_append] at hm hn
    rcases hm with hm | hm <;> rcases hn with hn | hn
    · exact Nested.laminar_of hnode (fun o ho => hbare o (List.mem_append_left _ ho))
        m hm n hn hPm hPn
    · exact hfirst m hm n hn
    · exact (hfirst n hn m hm).symm
    · exact Row.laminar_of hrest (fun o ho => hbare o (List.mem_append_right _ ho))
        m hm n hn hPm hPn

end

/-- Any two nodes of a tree without attributes are one below the other or apart. -/
theorem Row.laminar {nodes : List Node} (h : Row lo hi nodes)
    (hbare : ∀ n ∈ visitedAll nodes, n.attributes = []) :
    ∀ m ∈ visitedAll nodes, ∀ n ∈ visitedAll nodes, m.Laminar n := by
  intro m hm n hn
  refine h.laminar_of (P := fun _ => True) (fun o ho a ha => ?_) m hm n hn trivial trivial
  rw [hbare o ho] at ha
  simp [visitedAll] at ha

end SourceView.Node
