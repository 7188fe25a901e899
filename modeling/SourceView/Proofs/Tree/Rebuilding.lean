/-
An editing is a rebuilding.

The plain way to edit a tree is to build every node anew out of what its attributes and its children
become, and to ask the edit about that.  An editing spares itself the building where the parts come
out as they were; then it hands on the node that it has.  A node that is built anew out of its own
parts equals that node, so both come to the same, level by level: the same questions in the same
order, and the same tree.  What the plain way cannot say is which tree is the one that was given and
not a copy of it; that is read off what the editing hands on.

The questions come in postorder, which goes over the same nodes as a visit does.
-/
import SourceView.Tree.Edit
import SourceView.Tree.Traversal

namespace SourceView

namespace Node

variable {node : Node} {attributes children : List Node}

/-! ### The plain way -/

mutual

/-- What becomes of a tree when every node is built anew out of what its parts become, and `f` is
taken of that. -/
def rebuilt (f : Node → Option Node) : Node → Option Node
  | leaf start stop info => f (leaf start stop info)
  | container start stop info children => f (container start stop info (rebuiltAll f children))
  | element start stop info attributes children =>
    f (element start stop info (rebuiltAll f attributes) (rebuiltAll f children))

/-- What becomes of several trees; those that `f` removes are left out. -/
def rebuiltAll (f : Node → Option Node) : List Node → List Node
  | [] => []
  | node :: nodes => (rebuilt f node).toList ++ rebuiltAll f nodes

end

/-- The node built anew out of what its parts become. -/
def renewed (f : Node → Option Node) (node : Node) : Node :=
  node.withParts (rebuiltAll f node.attributes) (rebuiltAll f node.children)

mutual

/-- The node and all below it, attributes included: the attributes first, then the children, then
the node itself. -/
def postorder : Node → List Node
  | leaf start stop info => [leaf start stop info]
  | container start stop info children =>
    postorderAll children ++ [container start stop info children]
  | element start stop info attributes children =>
    postorderAll attributes ++ postorderAll children
      ++ [element start stop info attributes children]

/-- The nodes of several trees in this order, one tree after another. -/
def postorderAll : List Node → List Node
  | [] => []
  | node :: nodes => postorder node ++ postorderAll nodes

end

mutual

/-- In postorder stand the nodes of a visit, each as often. -/
theorem postorder_perm : ∀ node : Node, node.postorder.Perm node.visited
  | leaf .. => List.Perm.refl _
  | container start stop info children => by
    rw [postorder, visited]
    exact (List.perm_append_singleton _ _).trans ((postorderAll_perm children).cons _)
  | element start stop info attributes children => by
    rw [postorder, visited]
    have hparts := (postorderAll_perm attributes).append (postorderAll_perm children)
    exact (List.perm_append_singleton _ _).trans (hparts.cons _)

theorem postorderAll_perm : ∀ nodes : List Node, (postorderAll nodes).Perm (visitedAll nodes)
  | [] => List.Perm.refl _
  | node :: nodes => (postorder_perm node).append (postorderAll_perm nodes)

end

/-- The node comes last in its postorder. -/
theorem getLast?_postorder (node : Node) : node.postorder.getLast? = some node := by
  cases node with
  | leaf start stop info => rfl
  | container start stop info children => exact List.getLast?_concat
  | element start stop info attributes children => exact List.getLast?_concat

/-- A node with the parts that it has is that node. -/
theorem withParts_self (node : Node) : node.withParts node.attributes node.children = node := by
  cases node <;> rfl

/-- A container with other children is another container. -/
theorem withParts_eq_self_iff (start stop : Int) (info : Container)
    (old attributes children : List Node) :
    (container start stop info old).withParts attributes children = container start stop info old
      ↔ children = old := by
  simp [withParts]

/-- Whether the parts are looked at first or not makes no difference to the node. -/
theorem updateParts_node (node : Node) (attributes children : List Node) :
    (node.updateParts attributes children).node = node.withParts attributes children := by
  unfold updateParts
  by_cases h : attributes = node.attributes ∧ children = node.children
  · rw [if_pos h, h.1, h.2, withParts_self]
  · rw [if_neg h]

/-- It is the node itself just when the parts are those it has. -/
theorem updateParts_same (node : Node) (attributes children : List Node) :
    (node.updateParts attributes children).same = true
      ↔ attributes = node.attributes ∧ children = node.children := by
  unfold updateParts
  by_cases h : attributes = node.attributes ∧ children = node.children
  · rw [if_pos h]
    exact iff_of_true rfl h
  · rw [if_neg h]
    exact iff_of_false Bool.false_ne_true h

/-- With its own parts a node is handed on itself. -/
theorem updateParts_self (node : Node) :
    node.updateParts node.attributes node.children = ⟨node, true⟩ :=
  if_pos ⟨rfl, rfl⟩

end Node

/-- The node that an edit leaves in the place of a node. -/
def Edit.node? (edit : Edit) (node : Node) : Option Node :=
  (edit.hand? ⟨node, true⟩).map Handed.node

/-- The node that is left does not depend on whether the node was another one before. -/
theorem Edit.map_hand? (edit : Edit) (given : Handed) :
    (edit.hand? given).map Handed.node = edit.node? given.node := by
  cases edit <;> rfl

/-- The node that was given comes out just when it is kept and had been given itself. -/
theorem Edit.hand?_eq_some_same_iff {edit : Edit} {given : Handed} {node : Node} :
    edit.hand? given = some ⟨node, true⟩ ↔ edit = .keep ∧ given = ⟨node, true⟩ := by
  cases edit <;> simp [Edit.hand?]

namespace Editing

variable {edit : Node → Edit}

/-- What the edit leaves of a node. -/
def remains (edit : Node → Edit) (node : Node) : Option Node :=
  (edit node).node? node

/-! ### Both ways come to the same -/

mutual

/-- The node that is left is the one that is built anew. -/
theorem ofNode_result : ∀ node : Node,
    (ofNode edit node).result.map Handed.node = node.rebuilt (remains edit)
  | .leaf start stop info => Edit.map_hand? _ _
  | .container start stop info children => by
    have hchildren := ofNodes_result children
    simp only [ofNode, hchildren, Edit.map_hand?, Node.updateParts_node, Node.rebuilt]
    rfl
  | .element start stop info attributes children => by
    have hattributes := ofNodes_result attributes
    have hchildren := ofNodes_result children
    simp only [ofNode, hattributes, hchildren, Edit.map_hand?, Node.updateParts_node,
      Node.rebuilt]
    rfl

theorem ofNodes_result : ∀ nodes : List Node,
    (ofNodes edit nodes).result = Node.rebuiltAll (remains edit) nodes
  | [] => rfl
  | node :: nodes => by
    have hfirst := ofNode_result node
    have hothers := ofNodes_result nodes
    simp only [ofNodes, hfirst, hothers, Node.rebuiltAll]

end

mutual

/-- The edit is asked about every node in postorder, once its parts are renewed. -/
theorem ofNode_calls : ∀ node : Node,
    (ofNode edit node).calls = node.postorder.map (Node.renewed (remains edit))
  | .leaf start stop info => rfl
  | .container start stop info children => by
    have hchildren := ofNodes_calls children
    simp only [ofNode, hchildren, ofNodes_result, Node.updateParts_node, Node.postorder,
      List.map_append, List.map_cons, List.map_nil]
    rfl
  | .element start stop info attributes children => by
    have hattributes := ofNodes_calls attributes
    have hchildren := ofNodes_calls children
    simp only [ofNode, hattributes, hchildren, ofNodes_result, Node.updateParts_node,
      Node.postorder, List.map_append, List.map_cons, List.map_nil]
    rfl

theorem ofNodes_calls : ∀ nodes : List Node,
    (ofNodes edit nodes).calls = (Node.postorderAll nodes).map (Node.renewed (remains edit))
  | [] => rfl
  | node :: nodes => by
    have hfirst := ofNode_calls node
    have hothers := ofNodes_calls nodes
    simp only [ofNodes, hfirst, hothers, Node.postorderAll, List.map_append]

end

/-! ### When the tree itself comes out -/

/-- A container comes out itself just when its children are renewed to those it has, and it is
kept then.  A copy that equals it is not enough. -/
theorem ofNode_container_same_iff {start stop : Int} {info : Container} {children : List Node}
    {left : Node} :
    (ofNode edit (.container start stop info children)).result = some ⟨left, true⟩
      ↔ Node.rebuiltAll (remains edit) children = children
        ∧ edit (.container start stop info children) = .keep
        ∧ left = .container start stop info children := by
  simp only [ofNode, Edit.hand?_eq_some_same_iff, ofNodes_result]
  by_cases hsame : Node.rebuiltAll (remains edit) children = children
  · have hgiven := (Node.container start stop info children).updateParts_self
    rw [hsame]
    simp only [Node.attributes, Node.children] at hgiven
    rw [hgiven]
    simp only [Handed.mk.injEq, and_true, true_and]
    exact and_congr_right fun _ => eq_comm
  · have hnew : ((Node.container start stop info children).updateParts []
        (Node.rebuiltAll (remains edit) children)).same ≠ true := by
      rw [Ne, Node.updateParts_same]
      exact fun h => hsame h.2
    constructor
    · rintro ⟨-, h⟩
      rw [h] at hnew
      exact absurd rfl hnew
    · rintro ⟨h, -⟩
      exact absurd h hsame

mutual

/-- An edit that keeps every node is asked about the nodes as they are, and leaves the tree. -/
theorem rebuilt_of_keep : ∀ node : Node, (∀ n ∈ node.postorder, edit n = .keep) →
    node.rebuilt (remains edit) = some node
  | .leaf start stop info, h => by
    have hself := h _ List.mem_cons_self
    rw [Node.rebuilt, remains, hself]
    rfl
  | .container start stop info children, h => by
    have hchildren := rebuiltAll_of_keep children fun n hn => h n (by simp [Node.postorder, hn])
    have hself := h (.container start stop info children) (by simp [Node.postorder])
    rw [Node.rebuilt, hchildren, remains, hself]
    rfl
  | .element start stop info attributes children, h => by
    have hattributes := rebuiltAll_of_keep attributes fun n hn => h n (by simp [Node.postorder, hn])
    have hchildren := rebuiltAll_of_keep children fun n hn => h n (by simp [Node.postorder, hn])
    have hself := h (.element start stop info attributes children) (by simp [Node.postorder])
    rw [Node.rebuilt, hattributes, hchildren, remains, hself]
    rfl

theorem rebuiltAll_of_keep : ∀ nodes : List Node, (∀ n ∈ Node.postorderAll nodes, edit n = .keep) →
    Node.rebuiltAll (remains edit) nodes = nodes
  | [], _ => rfl
  | node :: nodes, h => by
    have hfirst := rebuilt_of_keep node fun n hn => h n (List.mem_append_left _ hn)
    have hothers := rebuiltAll_of_keep nodes fun n hn => h n (List.mem_append_right _ hn)
    rw [Node.rebuiltAll, hfirst, hothers]
    rfl

end

mutual

/-- Then every node is built anew out of the parts that it has. -/
theorem map_renewed_of_keep : ∀ node : Node, (∀ n ∈ node.postorder, edit n = .keep) →
    node.postorder.map (Node.renewed (remains edit)) = node.postorder
  | .leaf start stop info, _ => rfl
  | .container start stop info children, h => by
    have hall : ∀ n ∈ Node.postorderAll children, edit n = .keep :=
      fun n hn => h n (by simp [Node.postorder, hn])
    have hparts : Node.rebuiltAll (remains edit) children = children :=
      rebuiltAll_of_keep children hall
    rw [Node.postorder, List.map_append, mapAll_renewed_of_keep children hall, List.map_singleton,
      Node.renewed, Node.children, hparts]
    rfl
  | .element start stop info attributes children, h => by
    have hfirst : ∀ n ∈ Node.postorderAll attributes, edit n = .keep :=
      fun n hn => h n (by simp [Node.postorder, hn])
    have hsecond : ∀ n ∈ Node.postorderAll children, edit n = .keep :=
      fun n hn => h n (by simp [Node.postorder, hn])
    have hattributes : Node.rebuiltAll (remains edit) attributes = attributes :=
      rebuiltAll_of_keep attributes hfirst
    have hchildren : Node.rebuiltAll (remains edit) children = children :=
      rebuiltAll_of_keep children hsecond
    rw [Node.postorder, List.map_append, List.map_append, mapAll_renewed_of_keep attributes hfirst,
      mapAll_renewed_of_keep children hsecond, List.map_singleton, Node.renewed, Node.attributes,
      Node.children, hattributes, hchildren]
    rfl

theorem mapAll_renewed_of_keep : ∀ nodes : List Node,
    (∀ n ∈ Node.postorderAll nodes, edit n = .keep) →
    (Node.postorderAll nodes).map (Node.renewed (remains edit)) = Node.postorderAll nodes
  | [], _ => rfl
  | node :: nodes, h => by
    rw [Node.postorderAll, List.map_append,
      map_renewed_of_keep node fun n hn => h n (List.mem_append_left _ hn),
      mapAll_renewed_of_keep nodes fun n hn => h n (List.mem_append_right _ hn)]

end

/-! ### Documents -/

theorem document_eq_ok_iff {r : Editing (Option Handed)} {left : Handed} :
    r.document = .ok left ↔ r.result = some left ∧ left.node.isDocument = true := by
  unfold document
  cases r.result with
  | none => simp
  | some other =>
      dsimp only
      by_cases hdocument : other.node.isDocument = true
      · rw [if_pos hdocument]
        constructor
        · intro h
          cases h
          exact ⟨rfl, hdocument⟩
        · rintro ⟨h, -⟩
          cases h
          rfl
      · rw [if_neg hdocument]
        constructor
        · intro h
          cases h
        · rintro ⟨h, hnode⟩
          cases h
          exact absurd hnode hdocument

/-- The node of the document is the node that is left, where that is a document. -/
theorem map_document_eq_ok_iff {r : Editing (Option Handed)} {node : Node} :
    r.document.map Handed.node = .ok node
      ↔ r.result.map Handed.node = some node ∧ node.isDocument = true := by
  rw [Option.map_eq_some_iff]
  constructor
  · intro h
    cases hdocument : r.document with
    | error e =>
        rw [hdocument] at h
        cases h
    | ok left =>
        rw [hdocument] at h
        cases h
        obtain ⟨hleft, hroot⟩ := document_eq_ok_iff.mp hdocument
        exact ⟨⟨left, hleft, rfl⟩, hroot⟩
  · rintro ⟨⟨left, hleft, rfl⟩, hroot⟩
    rw [document_eq_ok_iff.mpr ⟨hleft, hroot⟩]
    rfl

/-- An editing fails when it leaves no document, and in no other case. -/
theorem document_eq_error_iff {r : Editing (Option Handed)} :
    r.document = .error .noDocument
      ↔ ¬∃ node, r.result.map Handed.node = some node ∧ node.isDocument = true := by
  constructor
  · rintro h ⟨node, hnode⟩
    have hok := map_document_eq_ok_iff.mpr hnode
    rw [h] at hok
    cases hok
  · intro h
    cases hdocument : r.document with
    | error e => cases e; rfl
    | ok left =>
        have hok : r.document.map Handed.node = .ok left.node := by rw [hdocument]; rfl
        exact absurd ⟨left.node, map_document_eq_ok_iff.mp hok⟩ h

/-- **An editing of a document is its rebuilding.**  The edit is asked about every node and every
attribute once, in postorder, with the parts renewed; what is left is the tree built anew; the
editing fails just when that is no document; and the document itself comes out, and not a copy of
it, just when its children come out as they are and it is kept, so above all where every node is
kept. -/
theorem document_rebuilt (edit : Node → Edit) (start stop : Int) (children : List Node) :
    let root : Node := .container start stop .document children
    let r := ofNode edit root
    let f := remains edit
    r.calls = root.postorder.map (Node.renewed f) ∧ root.postorder.Perm root.visited
      ∧ r.result.map Handed.node = root.rebuilt f
      ∧ (∀ node, r.document.map Handed.node = .ok node
          ↔ root.rebuilt f = some node ∧ node.isDocument = true)
      ∧ (r.document = .error .noDocument
          ↔ ¬∃ node, root.rebuilt f = some node ∧ node.isDocument = true)
      ∧ (∀ node, r.document = .ok ⟨node, true⟩
          ↔ root.renewed f = root ∧ edit root = .keep ∧ node = root)
      ∧ ((∀ node ∈ root.postorder, edit node = .keep) →
          r.calls = root.postorder ∧ r.document = .ok ⟨root, true⟩) := by
  intro root r f
  have hresult : r.result.map Handed.node = root.rebuilt f := ofNode_result root
  have hcalls : r.calls = root.postorder.map (Node.renewed f) := ofNode_calls root
  have hsame : ∀ node, r.document = .ok ⟨node, true⟩
      ↔ root.renewed f = root ∧ edit root = .keep ∧ node = root := by
    intro node
    rw [document_eq_ok_iff, ofNode_container_same_iff, Node.renewed, Node.withParts_eq_self_iff]
    constructor
    · rintro ⟨h, -⟩
      exact h
    · rintro ⟨hparts, hkeep, rfl⟩
      exact ⟨⟨hparts, hkeep, rfl⟩, rfl⟩
  refine ⟨hcalls, root.postorder_perm, hresult, ?_, ?_, hsame, ?_⟩
  · intro node
    rw [map_document_eq_ok_iff, hresult]
  · rw [document_eq_error_iff, hresult]
  · intro hkeep
    have hroot : edit root = .keep := hkeep root (List.mem_of_getLast? root.getLast?_postorder)
    have hparts : Node.rebuiltAll f children = children :=
      rebuiltAll_of_keep children fun n hn => hkeep n (by simp [root, Node.postorder, hn])
    have hrenewed : root.renewed f = root := (Node.withParts_eq_self_iff _ _ _ _ [] _).mpr hparts
    exact ⟨hcalls.trans (map_renewed_of_keep root hkeep),
      (hsame root).mpr ⟨hrenewed, hroot, rfl⟩⟩

/-- Without its comment a document is built anew; with every node kept it is given back. -/
theorem document_rebuilt_of_comment :
    let link : Node := .element 0 4 { name := "a" } [.leaf 1 2 (.attribute "b" none)] []
    let root : Node := .container 0 9 .document [link, .leaf 4 9 .comment]
    let strip (node : Node) : Edit := if node.isComment then .drop else .keep
    let keep (_ : Node) : Edit := .keep
    (ofNode strip root).document.map Handed.node = .ok (.container 0 9 .document [link])
      ∧ (∀ node ∈ root.postorder, keep node = .keep)
      ∧ (ofNode keep root).document = .ok ⟨root, true⟩ := by
  intro link root strip keep
  have hstripped := document_rebuilt strip 0 9 [link, .leaf 4 9 .comment]
  have hkept := document_rebuilt keep 0 9 [link, .leaf 4 9 .comment]
  have hkeep : ∀ node ∈ root.postorder, keep node = .keep := fun _ _ => rfl
  exact ⟨(hstripped.2.2.2.1 _).mpr ⟨rfl, rfl⟩, hkeep, (hkept.2.2.2.2.2.2 hkeep).2⟩

end Editing

end SourceView
