/-
Editing a tree from the leaves up.

An edit looks at a node whose attributes and children have been edited already, and
keeps it, drops it or puts another node in its place.  A node none of whose parts came out
different is handed to the edit itself, and not a copy of it; so an editing that changes
nothing gives back the tree itself.  Which of the two a node is goes along with it, for a
copy may equal the node that it was made from.

The root has to stay a document.
-/
import SourceView.Tree.Node

namespace SourceView

/-- A node that comes out of a step which was given a node. -/
structure Handed where
  node : Node
  /-- Whether it is the node that was given, and not another one, equal or not. -/
  same : Bool
deriving DecidableEq

/-- What becomes of a node. -/
inductive Edit where
  | keep
  | drop
  | replace (node : Node)

/-- What an edit leaves in the place of a node that has come out of the step before. -/
def Edit.hand? (edit : Edit) (given : Handed) : Option Handed :=
  match edit with
  | keep => some given
  | drop => none
  | replace other => some ⟨other, false⟩

namespace Node

/-- The node with other attributes and children; what has none of them stays as it is. -/
def withParts (node : Node) (attributes children : List Node) : Node :=
  match node with
  | leaf .. => node
  | container start stop info _ => container start stop info children
  | element start stop info _ _ => element start stop info attributes children

/-- The node itself if these are the attributes and children that it has, and otherwise a
new node with them. -/
def updateParts (node : Node) (attributes children : List Node) : Handed :=
  if attributes = node.attributes ∧ children = node.children then ⟨node, true⟩
  else ⟨node.withParts attributes children, false⟩

end Node

/-- What editing came to: what is left, and the nodes that the edit was asked about, in
order. -/
structure Editing (α : Type) where
  result : α
  calls : List Node

namespace Editing

mutual

/-- Edits a tree. -/
def ofNode (edit : Node → Edit) : Node → Editing (Option Handed)
  | .leaf start stop info =>
    let given : Handed := ⟨.leaf start stop info, true⟩
    ⟨(edit given.node).hand? given, [given.node]⟩
  | .container start stop info children =>
    let inner := ofNodes edit children
    let given := (Node.container start stop info children).updateParts [] inner.result
    ⟨(edit given.node).hand? given, inner.calls ++ [given.node]⟩
  | .element start stop info attributes children =>
    let first := ofNodes edit attributes
    let second := ofNodes edit children
    let given :=
      (Node.element start stop info attributes children).updateParts first.result second.result
    ⟨(edit given.node).hand? given, first.calls ++ second.calls ++ [given.node]⟩

/-- Edits several trees, and leaves out those that are dropped. -/
def ofNodes (edit : Node → Edit) : List Node → Editing (List Node)
  | [] => ⟨[], []⟩
  | node :: nodes =>
    let first := ofNode edit node
    let others := ofNodes edit nodes
    ⟨(first.result.map Handed.node).toList ++ others.result, first.calls ++ others.calls⟩

end

/-- The failure of an editing that leaves no document at the root. -/
inductive RootFailure where
  | noDocument
deriving DecidableEq

/-- The wording of the failure. -/
def RootFailure.message : RootFailure → String
  | noDocument => "transform fn must return a Document for the root (cannot remove root)"

/-- The document that is left after an editing. -/
def document (r : Editing (Option Handed)) : Except RootFailure Handed :=
  match r.result with
  | some left => if left.node.isDocument then .ok left else .error .noDocument
  | none => .error .noDocument

end Editing

end SourceView
