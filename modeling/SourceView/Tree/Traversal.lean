/-
Going over a tree.

Two orders matter.  A visit goes to a node, then to its attributes and what is below them,
then to its children and what is below those; fold analysis sees a tree in this order.  A
walk yields the nodes that are reached through children alone, each before what is below
it.  It keeps the nodes that are still to come on a stack, so its depth is not the tree's.
-/
import SourceView.Tree.Node

namespace SourceView.Node

/-! ### Visits -/

mutual

/-- The nodes of a tree, attributes included, in the order of a visit. -/
def visited : Node → List Node
  | leaf start stop info => [leaf start stop info]
  | container start stop info children =>
    container start stop info children :: visitedAll children
  | element start stop info attributes children =>
    element start stop info attributes children
      :: (visitedAll attributes ++ visitedAll children)

/-- The nodes of several trees, one tree after another. -/
def visitedAll : List Node → List Node
  | [] => []
  | node :: nodes => visited node ++ visitedAll nodes

end

/-- A class name in lower case with an underscore between its words. -/
def snakeCase (name : String) : String :=
  match name.toList with
  | [] => ""
  | c :: rest =>
    String.ofList (c.toLower :: rest.flatMap fun c => if c.isUpper then ['_', c.toLower] else [c])

/-- The kind of a node, as the handlers of a visit are named. -/
def kindName (node : Node) : String :=
  snakeCase node.className

/-- The handler that a visit calls for a node: its own if there is one. -/
def handlerName (handled : List String) (node : Node) : String :=
  if handled.contains node.kindName then node.kindName else "default"

/-! ### Walks -/

mutual

/-- The number of nodes that a walk from here yields. -/
def size : Node → Nat
  | leaf .. => 1
  | container _ _ _ children | element _ _ _ _ children => sizeAll children + 1

/-- The number of nodes that walks from several nodes yield. -/
def sizeAll : List Node → Nat
  | [] => 0
  | node :: nodes => size node + sizeAll nodes

end

theorem size_eq (node : Node) : node.size = sizeAll node.children + 1 := by
  cases node <;> simp [size, children, sizeAll]

theorem sizeAll_append (xs ys : List Node) : sizeAll (xs ++ ys) = sizeAll xs + sizeAll ys := by
  induction xs with
  | nil => simp [sizeAll]
  | cons x xs ih => simp [sizeAll, ih, Nat.add_assoc]

/-- The nodes that the nodes on the stack lead to, the top of the stack first. -/
def walkStack : List Node → List Node
  | [] => []
  | node :: stack => node :: walkStack (node.children ++ stack)
termination_by stack => sizeAll stack
decreasing_by
  simp only [sizeAll, sizeAll_append, size_eq]
  omega

/-- The node and all below it, without attributes, in source order. -/
def walk (root : Node) : List Node :=
  walkStack [root]

/-- The number of nodes of a tree, without attributes. -/
def count (root : Node) : Nat :=
  root.walk.length

end SourceView.Node
