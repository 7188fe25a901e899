/-
The order of a walk.

A walk keeps on a stack the nodes that are still to come.  Said without the stack, it yields
a node and then, one child after another, what stands below it.
-/
import SourceView.Tree.Traversal

namespace SourceView.Node

mutual

/-- The node and all below it, without attributes, each node before what is below it. -/
def preorder : Node → List Node
  | leaf start stop info => [leaf start stop info]
  | container start stop info children =>
    container start stop info children :: preorderAll children
  | element start stop info attributes children =>
    element start stop info attributes children :: preorderAll children

/-- The nodes of several trees in this order, one tree after another. -/
def preorderAll : List Node → List Node
  | [] => []
  | node :: nodes => preorder node ++ preorderAll nodes

end

theorem preorder_eq (node : Node) : node.preorder = node :: preorderAll node.children := by
  cases node <;> rfl

theorem preorderAll_append (nodes others : List Node) :
    preorderAll (nodes ++ others) = preorderAll nodes ++ preorderAll others := by
  induction nodes with
  | nil => rfl
  | cons node nodes ih => rw [List.cons_append, preorderAll, ih, preorderAll, List.append_assoc]

theorem walkStack_eq (stack : List Node) : walkStack stack = preorderAll stack := by
  induction stack using walkStack.induct with
  | case1 => rw [walkStack, preorderAll]
  | case2 node stack ih =>
      rw [walkStack, ih, preorderAll_append, preorderAll, preorder_eq, List.cons_append]

/-- A walk is in preorder. -/
theorem walk_eq (root : Node) : root.walk = root :: preorderAll root.children := by
  rw [walk, walkStack_eq, preorderAll, preorder_eq, preorderAll, List.append_nil]

/-- Whether the end of a node is there, for the classes that record it. -/
def closed? : Node → Option Bool
  | container _ _ info _ => match info with
    | .block closed | .parentheses closed | .brackets closed | .templateLiteral closed
    | .rule _ closed | .atRule _ _ _ closed => some closed
    | _ => none
  | element _ _ info _ _ => some info.closed
  | leaf .. => none

end SourceView.Node
