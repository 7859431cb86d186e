import DeclTree.Node.Measure

/-!
# Walking a tree

The walk keeps a stack of nodes still to be visited. It visits a node before its children and
a child with all below it before the next child.
-/

namespace DeclTree.Node

/-- Visits the nodes of a stack, each followed by the nodes it owns. -/
def walk : List Node → List Node
  | [] => []
  | node :: stack => node :: walk (node.children ++ stack)
termination_by stack => total (stack.map size)
decreasing_by
  have rest : total ((node :: stack).map size) = node.size + total (stack.map size) := rfl
  rw [List.map_append, total_append, rest, size_eq node]
  omega

/-- The nodes of a tree, from the root. -/
def descendants (node : Node) : List Node := walk [node]

/-- The first node of a tree with an identity. -/
def find? (node : Node) (id : NodeId) : Option Node :=
  node.descendants.find? fun descendant => descendant.id = id

end DeclTree.Node
