import DeclTree.Node.Basic

/-!
# Measures of trees

`height` bounds how deep the nodes on the branches go, held ones included, and `size` counts
the nodes that a tree owns. Both decrease from a node to the nodes below it.
-/

namespace DeclTree

namespace Branch

variable {α β : Type}

@[simp] theorem items_map (f : α → β) (branch : Branch α) :
    (branch.map f).items = branch.items.map f := by
  match branch with
  | .list _ _ => rfl
  | .slot child => simp [map, items, Option.toList_map]
  | .heldAttributes _ => rfl
  | .heldType item => simp [map, items, Option.toList_map]

@[simp] theorem children_map (f : α → β) (branch : Branch α) :
    (branch.map f).children = branch.children.map f := by
  match branch with
  | .list _ _ => rfl
  | .slot child => simp [map, children, Option.toList_map]
  | .heldAttributes _ => rfl
  | .heldType _ => rfl

theorem flatMap_items_map (f : α → β) (branches : List (Branch α)) :
    (branches.map (Branch.map f)).flatMap items = (branches.flatMap items).map f := by
  induction branches with
  | nil => rfl
  | cons branch rest ih => simp [ih]

theorem flatMap_children_map (f : α → β) (branches : List (Branch α)) :
    (branches.map (Branch.map f)).flatMap children = (branches.flatMap children).map f := by
  induction branches with
  | nil => rfl
  | cons branch rest ih => simp [ih]

end Branch

namespace Node

/-- Number of nodes on the longest way down. -/
def height (node : Node) : Nat :=
  node.fold fun _ _ branches => 1 + (branches.flatMap Branch.items).foldr max 0

/-- All numbers of a list together. -/
def total (ns : List Nat) : Nat := ns.foldr (· + ·) 0

/-- Number of nodes that the tree owns, its root included. -/
def size (node : Node) : Nat :=
  node.fold fun _ _ branches => 1 + total (branches.flatMap Branch.children)

theorem height_eq (node : Node) :
    node.height = 1 + (node.parts.map height).foldr max 0 := by
  rw [height, fold_eq, Branch.flatMap_items_map]
  rfl

theorem size_eq (node : Node) : node.size = 1 + total (node.children.map size) := by
  rw [size, fold_eq, Branch.flatMap_children_map]
  rfl

theorem total_append (left right : List Nat) :
    total (left ++ right) = total left + total right := by
  induction left with
  | nil => simp [total]
  | cons n ns ih =>
      simp only [total, List.cons_append, List.foldr_cons] at ih ⊢
      omega

theorem le_foldr_max {n : Nat} {ns : List Nat} (h : n ∈ ns) : n ≤ ns.foldr max 0 := by
  induction ns with
  | nil => simp at h
  | cons m ns ih =>
      rcases List.mem_cons.mp h with rfl | h
      · simp only [List.foldr_cons]; omega
      · have := ih h
        simp only [List.foldr_cons]; omega

theorem height_lt_of_mem_parts {node part : Node} (h : part ∈ node.parts) :
    part.height < node.height := by
  have := le_foldr_max (List.mem_map_of_mem (f := height) h)
  rw [height_eq node]
  omega

end Node

end DeclTree
