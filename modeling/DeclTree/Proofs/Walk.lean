import DeclTree.Proofs.Address
import DeclTree.Proofs.Ownership.Run
import Mathlib.Logic.Function.Iterate

/-!
# The walk through a tree

The walk works off a stack, one node in each round. What it has visited and what it would still
visit from its stack are together the same list in every round, so it ends after as many rounds as
the tree has owned nodes, and has then visited them in declaration order.

In every state of a run the walk is also a way to navigate. An identity leads to the one node of
the tree that has it, and the parent of a node below the root leads to the one node that owns it.
-/

namespace DeclTree

/-! ## Rounds -/

/-- A walk under way. -/
structure Tour where
  visited : List Node := []
  pending : List Node

namespace Tour

/-- One round. The node on top of the stack is visited, and its children take its place there. -/
def round : Tour → Tour
  | ⟨visited, []⟩ => ⟨visited, []⟩
  | ⟨visited, node :: pending⟩ => ⟨visited ++ [node], node.children ++ pending⟩

theorem visited_round (tour : Tour) :
    tour.round.visited = tour.visited ++ (Node.walk tour.pending).take 1 := by
  obtain ⟨visited, _ | ⟨node, pending⟩⟩ := tour
  · simp [round, Node.walk]
  · rw [Node.walk]
    rfl

theorem walk_pending_round (tour : Tour) :
    Node.walk tour.round.pending = (Node.walk tour.pending).drop 1 := by
  obtain ⟨visited, _ | ⟨node, pending⟩⟩ := tour
  · simp [round, Node.walk]
  · conv_rhs => rw [Node.walk]
    rfl

/-- After some rounds that many nodes have moved from the walk ahead to the nodes visited. -/
theorem iterate_round (tour : Tour) (rounds : Nat) :
    (round^[rounds] tour).visited = tour.visited ++ (Node.walk tour.pending).take rounds ∧
      Node.walk (round^[rounds] tour).pending = (Node.walk tour.pending).drop rounds := by
  induction rounds with
  | zero => simp
  | succ rounds ih =>
      obtain ⟨visited, ahead⟩ := ih
      rw [Function.iterate_succ_apply']
      constructor
      · rw [visited_round, visited, ahead, List.append_assoc, ← List.take_add]
      · rw [walk_pending_round, ahead, List.drop_drop]

end Tour

namespace Node

theorem walk_eq_nil {stack : List Node} : walk stack = [] ↔ stack = [] := by
  cases stack with
  | nil => simp [walk]
  | cons node stack => simp [walk]

/-- The walk from a node has visited the first nodes of the tree, one for each round, and its stack
is empty as soon as it has visited all of them. -/
theorem iterate_round_eq (node : Node) (rounds : Nat) :
    (Tour.round^[rounds] { pending := [node] }).visited = node.descendants.take rounds ∧
      ((Tour.round^[rounds] { pending := [node] }).pending = [] ↔
        node.descendants.length ≤ rounds) := by
  obtain ⟨visited, ahead⟩ := Tour.iterate_round { pending := [node] } rounds
  refine ⟨visited, ?_⟩
  rw [← walk_eq_nil, ahead, List.drop_eq_nil_iff]
  rfl

/-! ## Occurrence -/

/-- A tree contains its root and, with each node, the nodes that this one owns. -/
def Contains (tree node : Node) : Prop :=
  Relation.ReflTransGen (fun owner child => child ∈ owner.children) tree node

theorem mem_descendants_of_child {node child other : Node} (hchild : child ∈ node.children)
    (h : other ∈ child.descendants) : other ∈ node.descendants := by
  rw [descendants_eq]
  exact List.mem_cons_of_mem _ (List.mem_flatMap.mpr ⟨child, hchild, h⟩)

theorem self_mem_descendants (node : Node) : node ∈ node.descendants := by
  rw [descendants_eq]
  exact List.mem_cons_self

theorem mem_descendants_iff {tree node : Node} : node ∈ tree.descendants ↔ tree.Contains node := by
  constructor
  · intro h
    induction tree using induction with
    | step tree ih =>
        rw [descendants_eq, List.mem_cons, List.mem_flatMap] at h
        rcases h with rfl | ⟨child, hchild, below⟩
        · exact .refl
        · exact .head hchild (ih child (tree.children_subset_parts hchild) below)
  · intro h
    induction h using Relation.ReflTransGen.head_induction_on with
    | refl => exact node.self_mem_descendants
    | head hchild _ ih => exact mem_descendants_of_child hchild ih

theorem Catalog.contains_iff {tree node : Node} (h : tree.Catalog) :
    tree.Contains node ↔ node ∈ tree.nodes := by
  rw [← mem_descendants_iff, h.descendants_eq_nodes]

theorem descendants_sublist_nodes (node : Node) : node.descendants.Sublist node.nodes := by
  induction node using induction with
  | step node ih =>
      rw [descendants_eq, nodes_eq]
      refine .cons_cons node ((node.children_sublist_parts.flatMap descendants).trans ?_)
      exact List.Sublist.flatMap_right node.parts ih

theorem find?_eq_some_iff {tree node : Node} (distinct : (tree.descendants.map id).Nodup)
    {id : NodeId} : tree.find? id = some node ↔ tree.Contains node ∧ node.id = id := by
  rw [← mem_descendants_iff]
  constructor
  · intro found
    exact ⟨List.mem_of_find?_eq_some found, by simpa using List.find?_some found⟩
  · rintro ⟨hnode, rfl⟩
    cases found : tree.find? node.id with
    | none => simpa using List.find?_eq_none.mp found node hnode
    | some other =>
        have same : other.id = node.id := by simpa using List.find?_some found
        have hother := List.mem_of_find?_eq_some found
        rw [List.inj_on_of_nodup_map distinct hother hnode same]

/-- A node below the root is owned by a node of the tree. -/
theorem Contains.exists_owner {tree node : Node} (h : tree.Contains node) (below : node ≠ tree) :
    ∃ owner, tree.Contains owner ∧ node ∈ owner.children := by
  rcases Relation.ReflTransGen.cases_tail h with same | ⟨owner, howner, hchild⟩
  · exact absurd same below
  · exact ⟨owner, howner, hchild⟩

end Node

/-! ## Navigation -/

namespace Workbench

section Navigation

variable {bench : Workbench} {tree node owner : Node}

theorem mem_nodes_of_contains (htree : tree ∈ bench.nodes) (h : tree.Contains node) :
    node ∈ bench.nodes := by
  obtain ⟨root, hroot, htree⟩ := List.mem_flatMap.mp htree
  have hnode := tree.descendants_sublist_nodes.subset (Node.mem_descendants_iff.mpr h)
  exact List.mem_flatMap.mpr ⟨root, hroot, (Node.nodes_sublist_nodes htree).subset hnode⟩

theorem Ownership.nodup_descendants (h : bench.Ownership) (htree : tree ∈ bench.nodes) :
    (tree.descendants.map Node.id).Nodup :=
  (nodup_ids_of_mem h.distinct htree).sublist (tree.descendants_sublist_nodes.map Node.id)

/-- The parent of a node is the node that has it among its children. -/
theorem Ownership.parent_of_mem_children (h : bench.Ownership) (howner : owner ∈ bench.nodes)
    (hchild : node ∈ owner.children) : node.parent = some owner.id := by
  obtain ⟨branch, hbranch, hitem⟩ := List.mem_flatMap.mp hchild
  cases branch with
  | list role list =>
      obtain ⟨own, owned⟩ := h.innerList owner howner hbranch
      rw [(owned node hitem).1, own]
  | slot slot =>
      obtain ⟨own, owned⟩ := h.innerSlot owner howner hbranch
      rw [(owned node (Option.mem_toList.mp hitem)).1, own]
  | heldAttributes items => cases hitem
  | heldType item => cases hitem

/-- The parent of a node below the root leads to its owner, and no other node has it among its
children. -/
theorem Ownership.exists_owner (h : bench.Ownership) (htree : tree ∈ bench.nodes)
    (hnode : tree.Contains node) (below : node ≠ tree) :
    ∃ owner, node.parent = some owner.id ∧ tree.find? owner.id = some owner ∧
      ∀ other, tree.Contains other → (node ∈ other.children ↔ other = owner) := by
  have distinct := h.nodup_descendants htree
  obtain ⟨owner, howner, hchild⟩ := hnode.exists_owner below
  have parent := h.parent_of_mem_children (mem_nodes_of_contains htree howner) hchild
  have found := (Node.find?_eq_some_iff distinct).mpr ⟨howner, rfl⟩
  refine ⟨owner, parent, found, fun other hother => ⟨fun hchild' => ?_, fun same => same ▸ hchild⟩⟩
  have parent' := h.parent_of_mem_children (mem_nodes_of_contains htree hother) hchild'
  have same : owner.id = other.id := Option.some.inj (parent.symm.trans parent')
  have found' := (Node.find?_eq_some_iff distinct).mpr ⟨hother, same.symm⟩
  exact Option.some.inj (found'.symm.trans found)

end Navigation

/-- The walk from any node ends with the tree in preorder, and a tree of the catalog owns all its
nodes. In every state of a run the walk meets each identity once, finds exactly the nodes that
occur, and follows the parent of a node to its owner. -/
theorem walk_is_preorder_and_navigable {bench : Workbench} {steps : List Step}
    (empty : bench.items.trees = []) (admitted : bench.admits steps) :
    (∀ node : Node,
      (∀ rounds, (Tour.round^[rounds] { pending := [node] }).visited =
          node.descendants.take rounds ∧
        ((Tour.round^[rounds] { pending := [node] }).pending = [] ↔
          node.descendants.length ≤ rounds)) ∧
      node.descendants = node :: node.children.flatMap Node.descendants) ∧
    (∀ tree : Node, tree.Catalog → ∀ node, tree.Contains node ↔ node ∈ tree.nodes) ∧
    ∀ tree ∈ (bench.run steps).2.nodes,
      (tree.descendants.map Node.id).Nodup ∧
      (∀ id node, tree.find? id = some node ↔ tree.Contains node ∧ node.id = id) ∧
      ∀ node, tree.Contains node → node ≠ tree →
        ∃ owner, node.parent = some owner.id ∧ tree.find? owner.id = some owner ∧
          ∀ other, tree.Contains other → (node ∈ other.children ↔ other = owner) := by
  have ownership := ((sound_of_no_trees empty).run admitted).ownership
  refine ⟨fun node => ⟨node.iterate_round_eq, node.descendants_eq⟩,
    fun tree catalog node => catalog.contains_iff, fun tree htree => ?_⟩
  have distinct := ownership.nodup_descendants htree
  refine ⟨distinct, fun id node => Node.find?_eq_some_iff distinct, fun node hnode below => ?_⟩
  exact ownership.exists_owner htree hnode below

theorem walk_is_preorder_and_navigable_of_sampleSteps :
    ({} : Workbench).items.trees = [] ∧ ({} : Workbench).admits sampleSteps ∧
      ∃ shop ∈ (({} : Workbench).run sampleSteps).2.nodes,
        ∃ method ∈ shop.children, ∃ type ∈ method.children,
          shop.name = "Shop" ∧ method.name = "Sell" ∧ type.name = "List" ∧
            shop.find? type.id = some type ∧
            type.parent = some method.id ∧ shop.find? method.id = some method := by
  have admitted : ({} : Workbench).admits sampleSteps := by decide +kernel
  have stands : ((({} : Workbench).run sampleSteps).2.nodes.any fun shop =>
      shop.children.any fun method => method.children.any fun type =>
        (shop.name, method.name, type.name) = ("Shop", "Sell", "List")) = true := by
    decide +kernel
  simp only [List.any_eq_true, decide_eq_true_eq, Prod.mk.injEq] at stands
  obtain ⟨shop, hshop, method, hmethod, type, htype, shopName, methodName, typeName⟩ := stands
  obtain ⟨-, -, runs⟩ := walk_is_preorder_and_navigable rfl admitted
  obtain ⟨-, finds, owners⟩ := runs shop hshop
  have reached : shop.Contains method := .single hmethod
  have below : type ≠ shop := by
    rintro rfl
    rw [typeName] at shopName
    simp at shopName
  obtain ⟨owner, parent, found, only⟩ := owners type (.tail reached htype) below
  obtain rfl := (only method reached).mp htype
  exact ⟨rfl, admitted, shop, hshop, method, hmethod, type, htype, shopName, methodName, typeName,
    (finds type.id type).mpr ⟨.tail reached htype, rfl⟩, parent, found⟩

end Workbench

end DeclTree
