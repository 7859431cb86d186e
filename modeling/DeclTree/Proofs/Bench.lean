import DeclTree.Proofs.Running
import DeclTree.Proofs.Shape
import DeclTree.Workbench.Path
import Mathlib.Data.List.Flatten

/-!
# What lies on the workbench

The trees of all things on the workbench, the nodes of these trees, and the node or list that a
path leads to.
-/

namespace DeclTree

open Node

variable {α : Type}

/-! ## Things -/

namespace Item

/-- The trees that the thing consists of. -/
def trees : Item → List Node
  | .node root => [root]
  | .list _ members => members.items
  | .slot _ place => place.item.toList
  | .store _ => []

def owner? : Item → Option NodeId
  | .list _ members => some members.owner
  | .slot _ place => some place.owner
  | .node _ | .store _ => none

end Item

/-- All trees of the things in a table. -/
def Table.trees (items : Table String Item) : List Node :=
  items.entries.flatMap fun entry => entry.2.trees

namespace Table

theorem mem_of_lookup {κ : Type} [DecidableEq κ] {key : κ} {a : α} {entries : List (κ × α)}
    (h : lookup key entries = some a) : (key, a) ∈ entries := by
  induction entries with
  | nil => cases h
  | cons entry rest ih =>
      unfold lookup at h
      by_cases hkey : entry.1 = key
      · rw [if_pos hkey] at h
        rw [← hkey, ← Option.some.inj h]
        exact List.mem_cons_self
      · rw [if_neg hkey] at h
        exact List.mem_cons_of_mem _ (ih h)

variable {items : Table String Item} {name : String} {item : Item} {tree : Node}

theorem mem_trees_of_get? (h : items.get? name = some item) (htree : tree ∈ item.trees) :
    tree ∈ items.trees :=
  List.mem_flatMap.mpr ⟨_, mem_of_lookup h, htree⟩

theorem mem_trees_of_erase (h : tree ∈ (items.erase name).trees) : tree ∈ items.trees := by
  obtain ⟨entry, hentry, htree⟩ := List.mem_flatMap.mp h
  exact List.mem_flatMap.mpr ⟨entry, List.mem_of_mem_filter hentry, htree⟩

theorem mem_trees_of_insert (h : tree ∈ (items.insert name item).trees) :
    tree ∈ item.trees ∨ tree ∈ items.trees := by
  have split : tree ∈ item.trees ++ (items.erase name).trees := h
  cases List.mem_append.mp split with
  | inl new => exact .inl new
  | inr old => exact .inr (mem_trees_of_erase old)

end Table

namespace Workbench

/-- All nodes there are, at any depth. -/
def nodes (bench : Workbench) : List Node := bench.items.trees.flatMap Node.nodes

/-- The workbench with another thing under a name. -/
def place (bench : Workbench) (name : String) (item : Item) : Workbench :=
  { bench with items := bench.items.insert name item }

/-! ## Finding nodes and lists -/

/-- The node at the end of a path. -/
def nodeAt? (bench : Workbench) (path : Path) : Option Node :=
  (bench.items.get? path.register).bind fun item => item.at? path.segments

/-- The list that a path names, with the kind of its members. -/
def listAt? (bench : Workbench) : ListPath → Option (Kind × ChildList Node)
  | .register name => (bench.items.get? name).bind fun
      | .list kind members => some (kind, members)
      | _ => none
  | .branch path role => (bench.nodeAt? path).bind fun node =>
      (node.list? role).map fun list => (role.kind, list)

variable {bench bench' : Workbench}

theorem nodeAt?_congr {path : Path}
    (h : bench'.items.get? path.register = bench.items.get? path.register) :
    bench'.nodeAt? path = bench.nodeAt? path := by
  unfold nodeAt?
  rw [h]

theorem listAt?_congr {path : ListPath}
    (h : bench'.items.get? path.root = bench.items.get? path.root) :
    bench'.listAt? path = bench.listAt? path := by
  cases path with
  | register name =>
      have same : bench'.items.get? name = bench.items.get? name := h
      simp only [listAt?, same]
  | branch path role =>
      have same : bench'.nodeAt? path = bench.nodeAt? path := nodeAt?_congr h
      simp only [listAt?, same]

end Workbench

theorem Node.children_sublist_parts (node : Node) : node.children.Sublist node.parts := by
  refine List.Sublist.flatMap_right node.branches fun branch _ => ?_
  cases branch with
  | list role members => exact .refl _
  | slot place => exact .refl _
  | heldAttributes items => exact List.nil_sublist _
  | heldType item => exact List.nil_sublist _

theorem Node.children_subset_parts (node : Node) : node.children ⊆ node.parts :=
  node.children_sublist_parts.subset

theorem Node.mem_nodes_of_at? {node found : Node} {segments : List Segment}
    (h : node.at? segments = some found) : found ∈ node.nodes := by
  fun_induction Node.at? node segments with
  | case1 node =>
      obtain rfl := Option.some.inj h
      exact node.self_mem_nodes
  | case2 node role index rest member hmember ih =>
      exact mem_nodes_of_mem_parts (mem_parts_of_itemsIn (List.mem_of_getElem? hmember)) (ih h)
  | case3 => cases h
  | case4 node rest type htype ih =>
      exact mem_nodes_of_mem_parts (mem_parts_of_type? (Option.join_eq_some_iff.mp htype)) (ih h)
  | case5 => cases h
  | case6 node index rest child hchild ih =>
      have hpart := node.children_subset_parts (List.mem_of_getElem? hchild)
      exact mem_nodes_of_mem_parts hpart (ih h)
  | case7 => cases h
  | case8 => cases h

theorem Item.exists_tree_of_at? {item : Item} {segments : List Segment} {found : Node}
    (h : item.at? segments = some found) : ∃ tree ∈ item.trees, found ∈ tree.nodes := by
  unfold Item.at? at h
  split at h
  next root => exact ⟨root, List.mem_singleton.mpr rfl, mem_nodes_of_at? h⟩
  next members index rest =>
    obtain ⟨tree, htree, h⟩ := Option.bind_eq_some_iff.mp h
    exact ⟨tree, List.mem_of_getElem? htree, mem_nodes_of_at? h⟩
  next place segments =>
    obtain ⟨tree, htree, h⟩ := Option.bind_eq_some_iff.mp h
    exact ⟨tree, Option.mem_toList.mpr htree, mem_nodes_of_at? h⟩
  next => cases h

namespace Workbench

variable {bench : Workbench} {name : String} {item : Item} {node : Node}

theorem mem_nodes_of_get? (found : bench.items.get? name = some item) {tree : Node}
    (htree : tree ∈ item.trees) (hnode : node ∈ tree.nodes) : node ∈ bench.nodes :=
  List.mem_flatMap.mpr ⟨tree, Table.mem_trees_of_get? found htree, hnode⟩

theorem mem_nodes_of_nodeAt? {path : Path} (found : bench.nodeAt? path = some node) :
    node ∈ bench.nodes := by
  obtain ⟨item, hitem, hnode⟩ := Option.bind_eq_some_iff.mp found
  obtain ⟨tree, htree, hnode⟩ := Item.exists_tree_of_at? hnode
  exact mem_nodes_of_get? hitem htree hnode

/-- What hangs below a node of the workbench is on the workbench too. -/
theorem nodes_subset_nodes (h : node ∈ bench.nodes) : node.nodes ⊆ bench.nodes := by
  obtain ⟨tree, htree, hnode⟩ := List.mem_flatMap.mp h
  intro other hother
  exact List.mem_flatMap.mpr ⟨tree, htree, (nodes_sublist_nodes hnode).subset hother⟩

theorem mem_nodes_of_listAt? {path : ListPath} {kind : Kind} {list : ChildList Node}
    (found : bench.listAt? path = some (kind, list)) : list.items ⊆ bench.nodes := by
  intro member hmember
  cases path with
  | register name =>
      obtain ⟨thing, hthing, hlist⟩ := Option.bind_eq_some_iff.mp found
      match thing, hlist with
      | .list _ _, hlist =>
          cases hlist
          exact mem_nodes_of_get? hthing hmember member.self_mem_nodes
  | branch path role =>
      obtain ⟨node, hnode, hlist⟩ := Option.bind_eq_some_iff.mp found
      obtain ⟨_, hlist, same⟩ := Option.map_eq_some_iff.mp hlist
      cases same
      refine nodes_subset_nodes (mem_nodes_of_nodeAt? hnode) ?_
      exact mem_nodes_of_mem_parts (mem_parts_of_list? hlist hmember) member.self_mem_nodes

end Workbench

end DeclTree
