import DeclTree.Proofs.Shape
import Mathlib.Data.List.Flatten
import Mathlib.Data.List.Nodup

/-!
# Who owns what, and what is accounted for

A tree is tidy if the lists and slots of each of its nodes are the node's own and the parent link of
everything on a branch names the owner of that branch. A ledger accounts for the trees that are
about at one time: all are tidy, no identity occurs twice among them and every identity has been
given out. Since identities are only counted, moving nodes about is arithmetic.
-/

namespace DeclTree

/-- The owner of the list or slot on the branch. What is only held has none. -/
def Branch.owner? {α : Type} : Branch α → Option NodeId
  | .list _ children => some children.owner
  | .slot child => some child.owner
  | .heldAttributes _ | .heldType _ => none

namespace Node

/-! ## Tidy trees -/

/-- The branches of one node are in order. -/
structure Keeps (node : Node) : Prop where
  places : node.places.Nodup
  owner : ∀ branch ∈ node.branches, ∀ id ∈ branch.owner?, id = node.id
  parent : ∀ branch ∈ node.branches, ∀ item ∈ branch.items, item.parent = branch.owner?

def Tidy (node : Node) : Prop := ∀ other ∈ node.nodes, other.Keeps

theorem tidy_iff {node : Node} : node.Tidy ↔ node.Keeps ∧ ∀ part ∈ node.parts, part.Tidy := by
  constructor
  · intro h
    refine ⟨h node node.self_mem_nodes, fun part hpart other hother => ?_⟩
    exact h other (mem_nodes_of_mem_parts hpart hother)
  · rintro ⟨root, below⟩ other hother
    rcases mem_nodes.mp hother with rfl | ⟨part, hpart, hother⟩
    · exact root
    · exact below part hpart other hother

theorem Tidy.keeps {node : Node} (h : node.Tidy) : node.Keeps := (tidy_iff.mp h).1

/-- Whatever else changes, identity and branches decide. -/
theorem Tidy.congr {node node' : Node} (h : node.Tidy) (hid : node'.id = node.id)
    (hbranches : node'.branches = node.branches) : node'.Tidy := by
  obtain ⟨keeps, below⟩ := tidy_iff.mp h
  refine tidy_iff.mpr ⟨⟨?_, ?_, ?_⟩, ?_⟩
  · rw [places, hbranches]
    exact keeps.places
  · rw [hbranches, hid]
    exact keeps.owner
  · rw [hbranches]
    exact keeps.parent
  · rw [parts, hbranches]
    exact below

theorem Tidy.withParent {node : Node} (h : node.Tidy) (parent : Option NodeId) :
    (node.withParent parent).Tidy :=
  h.congr rfl rfl

/-! ## Free nodes -/

/-- None of the nodes has an owner. -/
def Free (nodes : List Node) : Prop := ∀ node ∈ nodes, node.parent = none

theorem free_nil : Free [] := fun _ hnode => (List.not_mem_nil hnode).elim

theorem free_singleton {node : Node} : Free [node] ↔ node.parent = none :=
  List.forall_mem_singleton

theorem free_append {left right : List Node} :
    Free (left ++ right) ↔ Free left ∧ Free right :=
  List.forall_mem_append

/-! ## Counting identities -/

/-- How often an identity occurs among the trees. -/
def tally (trees : List Node) (id : NodeId) : Nat := (trees.flatMap ids).count id

@[simp] theorem tally_nil (id : NodeId) : tally [] id = 0 := rfl

@[simp] theorem tally_append (left right : List Node) (id : NodeId) :
    tally (left ++ right) id = tally left id + tally right id := by
  unfold tally
  rw [List.flatMap_append, List.count_append]

theorem tally_cons (node : Node) (trees : List Node) (id : NodeId) :
    tally (node :: trees) id = node.ids.count id + tally trees id := by
  unfold tally
  rw [List.flatMap_cons, List.count_append]

theorem count_ids (node : Node) (id : NodeId) :
    node.ids.count id = (if node.id = id then 1 else 0) + tally node.parts id := by
  rw [ids_eq, List.count_cons, Nat.add_comm]
  simp [tally]

/-- Whatever else changes, identity and branches decide. -/
theorem ids_congr {node node' : Node} (hid : node'.id = node.id)
    (hbranches : node'.branches = node.branches) : node'.ids = node.ids := by
  rw [ids_eq, ids_eq, hid, parts, parts, hbranches]

theorem tally_map {f : Node → Node} (h : ∀ node, (f node).ids = node.ids) (trees : List Node)
    (id : NodeId) : tally (trees.map f) id = tally trees id := by
  unfold tally
  rw [List.flatMap_map]
  simp only [h]

theorem tally_le_of_sublist {left right : List Node} (h : left.Sublist right) (id : NodeId) :
    tally left id ≤ tally right id :=
  (h.flatMap ids).count_le id

end Node

open Node

/-! ## Ledgers -/

/-- Tidy trees without a common identity, all identities below `next`. -/
structure Ledger (next : Nat) (trees : List Node) : Prop where
  tidy : ∀ tree ∈ trees, tree.Tidy
  once : ∀ id, tally trees id ≤ if id.number < next then 1 else 0

namespace Ledger

variable {next next' : Nat} {trees trees' rest : List Node}

theorem nil (next : Nat) : Ledger next [] :=
  ⟨fun _ h => (List.not_mem_nil h).elim, fun _ => Nat.zero_le _⟩

theorem nodup (h : Ledger next trees) : (trees.flatMap ids).Nodup := by
  rw [List.nodup_iff_count_le_one]
  intro id
  have once := h.once id
  unfold tally at once
  split at once <;> omega

theorem allocated (h : Ledger next trees) {id : NodeId} (hid : id ∈ trees.flatMap ids) :
    id.number < next := by
  have positive : 0 < tally trees id := List.count_pos_iff.mpr hid
  have once := h.once id
  split at once
  · assumption
  · omega

theorem mono (h : Ledger next trees) (hnext : next ≤ next') : Ledger next' trees := by
  refine ⟨h.tidy, fun id => ?_⟩
  have once := h.once id
  split at once <;> split <;> omega

/-- New trees, with identities that were given out since. -/
theorem append (h : Ledger next rest) (hnext : next ≤ next') (tidy : ∀ tree ∈ trees, tree.Tidy)
    (nodup : (trees.flatMap ids).Nodup)
    (fresh : ∀ id ∈ trees.flatMap ids, next ≤ id.number ∧ id.number < next') :
    Ledger next' (trees ++ rest) := by
  refine ⟨fun tree htree => ?_, fun id => ?_⟩
  · exact (List.mem_append.mp htree).elim (tidy tree) (h.tidy tree)
  · rw [tally_append]
    have old := h.once id
    have single : tally trees id ≤ 1 := List.nodup_iff_count_le_one.mp nodup id
    by_cases hid : id ∈ trees.flatMap ids
    · obtain ⟨low, high⟩ := fresh id hid
      rw [if_neg (by omega)] at old
      rw [if_pos high]
      omega
    · have none : tally trees id = 0 := List.count_eq_zero.mpr hid
      split at old <;> split <;> omega

end Ledger

/-! ## Rearranging trees -/

/-- Tidy trees are turned into tidy trees, and no identity is multiplied. -/
def Rearranges (before after : List Node) : Prop :=
  (∀ tree ∈ before, tree.Tidy) →
    (∀ tree ∈ after, tree.Tidy) ∧ ∀ id, tally after id ≤ tally before id

namespace Rearranges

variable {before middle after : List Node}

theorem refl (trees : List Node) : Rearranges trees trees :=
  fun tidy => ⟨tidy, fun _ => Nat.le_refl _⟩

theorem trans (first : Rearranges before middle) (second : Rearranges middle after) :
    Rearranges before after := by
  intro tidy
  obtain ⟨tidy, fewer⟩ := first tidy
  obtain ⟨tidy, fewer'⟩ := second tidy
  exact ⟨tidy, fun id => Nat.le_trans (fewer' id) (fewer id)⟩

theorem perm (same : after.Perm before) : Rearranges before after :=
  fun tidy => ⟨fun tree htree => tidy tree (same.subset htree),
    fun id => Nat.le_of_eq ((same.flatMap_right ids).count_eq id)⟩

theorem of_sublist (h : after.Sublist before) : Rearranges before after :=
  fun tidy => ⟨fun tree htree => tidy tree (h.subset htree), tally_le_of_sublist h⟩

theorem append {before' after' : List Node} (left : Rearranges before after)
    (right : Rearranges before' after') : Rearranges (before ++ before') (after ++ after') := by
  intro tidy
  obtain ⟨tidy₁, fewer₁⟩ := left fun tree htree => tidy tree (List.mem_append_left _ htree)
  obtain ⟨tidy₂, fewer₂⟩ := right fun tree htree => tidy tree (List.mem_append_right _ htree)
  refine ⟨fun tree htree => ?_, fun id => ?_⟩
  · rcases List.mem_append.mp htree with htree | htree
    · exact tidy₁ tree htree
    · exact tidy₂ tree htree
  · have less₁ := fewer₁ id
    have less₂ := fewer₂ id
    rw [tally_append, tally_append]
    omega

/-- What is beside the change stays as it is. -/
theorem frame (change : Rearranges before after) (rest : List Node) :
    Rearranges (before ++ rest) (after ++ rest) :=
  change.append (.refl rest)

end Rearranges

theorem Ledger.rearrange {next : Nat} {before after : List Node} (h : Ledger next before)
    (change : Rearranges before after) : Ledger next after := by
  obtain ⟨tidy, fewer⟩ := change h.tidy
  exact ⟨tidy, fun id => Nat.le_trans (fewer id) (h.once id)⟩

end DeclTree
