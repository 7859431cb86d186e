import DeclTree.Intent.Locality
import DeclTree.Node.Create
import Mathlib.Data.List.Nodup

/-!
# Shapes of trees

A node of the catalog has exactly the branches that a new node of its kind has, and the nodes on
them are of the kinds that belong there. A probe holds at most attributes and a type, of any
kind. `WellFormed` asks this of every node of a tree, `Catalog` also that the root is no probe;
then there is no probe anywhere below.

A shape fixes which lists and slots a node has, so that reading a list by its role gives back
what was written there, and which facets a node exposes is decided by its kind.
-/

namespace DeclTree

/-! ## Places -/

/-- Where a branch stands on its node. -/
inductive Place where
  | list (role : Role)
  | slot
  | heldAttributes
  | heldType
deriving DecidableEq, Repr

namespace Place

/-- The kind of the nodes in a place, if the place fixes it. -/
def kind? : Place → Option Kind
  | .list role => some role.kind
  | .slot => some .typeRef
  | .heldAttributes | .heldType => none

/-- The role of a list that no facet covers. -/
def memberRole? : Place → Option Role
  | .list .attributes => none
  | .list role => some role
  | _ => none

/-- Whether attributes stand here. -/
def holdsAttributes (place : Place) : Bool :=
  place = .list .attributes ∨ place = .heldAttributes

/-- Whether a type stands here. -/
def holdsType (place : Place) : Bool :=
  place = .slot ∨ place = .heldType

end Place

def Branch.place {α : Type} : Branch α → Place
  | .list role _ => .list role
  | .slot _ => .slot
  | .heldAttributes _ => .heldAttributes
  | .heldType _ => .heldType

/-- The places of a node of this kind. Those of a probe are chosen one by one. -/
def Kind.places (kind : Kind) : List Place := (kind.branches ⟨0⟩).map Branch.place

theorem Kind.map_place_branches (kind : Kind) (owner : NodeId) :
    (kind.branches owner).map Branch.place = kind.places := by
  cases kind <;> rfl

theorem Kind.nodup_places (kind : Kind) : kind.places.Nodup := by
  cases kind <;> decide

namespace Node

def places (node : Node) : List Place := node.branches.map Branch.place

/-! ## Reading branches by place -/

section Reading

variable {node : Node}

/-- Two branches in one place are one branch. -/
theorem eq_of_place_eq (nodup : node.places.Nodup) {branch other : Branch Node}
    (hbranch : branch ∈ node.branches) (hother : other ∈ node.branches)
    (same : branch.place = other.place) : branch = other :=
  List.inj_on_of_nodup_map nodup hbranch hother same

theorem mem_branches_of_list? {role : Role} {list : ChildList Node}
    (h : node.list? role = some list) : .list role list ∈ node.branches := by
  obtain ⟨branch, hbranch, found⟩ := List.exists_of_findSome?_eq_some h
  match branch, found with
  | .list r children, found =>
      by_cases hr : r = role
      · simp only [hr, if_true, Option.some.injEq] at found
        rwa [hr, found] at hbranch
      · simp [hr] at found

theorem list?_eq_some_iff (nodup : node.places.Nodup) {role : Role} {list : ChildList Node} :
    node.list? role = some list ↔ .list role list ∈ node.branches := by
  refine ⟨mem_branches_of_list?, fun h => ?_⟩
  cases found : node.list? role with
  | none =>
      have := List.findSome?_eq_none_iff.mp found _ h
      simp at this
  | some other =>
      have := eq_of_place_eq nodup h (mem_branches_of_list? found) rfl
      simp only [Branch.list.injEq, true_and] at this
      rw [this]

/-- The lists that no facet covers are read by their roles. -/
theorem members_eq (nodup : node.places.Nodup) :
    node.members =
      (node.places.filterMap Place.memberRole?).map fun role => (role, node.itemsIn role) := by
  rw [places, List.filterMap_map, List.map_filterMap, members]
  refine List.filterMap_congr fun branch hbranch => ?_
  match branch with
  | .list role children =>
      have items : node.itemsIn role = children.items := by
        rw [itemsIn, (list?_eq_some_iff nodup).mpr hbranch]
        rfl
      cases role <;> simp [Branch.place, Place.memberRole?, items]
  | .slot _ => rfl
  | .heldAttributes _ => rfl
  | .heldType _ => rfl

theorem attributes?_isSome : node.attributes?.isSome = node.places.any Place.holdsAttributes := by
  rw [attributes?, List.isSome_findSome?, places, List.any_map]
  congr 1
  funext branch
  match branch with
  | .list role _ => cases role <;> rfl
  | .slot _ => rfl
  | .heldAttributes _ => rfl
  | .heldType _ => rfl

theorem type?_isSome : node.type?.isSome = node.places.any Place.holdsType := by
  rw [type?, List.isSome_findSome?, places, List.any_map]
  congr 1
  funext branch
  match branch with
  | .list role _ => cases role <;> rfl
  | .slot _ => rfl
  | .heldAttributes _ => rfl
  | .heldType _ => rfl

/-- The nodes in the first place that is asked for. -/
def itemsAt (node : Node) (asked : Place → Bool) : Option (List Node) :=
  node.branches.findSome? fun branch => if asked branch.place then some branch.items else none

theorem attributes?_eq_itemsAt (node : Node) :
    node.attributes? = node.itemsAt Place.holdsAttributes := by
  unfold attributes? itemsAt
  congr 1
  funext branch
  match branch with
  | .list role children => cases role <;> rfl
  | .slot _ => rfl
  | .heldAttributes _ => rfl
  | .heldType _ => rfl

theorem type?_eq_itemsAt (node : Node) :
    node.type? = (node.itemsAt Place.holdsType).map List.head? := by
  unfold type? itemsAt
  rw [List.map_findSome?]
  congr 1
  funext branch
  match branch with
  | .list role children => cases role <;> rfl
  | .slot child =>
      simp [Branch.place, Place.holdsType, Branch.items]
  | .heldAttributes _ => rfl
  | .heldType item =>
      simp [Branch.place, Place.holdsType, Branch.items]

theorem itemsIn_eq_itemsAt (node : Node) (role : Role) :
    node.itemsIn role = (node.itemsAt fun place => place = .list role).getD [] := by
  unfold itemsIn list? itemsAt
  rw [List.map_findSome?]
  congr 2
  funext branch
  match branch with
  | .list r children =>
      by_cases h : r = role <;> simp [h, Branch.place, Branch.items]
  | .slot _ => rfl
  | .heldAttributes _ => rfl
  | .heldType _ => rfl

end Reading

/-! ## All nodes of a tree -/

/-- All nodes of a tree from the root on, held ones included. -/
def nodes (node : Node) : List Node :=
  node :: node.parts.attach.flatMap fun part => part.1.nodes
termination_by node.height
decreasing_by exact height_lt_of_mem_parts part.2

theorem nodes_eq (node : Node) : node.nodes = node :: node.parts.flatMap nodes := by
  rw [nodes, List.flatMap_subtype (g := nodes) (fun _ _ => rfl), List.unattach_attach]

theorem mem_nodes {node other : Node} :
    other ∈ node.nodes ↔ other = node ∨ ∃ part ∈ node.parts, other ∈ part.nodes := by
  rw [nodes_eq, List.mem_cons, List.mem_flatMap]

theorem self_mem_nodes (node : Node) : node ∈ node.nodes :=
  mem_nodes.mpr (.inl rfl)

theorem mem_nodes_of_mem_parts {node part other : Node} (hpart : part ∈ node.parts)
    (h : other ∈ part.nodes) : other ∈ node.nodes :=
  mem_nodes.mpr (.inr ⟨part, hpart, h⟩)

/-- Induction from the nodes on the branches to the node. -/
theorem induction {P : Node → Prop} (step : ∀ node, (∀ part ∈ node.parts, P part) → P node)
    (node : Node) : P node := by
  induction h : node.height using Nat.strongRecOn generalizing node with
  | _ height ih =>
      refine step node fun part hpart => ih part.height ?_ part rfl
      rw [← h]
      exact height_lt_of_mem_parts hpart

theorem nodes_sublist_nodes {node other : Node} (h : other ∈ node.nodes) :
    other.nodes.Sublist node.nodes := by
  induction node using induction with
  | step node ih =>
      rcases mem_nodes.mp h with rfl | ⟨part, hpart, hother⟩
      · exact .refl _
      · rw [nodes_eq node, List.flatMap_def]
        have below := List.sublist_flatten_of_mem (List.mem_map_of_mem (f := nodes) hpart)
        exact ((ih part hpart hother).trans below).cons node

/-- The identities of all nodes of a tree. -/
def ids (node : Node) : List NodeId := node.nodes.map Node.id

theorem ids_eq (node : Node) : node.ids = node.id :: node.parts.flatMap ids := by
  rw [ids, nodes_eq, List.map_cons, List.map_flatMap]
  rfl

theorem id_mem_ids {node other : Node} (h : other ∈ node.nodes) : other.id ∈ node.ids :=
  List.mem_map_of_mem h

theorem withParent_parent (node : Node) : node.withParent node.parent = node := by
  obtain ⟨header, body, branches⟩ := node
  rfl

@[simp] theorem ids_withParent (node : Node) (parent : Option NodeId) :
    (node.withParent parent).ids = node.ids := by
  rw [ids_eq, ids_eq]
  rfl

/-! ## Well-formed trees -/

/-- The node has the branches of its kind. -/
def Shaped (node : Node) : Prop :=
  match node.kind with
  | .probe => node.places.Sublist [.heldAttributes, .heldType]
  | kind => node.places = kind.places

/-- The nodes on the branches are of the kinds that belong there. -/
def Sorted (node : Node) : Prop :=
  ∀ branch ∈ node.branches, ∀ item ∈ branch.items, ∀ kind ∈ branch.place.kind?, item.kind = kind

/-- Every node of the tree has the branches of its kind, with nodes of the right kinds on them. -/
def WellFormed (node : Node) : Prop :=
  ∀ other ∈ node.nodes, other.Shaped ∧ other.Sorted

/-- A well-formed tree whose root is no probe. -/
def Catalog (node : Node) : Prop := node.kind ≠ .probe ∧ node.WellFormed

theorem shaped_iff_of_ne {node : Node} (h : node.kind ≠ .probe) :
    node.Shaped ↔ node.places = node.kind.places := by
  unfold Shaped
  split
  · contradiction
  · exact Iff.rfl

instance (node : Node) : Decidable node.Shaped :=
  decidable_of_iff
    (if node.kind = .probe then node.places.Sublist [.heldAttributes, .heldType]
      else node.places = node.kind.places) <| by
    split
    next hk => simp only [Shaped, hk]
    next hk => exact (shaped_iff_of_ne hk).symm

instance (node : Node) : Decidable node.Sorted :=
  inferInstanceAs (Decidable (∀ branch ∈ node.branches, ∀ item ∈ branch.items,
    ∀ kind ∈ branch.place.kind?, item.kind = kind))

instance (node : Node) : Decidable node.WellFormed :=
  inferInstanceAs (Decidable (∀ other ∈ node.nodes, other.Shaped ∧ other.Sorted))

instance (node : Node) : Decidable node.Catalog :=
  inferInstanceAs (Decidable (node.kind ≠ .probe ∧ node.WellFormed))

theorem Shaped.nodup_places {node : Node} (h : node.Shaped) : node.places.Nodup := by
  by_cases hk : node.kind = .probe
  · simp only [Shaped, hk] at h
    exact h.nodup (by decide)
  · rw [(shaped_iff_of_ne hk).mp h]
    exact node.kind.nodup_places

namespace WellFormed

variable {node part : Node}

theorem shaped (h : node.WellFormed) : node.Shaped := (h node node.self_mem_nodes).1

theorem sorted (h : node.WellFormed) : node.Sorted := (h node node.self_mem_nodes).2

theorem of_mem_parts (h : node.WellFormed) (hpart : part ∈ node.parts) : part.WellFormed :=
  fun other hother => h other (mem_nodes_of_mem_parts hpart hother)

end WellFormed

theorem wellFormed_iff {node : Node} :
    node.WellFormed ↔ node.Shaped ∧ node.Sorted ∧ ∀ part ∈ node.parts, part.WellFormed := by
  constructor
  · intro h
    exact ⟨h.shaped, h.sorted, fun part hpart => h.of_mem_parts hpart⟩
  · rintro ⟨shaped, sorted, parts⟩ other hother
    rcases mem_nodes.mp hother with rfl | ⟨part, hpart, hother⟩
    · exact ⟨shaped, sorted⟩
    · exact parts part hpart other hother

end Node

/-- The catalog asks for nodes of the catalog. -/
theorem Kind.exists_kind_of_mem_places {kind : Kind} {place : Place} (h : place ∈ kind.places) :
    ∃ k, place.kind? = some k ∧ k ≠ .probe := by
  cases kind <;>
    simp only [places, branches, List.map_cons, List.map_nil, List.mem_cons, List.not_mem_nil,
      or_false, Branch.place] at h
  all_goals
    rcases h with rfl | rfl | rfl | rfl | rfl <;> exact ⟨_, rfl, by decide⟩

/-- The facets that nodes of a kind expose, as far as the kind decides. -/
def Kind.exposes (kind : Kind) : Facet → Bool
  | .namespaced => kind = .typeDecl
  | .accessModifier | .isStatic => kind ∈ [.method, .property, .typeDecl]
  | .attributes => kind.places.any Place.holdsAttributes
  | .returnType => kind.places.any Place.holdsType
  | .memberTraits => kind ∈ [.method, .property]

namespace Node.Catalog

variable {node part : Node}

theorem places_eq (h : node.Catalog) : node.places = node.kind.places :=
  (shaped_iff_of_ne h.1).mp h.2.shaped

theorem of_mem_parts (h : node.Catalog) (hpart : part ∈ node.parts) : part.Catalog := by
  obtain ⟨branch, hbranch, hitem⟩ := List.mem_flatMap.mp hpart
  have place : branch.place ∈ node.kind.places := by
    rw [← h.places_eq]
    exact List.mem_map_of_mem hbranch
  obtain ⟨kind, fixed, ne⟩ := Kind.exists_kind_of_mem_places place
  refine ⟨?_, h.2.of_mem_parts hpart⟩
  rw [h.2.sorted branch hbranch part hitem kind fixed]
  exact ne

theorem of_mem_nodes {other : Node} (h : node.Catalog) (hother : other ∈ node.nodes) :
    other.Catalog := by
  induction node using Node.induction with
  | step node ih =>
      rcases mem_nodes.mp hother with rfl | ⟨part, hpart, hother⟩
      · exact h
      · exact ih part hpart (h.of_mem_parts hpart) hother

theorem exposes_eq (h : node.Catalog) (facet : Facet) :
    node.exposes facet = node.kind.exposes facet := by
  cases facet with
  | attributes =>
      rw [exposes, attributes?_isSome, h.places_eq]
      rfl
  | returnType =>
      rw [exposes, type?_isSome, h.places_eq]
      rfl
  | namespaced | accessModifier | isStatic | memberTraits =>
      obtain ⟨header, body, branches⟩ := node
      have hk : body.kind ≠ .probe := h.1
      clear h
      cases body <;>
        simp_all [exposes, names?, Kind.exposes, kind, Body.kind, Body.access?, Body.isStatic?,
          Body.traits?]

theorem facets_eq (h : node.Catalog) : node.facets = .ofPredicate node.kind.exposes := by
  rw [facets, funext h.exposes_eq]

end Node.Catalog

end DeclTree
