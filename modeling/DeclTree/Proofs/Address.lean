import DeclTree.Node.Walk
import DeclTree.Proofs.Shape

/-!
# Addresses

An address leads from the root of a tree down to one of its nodes, by the place and the position at
which each node hangs on the one above. In a well-formed tree every node has exactly one address,
so that equal nodes in different positions are told apart, and for a tree of the catalog the
addresses in order give the walk through the tree.

A tree can be changed at an address. It stays in the catalog if what is put there is of the kind
that stood there before.
-/

namespace DeclTree

/-- Where a node hangs on the one above. -/
structure Position where
  place : Place
  index : Nat
deriving DecidableEq, Repr

/-- The way from the root of a tree down to a node. -/
abbrev Address := List Position

theorem Branch.place_map {α β : Type} (f : α → β) (branch : Branch α) :
    (branch.map f).place = branch.place := by
  cases branch <;> rfl

namespace Node

/-! ## Nodes in a place -/

/-- The nodes in a place, in order. -/
def itemsOf (node : Node) (place : Place) : List Node :=
  (node.itemsAt fun other => other = place).getD []

theorem itemsIn_eq_itemsOf (node : Node) (role : Role) :
    node.itemsIn role = node.itemsOf (.list role) :=
  node.itemsIn_eq_itemsAt role

theorem exists_branch_of_itemsAt {node : Node} {asked : Place → Bool} {items : List Node}
    (h : node.itemsAt asked = some items) :
    ∃ branch ∈ node.branches, asked branch.place = true ∧ branch.items = items := by
  obtain ⟨branch, hbranch, found⟩ := List.exists_of_findSome?_eq_some h
  by_cases here : asked branch.place = true
  · rw [if_pos here, Option.some.injEq] at found
    exact ⟨branch, hbranch, here, found⟩
  · simp [here] at found

theorem itemsOf_place {node : Node} (nodup : node.places.Nodup) {branch : Branch Node}
    (h : branch ∈ node.branches) : node.itemsOf branch.place = branch.items := by
  unfold itemsOf
  cases found : node.itemsAt fun other => other = branch.place with
  | none =>
      have := List.findSome?_eq_none_iff.mp found branch h
      simp at this
  | some items =>
      obtain ⟨other, hother, here, hitems⟩ := exists_branch_of_itemsAt found
      have same := eq_of_place_eq nodup hother h (of_decide_eq_true here)
      rw [Option.getD_some, ← hitems, same]

theorem exists_branch_of_mem_itemsOf {node part : Node} {place : Place}
    (h : part ∈ node.itemsOf place) :
    ∃ branch ∈ node.branches, branch.place = place ∧ part ∈ branch.items := by
  unfold itemsOf at h
  cases found : node.itemsAt fun other => other = place with
  | none => simp [found] at h
  | some items =>
      obtain ⟨branch, hbranch, here, hitems⟩ := exists_branch_of_itemsAt found
      rw [found, Option.getD_some, ← hitems] at h
      exact ⟨branch, hbranch, of_decide_eq_true here, h⟩

theorem mem_parts_of_mem_itemsOf {node part : Node} {place : Place}
    (h : part ∈ node.itemsOf place) : part ∈ node.parts := by
  obtain ⟨branch, hbranch, -, hpart⟩ := exists_branch_of_mem_itemsOf h
  exact mem_parts_of_mem_branch hbranch hpart

theorem itemsOf_eq_nil {node : Node} {place : Place} (h : place ∉ node.places) :
    node.itemsOf place = [] := by
  rw [List.eq_nil_iff_forall_not_mem]
  intro part hpart
  obtain ⟨branch, hbranch, rfl, -⟩ := exists_branch_of_mem_itemsOf hpart
  exact h (List.mem_map_of_mem hbranch)

/-- A tree is in the catalog if its root has the places of its kind, and in each of them stand
trees of the catalog, of the kind that belongs there. -/
theorem catalog_iff {node : Node} :
    node.Catalog ↔ node.kind ≠ .probe ∧ node.places = node.kind.places ∧
      ∀ place, ∀ item ∈ node.itemsOf place, place.kind? = some item.kind ∧ item.Catalog := by
  constructor
  · intro h
    refine ⟨h.1, h.places_eq, fun place item hitem => ?_⟩
    obtain ⟨branch, hbranch, rfl, hpart⟩ := exists_branch_of_mem_itemsOf hitem
    have hplace : branch.place ∈ node.kind.places := by
      rw [← h.places_eq]
      exact List.mem_map_of_mem hbranch
    obtain ⟨kind, fixed, -⟩ := Kind.exists_kind_of_mem_places hplace
    rw [h.2.sorted branch hbranch item hpart kind fixed]
    exact ⟨fixed, h.of_mem_parts (mem_parts_of_mem_branch hbranch hpart)⟩
  · rintro ⟨known, places, items⟩
    have shaped : node.Shaped := (shaped_iff_of_ne known).mpr places
    have below : ∀ branch ∈ node.branches, ∀ item ∈ branch.items,
        branch.place.kind? = some item.kind ∧ item.Catalog := by
      intro branch hbranch item hitem
      rw [← itemsOf_place shaped.nodup_places hbranch] at hitem
      exact items branch.place item hitem
    refine ⟨known, wellFormed_iff.mpr ⟨shaped, ?_, ?_⟩⟩
    · intro branch hbranch item hitem kind hkind
      have fixed := (below branch hbranch item hitem).1
      rw [Option.mem_def, fixed] at hkind
      exact Option.some.inj hkind
    · intro part hpart
      obtain ⟨branch, hbranch, hitem⟩ := List.mem_flatMap.mp hpart
      exact (below branch hbranch part hitem).2.2

theorem Catalog.itemsOf_of_attribute {node : Node} (h : node.Catalog)
    (hkind : node.kind = .attribute) (place : Place) : node.itemsOf place = [] := by
  apply itemsOf_eq_nil
  rw [h.places_eq, hkind]
  exact List.not_mem_nil

/-! ## Nodes at an address -/

/-- The node one step down. -/
def child? (node : Node) (step : Position) : Option Node := (node.itemsOf step.place)[step.index]?

/-- The node at an address, if there is one. -/
def occupant? (node : Node) : Address → Option Node
  | [] => some node
  | step :: rest => (node.child? step).bind fun child => child.occupant? rest

/-- All addresses of a tree, each node before the ones below it. -/
def addresses (node : Node) : List Address :=
  node.fold fun _ _ branches =>
    [] :: branches.flatMap fun branch =>
      branch.items.zipIdx.flatMap fun item =>
        item.1.map fun rest => ⟨branch.place, item.2⟩ :: rest

theorem addresses_eq (node : Node) :
    node.addresses = [] :: node.branches.flatMap fun branch =>
      branch.items.zipIdx.flatMap fun item =>
        item.1.addresses.map fun rest => ⟨branch.place, item.2⟩ :: rest := by
  rw [addresses, fold_eq, List.flatMap_map]
  congr 2
  funext branch
  rw [Branch.items_map, Branch.place_map, List.zipIdx_map, List.flatMap_map]
  rfl

@[simp] theorem occupant?_nil (node : Node) : node.occupant? [] = some node := rfl

theorem occupant?_cons {node child : Node} {step : Position} (h : node.child? step = some child)
    (rest : Address) : node.occupant? (step :: rest) = child.occupant? rest := by
  rw [occupant?, h, Option.bind_some]

theorem occupant?_cons_eq_some {node other : Node} {step : Position} {rest : Address} :
    node.occupant? (step :: rest) = some other ↔
      ∃ child, node.child? step = some child ∧ child.occupant? rest = some other := by
  rw [occupant?, Option.bind_eq_some_iff]

theorem mem_itemsOf_of_child? {node child : Node} {step : Position}
    (h : node.child? step = some child) : child ∈ node.itemsOf step.place :=
  List.mem_of_getElem? h

theorem mem_parts_of_child? {node child : Node} {step : Position}
    (h : node.child? step = some child) : child ∈ node.parts :=
  mem_parts_of_mem_itemsOf (mem_itemsOf_of_child? h)

theorem mem_nodes_of_occupant? {node other : Node} {address : Address}
    (h : node.occupant? address = some other) : other ∈ node.nodes := by
  induction address generalizing node with
  | nil =>
      obtain rfl : node = other := Option.some.inj h
      exact node.self_mem_nodes
  | cons step rest ih =>
      obtain ⟨child, hchild, hrest⟩ := occupant?_cons_eq_some.mp h
      exact mem_nodes_of_mem_parts (mem_parts_of_child? hchild) (ih hrest)

theorem occupant?_append (node : Node) (first rest : Address) :
    node.occupant? (first ++ rest) =
      (node.occupant? first).bind fun other => other.occupant? rest := by
  induction first generalizing node with
  | nil => rfl
  | cons step first ih =>
      rw [List.cons_append, occupant?, occupant?, Option.bind_assoc]
      simp only [ih]

theorem child?_of_mem_zipIdx {node child : Node} (nodup : node.places.Nodup)
    {branch : Branch Node} {index : Nat} (hbranch : branch ∈ node.branches)
    (h : (child, index) ∈ branch.items.zipIdx) :
    node.child? ⟨branch.place, index⟩ = some child := by
  rw [child?, itemsOf_place nodup hbranch]
  exact List.mem_zipIdx_iff_getElem?.mp h

/-- The nodes at all addresses are all nodes of the tree, in order. -/
theorem map_occupant?_addresses {node : Node} (h : node.WellFormed) :
    node.addresses.map node.occupant? = node.nodes.map some := by
  induction node using induction with
  | step node ih =>
      have below : ∀ branch ∈ node.branches, ∀ item ∈ branch.items.zipIdx,
          (item.1.addresses.map fun rest => ⟨branch.place, item.2⟩ :: rest).map node.occupant? =
            item.1.nodes.map some := by
        intro branch hbranch item hitem
        have hchild := child?_of_mem_zipIdx h.shaped.nodup_places hbranch hitem
        have hpart := mem_parts_of_child? hchild
        rw [← ih item.1 hpart (h.of_mem_parts hpart), List.map_map]
        exact List.map_congr_left fun rest _ => occupant?_cons hchild rest
      have branches : ∀ branch ∈ node.branches,
          (branch.items.zipIdx.flatMap fun item =>
            item.1.addresses.map fun rest => ⟨branch.place, item.2⟩ :: rest).map node.occupant? =
            branch.items.flatMap fun item => item.nodes.map some := by
        intro branch hbranch
        rw [List.map_flatMap, List.flatMap_congr (below branch hbranch)]
        conv_rhs => rw [← List.zipIdx_map_fst 0 branch.items, List.flatMap_map]
      rw [addresses_eq, List.map_cons, List.map_flatMap, List.flatMap_congr branches, nodes_eq,
        List.map_cons, parts, List.flatMap_assoc, List.map_flatMap]
      simp only [List.map_flatMap, occupant?_nil]

/-- No address is listed twice. -/
theorem nodup_addresses {node : Node} (h : node.WellFormed) : node.addresses.Nodup := by
  induction node using induction with
  | step node ih =>
      rw [addresses_eq, List.nodup_cons]
      constructor
      · simp
      rw [List.nodup_flatMap]
      constructor
      · intro branch hbranch
        rw [List.nodup_flatMap]
        constructor
        · intro item hitem
          have hpart := mem_parts_of_child?
            (child?_of_mem_zipIdx h.shaped.nodup_places hbranch hitem)
          refine (ih item.1 hpart (h.of_mem_parts hpart)).map ?_
          exact List.cons_injective
        · -- Different indices in one place.
          have indices : (branch.items.zipIdx.map Prod.snd).Nodup := by
            rw [List.zipIdx_map_snd]
            exact List.nodup_range'
          refine (List.pairwise_map.mp indices).imp fun {a b} ne => ?_
          intro address ha hb
          obtain ⟨_, -, rfl⟩ := List.mem_map.mp ha
          obtain ⟨_, -, same⟩ := List.mem_map.mp hb
          simp only [List.cons.injEq, Position.mk.injEq, true_and] at same
          exact ne same.1.symm
      · -- Different places.
        have places := List.pairwise_map.mp h.shaped.nodup_places
        refine places.imp fun {a b} ne => ?_
        intro address ha hb
        simp only [List.mem_flatMap, List.mem_map] at ha hb
        obtain ⟨_, -, _, -, rfl⟩ := ha
        obtain ⟨_, -, _, -, same⟩ := hb
        simp only [List.cons.injEq, Position.mk.injEq] at same
        exact ne same.1.1.symm

theorem nil_mem_addresses (node : Node) : [] ∈ node.addresses := by
  rw [addresses_eq]
  exact List.mem_cons_self

theorem cons_mem_addresses_iff {node : Node} (nodup : node.places.Nodup) {step : Position}
    {rest : Address} :
    step :: rest ∈ node.addresses ↔
      ∃ child, node.child? step = some child ∧ rest ∈ child.addresses := by
  simp only [addresses_eq node, List.mem_cons, List.cons_ne_nil, false_or, List.mem_flatMap,
    List.mem_map, List.cons.injEq]
  constructor
  · rintro ⟨branch, hbranch, item, hitem, rest, hrest, rfl, rfl⟩
    exact ⟨item.1, child?_of_mem_zipIdx nodup hbranch hitem, hrest⟩
  · rintro ⟨child, hchild, hrest⟩
    obtain ⟨branch, hbranch, hplace, -⟩ :=
      exists_branch_of_mem_itemsOf (mem_itemsOf_of_child? hchild)
    rw [child?, ← hplace, itemsOf_place nodup hbranch] at hchild
    refine ⟨branch, hbranch, (child, step.index), ?_, rest, hrest, ?_, rfl⟩
    · exact List.mem_zipIdx_iff_getElem?.mpr hchild
    · rw [hplace]

theorem mem_addresses_of_occupant? {node other : Node} (h : node.WellFormed) {address : Address}
    (found : node.occupant? address = some other) : address ∈ node.addresses := by
  induction address generalizing node with
  | nil => exact node.nil_mem_addresses
  | cons step rest ih =>
      obtain ⟨child, hchild, hrest⟩ := occupant?_cons_eq_some.mp found
      have below := ih (h.of_mem_parts (mem_parts_of_child? hchild)) hrest
      exact (cons_mem_addresses_iff h.shaped.nodup_places).mpr ⟨child, hchild, below⟩

/-! ## The walk -/

theorem walk_append (first second : List Node) :
    walk (first ++ second) = walk first ++ walk second := by
  induction first using walk.induct with
  | case1 => simp [walk]
  | case2 node stack ih =>
      rw [List.cons_append, walk, walk, ← List.append_assoc, ih, List.cons_append]

/-- The walk visits the root, then the trees of its children one after the other. -/
theorem descendants_eq (node : Node) :
    node.descendants = node :: node.children.flatMap descendants := by
  have each : ∀ stack : List Node, walk stack = stack.flatMap descendants := by
    intro stack
    induction stack with
    | nil => simp [walk]
    | cons first rest ih =>
        rw [← List.singleton_append, walk_append, ih, List.flatMap_append, List.flatMap_singleton]
        rfl
  rw [descendants, walk, List.append_nil, each]

theorem Catalog.children_eq_parts {node : Node} (h : node.Catalog) :
    node.children = node.parts := by
  refine List.flatMap_congr fun branch hbranch => ?_
  have hplace : branch.place ∈ node.kind.places := by
    rw [← h.places_eq]
    exact List.mem_map_of_mem hbranch
  obtain ⟨kind, fixed, -⟩ := Kind.exists_kind_of_mem_places hplace
  match branch with
  | .list _ _ => rfl
  | .slot _ => rfl
  | .heldAttributes _ => simp [Branch.place, Place.kind?] at fixed
  | .heldType _ => simp [Branch.place, Place.kind?] at fixed

/-- In the catalog nothing is only held, so the walk meets all nodes. -/
theorem Catalog.descendants_eq_nodes {node : Node} (h : node.Catalog) :
    node.descendants = node.nodes := by
  induction node using induction with
  | step node ih =>
      rw [descendants_eq, nodes_eq, h.children_eq_parts]
      congr 1
      exact List.flatMap_congr fun part hpart => ih part hpart (h.of_mem_parts hpart)

/-! ## Writing into a place -/

end Node

/-- The branch with other nodes on it. A slot takes the first of them. -/
def Branch.withItems {α : Type} (items : List α) : Branch α → Branch α
  | .list role children => .list role { children with items }
  | .slot child => .slot { child with item := items.head? }
  | .heldAttributes _ => .heldAttributes items
  | .heldType _ => .heldType items.head?

@[simp] theorem Branch.place_withItems {α : Type} (items : List α) (branch : Branch α) :
    (branch.withItems items).place = branch.place := by
  cases branch <;> rfl

theorem Branch.items_withItems {α : Type} {items : List α} {branch : Branch α}
    (h : items.length = branch.items.length) : (branch.withItems items).items = items := by
  have head : ∀ item : Option α, items.length = item.toList.length →
      items.head?.toList = items := by
    intro item hlength
    match item, items, hlength with
    | none, [], _ => rfl
    | some _, [_], _ => rfl
  match branch with
  | .list _ _ => rfl
  | .slot child => exact head child.item h
  | .heldAttributes _ => rfl
  | .heldType item => exact head item h

namespace Node

/-- The node with other nodes in one of its places. -/
def withItems (node : Node) (place : Place) (items : List Node) : Node :=
  { node with branches := node.branches.map fun branch =>
      if branch.place = place then branch.withItems items else branch }

section WithItems

variable {node : Node} {place : Place} {items : List Node}

@[simp] theorem kind_withItems : (node.withItems place items).kind = node.kind := rfl

@[simp] theorem places_withItems : (node.withItems place items).places = node.places := by
  unfold places withItems
  rw [List.map_map]
  refine List.map_congr_left fun branch _ => ?_
  simp only [Function.comp_apply, apply_ite Branch.place, Branch.place_withItems, ite_self]

theorem itemsOf_withItems (nodup : node.places.Nodup)
    (h : items.length = (node.itemsOf place).length) (other : Place) :
    (node.withItems place items).itemsOf other =
      if other = place then items else node.itemsOf other := by
  by_cases known : other ∈ node.places
  · obtain ⟨branch, hbranch, rfl⟩ := List.mem_map.mp known
    have written : (if branch.place = place then branch.withItems items else branch) ∈
        (node.withItems place items).branches :=
      List.mem_map_of_mem hbranch
    have nodup' : (node.withItems place items).places.Nodup := by rwa [places_withItems]
    have found := itemsOf_place nodup' written
    by_cases here : branch.place = place
    · subst here
      rw [itemsOf_place nodup hbranch] at h
      simpa [Branch.items_withItems h] using found
    · simpa [here, itemsOf_place nodup hbranch] using found
  · have unknown : other ∉ (node.withItems place items).places := by
      rwa [places_withItems]
    rw [itemsOf_eq_nil unknown]
    by_cases here : other = place
    · subst here
      rw [itemsOf_eq_nil known, List.length_nil] at h
      rw [if_pos rfl, List.eq_nil_of_length_eq_zero h]
    · rw [if_neg here, itemsOf_eq_nil known]

theorem Catalog.withItems (h : node.Catalog) (length : items.length = (node.itemsOf place).length)
    (new : ∀ item ∈ items, place.kind? = some item.kind ∧ item.Catalog) :
    (node.withItems place items).Catalog := by
  obtain ⟨known, places, old⟩ := catalog_iff.mp h
  refine catalog_iff.mpr ⟨known, ?_, fun other item hitem => ?_⟩
  · rw [places_withItems, places, kind_withItems]
  · rw [itemsOf_withItems h.2.shaped.nodup_places length] at hitem
    by_cases here : other = place
    · rw [if_pos here] at hitem
      rw [here]
      exact new item hitem
    · rw [if_neg here] at hitem
      exact old other item hitem

end WithItems

/-! ## Writing at an address -/

/-- The node with another one a step down. -/
def setChild (node : Node) (step : Position) (new : Node) : Node :=
  node.withItems step.place ((node.itemsOf step.place).set step.index new)

/-- The tree with another one at an address, if a node stands there. -/
def replaceAt (node : Node) (address : Address) (new : Node) : Node :=
  match address with
  | [] => new
  | step :: rest =>
      match node.child? step with
      | some child => node.setChild step (child.replaceAt rest new)
      | none => node

section Writing

variable {node child new : Node} {step : Position}

theorem itemsOf_setChild (nodup : node.places.Nodup) (place : Place) :
    (node.setChild step new).itemsOf place =
      if place = step.place then (node.itemsOf step.place).set step.index new
      else node.itemsOf place :=
  itemsOf_withItems nodup (by simp) place

theorem child?_setChild (nodup : node.places.Nodup) (h : node.child? step = some child) :
    (node.setChild step new).child? step = some new := by
  have bound : step.index < (node.itemsOf step.place).length :=
    (List.getElem?_eq_some_iff.mp h).1
  rw [child?, itemsOf_setChild nodup, if_pos rfl, List.getElem?_set_self bound]

theorem Catalog.setChild (h : node.Catalog) (hchild : node.child? step = some child)
    (hnew : new.Catalog) (kind : new.kind = child.kind) : (node.setChild step new).Catalog := by
  obtain ⟨-, -, old⟩ := catalog_iff.mp h
  refine h.withItems (by simp) fun item hitem => ?_
  rcases List.mem_or_eq_of_mem_set hitem with hold | rfl
  · exact old step.place item hold
  · rw [kind]
    exact ⟨(old step.place child (mem_itemsOf_of_child? hchild)).1, hnew⟩

theorem replaceAt_cons (h : node.child? step = some child) (rest : Address) (new : Node) :
    node.replaceAt (step :: rest) new = node.setChild step (child.replaceAt rest new) := by
  rw [replaceAt, h]

end Writing

/-- A tree with another one of the same kind at an address: it has the kind it had, it stays in the
catalog, and the new tree stands at the address. -/
theorem Catalog.replaceAt {node old new : Node} (h : node.Catalog) {address : Address}
    (hold : node.occupant? address = some old) (hnew : new.Catalog) (kind : new.kind = old.kind) :
    (node.replaceAt address new).kind = node.kind ∧ (node.replaceAt address new).Catalog ∧
      (node.replaceAt address new).occupant? address = some new := by
  induction address generalizing node with
  | nil =>
      obtain rfl : node = old := Option.some.inj hold
      exact ⟨kind, hnew, rfl⟩
  | cons step rest ih =>
      obtain ⟨child, hchild, hrest⟩ := occupant?_cons_eq_some.mp hold
      obtain ⟨same, catalog, found⟩ := ih (h.of_mem_parts (mem_parts_of_child? hchild)) hrest
      rw [replaceAt_cons hchild]
      refine ⟨rfl, h.setChild hchild catalog same, ?_⟩
      rw [occupant?_cons (child?_setChild h.2.shaped.nodup_places hchild), found]

end Node

end DeclTree
