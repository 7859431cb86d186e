import DeclTree.Proofs.Intent.Laws
import DeclTree.Proofs.Intent.Places
import DeclTree.Proofs.Matching.OneToOne
import Mathlib.Data.Set.Function
import Mathlib.Order.Interval.Set.Defs

/-!
# Same intent means isomorphic trees

A comparison only answers yes or no. Behind every yes there is a correspondence between the nodes
of the two trees: in each place the members are paired off by a map of their positions, and the
maps of all places, at all levels, are glued into one map of addresses. It keeps owners, kinds and
roles, and the positions of what is compared by position.

Attributes are the exception to the pairing by intent. They cover each other, so one attribute may
serve several, but there are equally many on both sides.
-/

namespace DeclTree

open Matching

/-! ## Positions in a list -/

/-- A bijection of positions as a map of numbers. -/
theorem exists_bijOn_of_equiv {m n : Nat} (σ : Fin m ≃ Fin n) :
    ∃ τ : Nat → Nat, Set.BijOn τ (Set.Iio m) (Set.Iio n) ∧ ∀ i : Fin m, τ i = σ i := by
  let τ := Function.extend Fin.val (fun i => (σ i : Nat)) id
  have moved : ∀ i : Fin m, τ i = σ i := Fin.val_injective.extend_apply _ _
  refine ⟨τ, ⟨?_, ?_, ?_⟩, moved⟩
  · intro index bound
    show τ index < n
    rw [moved ⟨index, bound⟩]
    exact (σ ⟨index, bound⟩).isLt
  · intro a ha b hb same
    rw [moved ⟨a, ha⟩, moved ⟨b, hb⟩] at same
    exact congrArg Fin.val (σ.injective (Fin.ext same))
  · intro index bound
    refine ⟨σ.symm ⟨index, bound⟩, (σ.symm ⟨index, bound⟩).isLt, ?_⟩
    rw [moved, σ.apply_symm_apply]

namespace Node

/-- Lists that agree are paired by position, one to one. -/
theorem exists_index_of_listsSame {same : Node → Node → Bool} {pairing : Pairing}
    {left right : List Node} (h : listsSame same pairing left right = true) :
    ∃ τ : Nat → Nat, Set.BijOn τ (Set.Iio left.length) (Set.Iio right.length) ∧
      (pairing = .ordered → ∀ index, τ index = index) ∧
      (pairing ≠ .coverage → ∀ index a b, left[index]? = some a → right[τ index]? = some b →
        same a b = true) := by
  cases pairing with
  | ordered =>
      have pairs := (ordered_iff _ _ _).mp h
      refine ⟨fun index => index, ?_, fun _ _ => rfl, ?_⟩
      · rw [pairs.length_eq]
        exact Set.bijOn_id _
      · intro _ index a b ha hb
        obtain ⟨bound, rfl⟩ := List.getElem?_eq_some_iff.mp ha
        obtain ⟨bound', rfl⟩ := List.getElem?_eq_some_iff.mp hb
        exact pairs.get bound bound'
  | unordered =>
      obtain ⟨σ, passes⟩ := oneToOne_of_unordered h
      obtain ⟨τ, bijective, moved⟩ := exists_bijOn_of_equiv σ
      refine ⟨τ, bijective, by simp, ?_⟩
      intro _ index a b ha hb
      obtain ⟨bound, rfl⟩ := List.getElem?_eq_some_iff.mp ha
      rw [moved ⟨index, bound⟩, List.getElem?_eq_getElem (σ ⟨index, bound⟩).isLt,
        Option.some.injEq] at hb
      rw [← hb]
      exact passes ⟨index, bound⟩
  | coverage =>
      have length : left.length = right.length := by
        simp only [listsSame, coversBoth, Bool.and_eq_true, beq_iff_eq] at h
        exact h.1.1
      refine ⟨fun index => index, ?_, by simp, by simp⟩
      rw [length]
      exact Set.bijOn_id _

/-! ## Correspondences -/

/-- A map from the addresses of one tree to those of another that makes the trees isomorphic. The
owner of a node stands one step up its address. -/
structure Correspondence (same : Node → Node → Prop) (left right : Node)
    (f : Address → Address) : Prop where
  bijective : Set.BijOn f {address | address ∈ left.addresses} {address | address ∈ right.addresses}
  root : f [] = []
  /-- The owner goes to the owner, in the same role. Parameters and type arguments keep their
  positions. -/
  owner : ∀ address step, address ++ [step] ∈ left.addresses →
    ∃ image, f (address ++ [step]) = f address ++ [image] ∧ image.place = step.place ∧
      (step.place ∈ [.list .parameters, .list .typeArgs] → image.index = step.index)
  /-- Nodes go to nodes of their kind, and all but attributes to nodes of the same intent. -/
  pairs : ∀ address node image, left.occupant? address = some node →
    right.occupant? (f address) = some image →
    image.kind = node.kind ∧ (node.kind ≠ .attribute → same node image)

/-- Moves a position within its place. -/
def move (τ : Place → Nat → Nat) (step : Position) : Position :=
  ⟨step.place, τ step.place step.index⟩

/-- Moves the first step of an address, and the rest by a map that belongs to that step. -/
def glue (τ : Place → Nat → Nat) (below : Position → Address → Address) : Address → Address
  | [] => []
  | step :: rest => move τ step :: below step rest

/-- The positions in all places of two nodes are paired one to one. -/
def Moves (τ : Place → Nat → Nat) (left right : Node) : Prop :=
  ∀ place, Set.BijOn (τ place) (Set.Iio (left.itemsOf place).length)
    (Set.Iio (right.itemsOf place).length)

section Glue

variable {τ : Place → Nat → Nat} {left right : Node} (h : Moves τ left right)

theorem index_lt_of_child? {node child : Node} {step : Position}
    (h : node.child? step = some child) : step.index < (node.itemsOf step.place).length :=
  (List.getElem?_eq_some_iff.mp h).1

theorem exists_child? {node : Node} {step : Position}
    (h : step.index < (node.itemsOf step.place).length) : ∃ child, node.child? step = some child :=
  ⟨_, List.getElem?_eq_getElem h⟩

include h

theorem Moves.exists_image {child : Node} {step : Position}
    (hchild : left.child? step = some child) :
    ∃ image, right.child? (move τ step) = some image :=
  exists_child? ((h step.place).mapsTo (index_lt_of_child? hchild))

theorem Moves.injective {a b : Position} {child child' : Node} (ha : left.child? a = some child)
    (hb : left.child? b = some child') (same : move τ a = move τ b) : a = b := by
  obtain ⟨place, i⟩ := a
  obtain ⟨place', j⟩ := b
  simp only [move, Position.mk.injEq] at same
  obtain ⟨rfl, same⟩ := same
  obtain rfl : i = j := (h place).injOn (index_lt_of_child? ha) (index_lt_of_child? hb) same
  rfl

theorem Moves.exists_source {image : Node} {step : Position}
    (himage : right.child? step = some image) :
    ∃ source child, left.child? source = some child ∧ move τ source = step := by
  obtain ⟨index, bound, same⟩ := (h step.place).surjOn (index_lt_of_child? himage)
  obtain ⟨child, hchild⟩ : ∃ child, left.child? ⟨step.place, index⟩ = some child :=
    exists_child? bound
  refine ⟨⟨step.place, index⟩, child, hchild, ?_⟩
  rw [move, same]

variable {same : Node → Node → Prop} {below : Position → Address → Address}
variable (nodup : left.places.Nodup) (nodup' : right.places.Nodup)
variable (children : ∀ step child image, left.child? step = some child →
  right.child? (move τ step) = some image → Correspondence same child image (below step))

include nodup nodup' children

theorem Moves.mapsTo_glue :
    Set.MapsTo (glue τ below) {address | address ∈ left.addresses}
      {address | address ∈ right.addresses} := by
  intro address haddress
  cases address with
  | nil => exact right.nil_mem_addresses
  | cons step rest =>
      obtain ⟨child, hchild, hrest⟩ := (cons_mem_addresses_iff nodup).mp haddress
      obtain ⟨image, himage⟩ := h.exists_image hchild
      have mapped := (children step child image hchild himage).bijective.mapsTo hrest
      exact (cons_mem_addresses_iff nodup').mpr ⟨image, himage, mapped⟩

omit nodup' in
theorem Moves.injOn_glue : Set.InjOn (glue τ below) {address | address ∈ left.addresses} := by
  intro a ha b hb agree
  cases a with
  | nil =>
      cases b with
      | nil => rfl
      | cons _ _ => simp [glue] at agree
  | cons step rest =>
      cases b with
      | nil => simp [glue] at agree
      | cons step' rest' =>
          obtain ⟨child, hchild, hrest⟩ := (cons_mem_addresses_iff nodup).mp ha
          obtain ⟨child', hchild', hrest'⟩ := (cons_mem_addresses_iff nodup).mp hb
          simp only [glue, List.cons.injEq] at agree
          -- The first steps are one step, so the rests lead into one child.
          obtain rfl := h.injective hchild hchild' agree.1
          obtain rfl : child = child' := Option.some.inj (hchild.symm.trans hchild')
          obtain ⟨image, himage⟩ := h.exists_image hchild
          have injective := (children step child image hchild himage).bijective.injOn
          rw [injective hrest hrest' agree.2]

theorem Moves.surjOn_glue :
    Set.SurjOn (glue τ below) {address | address ∈ left.addresses}
      {address | address ∈ right.addresses} := by
  intro address haddress
  cases address with
  | nil => exact ⟨[], left.nil_mem_addresses, rfl⟩
  | cons step rest =>
      obtain ⟨image, himage, hrest⟩ := (cons_mem_addresses_iff nodup').mp haddress
      obtain ⟨source, child, hchild, rfl⟩ := h.exists_source himage
      obtain ⟨rest, hsource, rfl⟩ :=
        (children source child image hchild himage).bijective.surjOn hrest
      exact ⟨source :: rest, (cons_mem_addresses_iff nodup).mpr ⟨child, hchild, hsource⟩, rfl⟩

/-- Correspondences between children that are paired one to one make one between the nodes. -/
theorem Moves.correspondence
    (fixed : ∀ place ∈ [Place.list .parameters, .list .typeArgs], ∀ index, τ place index = index)
    (kind : right.kind = left.kind) (self : left.kind ≠ .attribute → same left right) :
    Correspondence same left right (glue τ below) where
  bijective := ⟨h.mapsTo_glue nodup nodup' children, h.injOn_glue nodup children,
    h.surjOn_glue nodup nodup' children⟩
  root := rfl
  owner := by
    intro address last haddress
    cases address with
    | nil =>
        obtain ⟨child, hchild, -⟩ := (cons_mem_addresses_iff nodup).mp haddress
        obtain ⟨image, himage⟩ := h.exists_image hchild
        refine ⟨move τ last, ?_, rfl, fun hplace => fixed last.place hplace last.index⟩
        simp [glue, (children last child image hchild himage).root]
    | cons step rest =>
        obtain ⟨child, hchild, hrest⟩ := (cons_mem_addresses_iff nodup).mp haddress
        obtain ⟨image, himage⟩ := h.exists_image hchild
        obtain ⟨moved, same, role⟩ :=
          (children step child image hchild himage).owner rest last hrest
        refine ⟨moved, ?_, role⟩
        simp [glue, same]
  pairs := by
    intro address node image hnode himage
    cases address with
    | nil =>
        obtain rfl : left = node := Option.some.inj hnode
        obtain rfl : right = image := Option.some.inj himage
        exact ⟨kind, self⟩
    | cons step rest =>
        obtain ⟨child, hchild, hrest⟩ := occupant?_cons_eq_some.mp hnode
        obtain ⟨child', hchild', hrest'⟩ := occupant?_cons_eq_some.mp himage
        exact (children step child child' hchild hchild').pairs rest node image hrest hrest'

end Glue

theorem exists_occupant?_of_mem_addresses {node : Node} (h : node.WellFormed) {address : Address}
    (haddress : address ∈ node.addresses) : ∃ other, node.occupant? address = some other := by
  have listed : node.occupant? address ∈ node.addresses.map node.occupant? :=
    List.mem_map_of_mem haddress
  rw [map_occupant?_addresses h] at listed
  obtain ⟨other, -, found⟩ := List.mem_map.mp listed
  exact ⟨other, found.symm⟩

/-- Corresponding trees have equally many nodes of every kind. -/
theorem Correspondence.perm_kinds {same : Node → Node → Prop} {left right : Node}
    {f : Address → Address} (hleft : left.WellFormed) (hright : right.WellFormed)
    (h : Correspondence same left right f) :
    (left.nodes.map kind).Perm (right.nodes.map kind) := by
  have addresses : (left.addresses.map f).Perm right.addresses := by
    have nodup : (left.addresses.map f).Nodup :=
      (nodup_addresses hleft).map_on fun a ha b hb agree => h.bijective.injOn ha hb agree
    rw [List.perm_ext_iff_of_nodup nodup (nodup_addresses hright)]
    intro address
    rw [List.mem_map]
    constructor
    · rintro ⟨source, hsource, rfl⟩
      exact h.bijective.mapsTo hsource
    · intro haddress
      exact h.bijective.surjOn haddress
  have kinds : ∀ {node : Node}, node.WellFormed →
      (node.addresses.map fun address => (node.occupant? address).map kind) =
        (node.nodes.map kind).map some := by
    intro node hnode
    have := congrArg (List.map (Option.map kind)) (map_occupant?_addresses hnode)
    simpa [List.map_map, Function.comp_def] using this
  have images : (left.addresses.map fun address => (left.occupant? address).map kind) =
      (left.addresses.map f).map fun address => (right.occupant? address).map kind := by
    rw [List.map_map]
    refine List.map_congr_left fun address haddress => ?_
    obtain ⟨node, hnode⟩ := exists_occupant?_of_mem_addresses hleft haddress
    obtain ⟨image, himage⟩ :=
      exists_occupant?_of_mem_addresses hright (h.bijective.mapsTo haddress)
    simp [hnode, himage, (h.pairs address node image hnode himage).1]
  rw [← List.map_perm_map_iff (Option.some_injective Kind), ← kinds hleft, ← kinds hright, images]
  exact addresses.map _

/-! ## From verdicts to correspondences -/

section Verdicts

variable {symbolOf : Header → Option Symbol} {options : CompareOptions} {left right : Node}

/-- What the pairing in a place guarantees. Attributes are only known to be of one kind. -/
def Paired (symbolOf : Header → Option Symbol) (options : CompareOptions) (left right : Node) :
    Prop :=
  left.kind = right.kind ∧
    (left.kind ≠ .attribute → sameWith symbolOf options left right = true)

theorem Paired.listsSame (hleft : left.Catalog) (hright : right.Catalog)
    (h : Paired symbolOf options left right) (place : Place) :
    Node.listsSame (sameWith symbolOf options) place.pairing (left.itemsOf place)
      (right.itemsOf place) = true := by
  by_cases isAttribute : left.kind = .attribute
  · have isAttribute' : right.kind = .attribute := h.1 ▸ isAttribute
    rw [hleft.itemsOf_of_attribute isAttribute, hright.itemsOf_of_attribute isAttribute']
    exact listsSame_nil _ _
  · exact ((hleft.sameWith_iff symbolOf options hright).mp (h.2 isAttribute)).2.2 place

/-- The members in a place are paired one to one. -/
theorem Paired.exists_index (hleft : left.Catalog) (hright : right.Catalog)
    (h : Paired symbolOf options left right) (place : Place) :
    ∃ τ : Nat → Nat,
      Set.BijOn τ (Set.Iio (left.itemsOf place).length) (Set.Iio (right.itemsOf place).length) ∧
      (place.pairing = .ordered → ∀ index, τ index = index) ∧
      ∀ index child image, left.child? ⟨place, index⟩ = some child →
        right.child? ⟨place, τ index⟩ = some image → Paired symbolOf options child image := by
  obtain ⟨τ, bijective, fixed, pairs⟩ := exists_index_of_listsSame (h.listsSame hleft hright place)
  refine ⟨τ, bijective, fixed, fun index child image hchild himage => ?_⟩
  obtain ⟨kind, -⟩ := (catalog_iff.mp hleft).2.2 place child (mem_itemsOf_of_child? hchild)
  obtain ⟨kind', -⟩ := (catalog_iff.mp hright).2.2 place image (mem_itemsOf_of_child? himage)
  refine ⟨Option.some.inj (kind.symm.trans kind'), fun other => ?_⟩
  refine pairs (fun covered => ?_) index child image hchild himage
  -- Only attributes are compared by coverage.
  match place, covered, kind with
  | .list .attributes, _, kind => exact other (Option.some.inj kind).symm
  | .heldAttributes, _, kind => simp [Place.kind?] at kind

theorem Paired.exists_correspondence (hleft : left.Catalog) (hright : right.Catalog)
    (h : Paired symbolOf options left right) :
    ∃ f, Correspondence (fun node image => sameWith symbolOf options node image = true)
      left right f := by
  induction left using induction generalizing right with
  | step left ih =>
      choose τ bijective fixed pairs using h.exists_index hleft hright
      have below : ∀ step, ∃ g : Address → Address, ∀ child image,
          left.child? step = some child → right.child? (move τ step) = some image →
          Correspondence (fun node image => sameWith symbolOf options node image = true)
            child image g := by
        intro step
        cases hchild : left.child? step with
        | none => exact ⟨fun address => address, by simp⟩
        | some child =>
            obtain ⟨image, himage⟩ := Moves.exists_image bijective hchild
            have hpart := mem_parts_of_child? hchild
            obtain ⟨g, hg⟩ := ih child hpart (hleft.of_mem_parts hpart)
              (hright.of_mem_parts (mem_parts_of_child? himage))
              (pairs step.place step.index child image hchild himage)
            refine ⟨g, fun child' image' hchild' himage' => ?_⟩
            obtain rfl : child = child' := Option.some.inj hchild'
            obtain rfl : image = image' := Option.some.inj (himage.symm.trans himage')
            exact hg
      choose below hbelow using below
      refine ⟨glue τ below, Moves.correspondence bijective hleft.2.shaped.nodup_places
        hright.2.shaped.nodup_places hbelow ?_ h.1.symm h.2⟩
      intro place hplace
      apply fixed place
      simp only [List.mem_cons, List.not_mem_nil, or_false] at hplace
      rcases hplace with rfl | rfl <;> rfl

theorem Correspondence.imp {same same' : Node → Node → Prop} {f : Address → Address}
    (h : Correspondence same left right f)
    (weaker : ∀ node ∈ left.nodes, ∀ image ∈ right.nodes, same node image → same' node image) :
    Correspondence same' left right f where
  bijective := h.bijective
  root := h.root
  owner := h.owner
  pairs address node image hnode himage := by
    obtain ⟨kind, pair⟩ := h.pairs address node image hnode himage
    refine ⟨kind, fun other => ?_⟩
    exact weaker node (mem_nodes_of_occupant? hnode) image (mem_nodes_of_occupant? himage)
      (pair other)

end Verdicts

/-! ## Lazy comparisons -/

/-- Trees of the same intent are isomorphic. Their nodes are told apart by addresses, which list
them in the order of the walk, and some map of addresses takes the one tree to the other. So there
are equally many nodes of every kind on both sides. -/
theorem sameIntent_implies_isomorphic {left right : Node} (hleft : left.Catalog)
    (hright : right.Catalog) (identified : Identified (left.declsWith right))
    {symbolOf : Header → Option Symbol} (options : CompareOptions)
    (s : Steady symbolOf options left right)
    (same : (left.sameIntent options right s).1 = true) :
    (∀ tree ∈ [left, right], tree.addresses.Nodup ∧
      tree.addresses.map tree.occupant? = tree.descendants.map some) ∧
    (∃ f, Correspondence (fun node image => sameWith symbolOf options node image = true ∧
      ∀ s' : Steady symbolOf options node image, (node.sameIntent options image s').1 = true)
      left right f) ∧
    ∀ kind, (left.descendants.map Node.kind).count kind =
      (right.descendants.map Node.kind).count kind := by
  rw [sameIntent_of_steady identified] at same
  have paired : Paired symbolOf options left right :=
    ⟨kind_eq_of_sameWith symbolOf options same, fun _ => same⟩
  obtain ⟨f, h⟩ := paired.exists_correspondence hleft hright
  refine ⟨fun tree htree => ?_, ⟨f, h.imp ?_⟩, fun kind => ?_⟩
  · have catalog : tree.Catalog := by
      simp only [List.mem_cons, List.not_mem_nil, or_false] at htree
      rcases htree with rfl | rfl <;> assumption
    rw [catalog.descendants_eq_nodes]
    exact ⟨nodup_addresses catalog.2, map_occupant?_addresses catalog.2⟩
  · intro node hnode image himage pair
    refine ⟨pair, fun s' => ?_⟩
    rw [sameIntent_of_steady (identified.mono (declsWith_subset hnode himage))]
    exact pair
  · rw [hleft.descendants_eq_nodes, hright.descendants_eq_nodes]
    exact (h.perm_kinds hleft.2 hright.2).count_eq kind

/-- A sample class with attributes, which are numbered from ten above its own number. -/
def sampleMarked (number : Nat) (attributes methods : List String) : Node :=
  (sampleClass number methods).setList .attributes
    ⟨⟨number⟩, attributes.mapIdx fun index name =>
      ofHeader
        { id := ⟨number + 10 + index⟩, name, handle := .synthetic "attribute",
          parent := some ⟨number⟩ }
        (.attribute [])⟩

/-- Methods stand in another order, and the attributes cover each other without being the same. -/
theorem sameIntent_implies_isomorphic_of_covered_attributes :
    ((sampleMarked 1 ["A", "A", "B"] ["f", "g"]).sameIntent {}
        (sampleMarked 21 ["A", "B", "B"] ["g", "f"]) sampleResolution).1 = true ∧
      ∃ f, Correspondence (fun node image => sameWith sampleSymbol {} node image = true ∧
          ∀ s' : Steady sampleSymbol {} node image, (node.sameIntent {} image s').1 = true)
        (sampleMarked 1 ["A", "A", "B"] ["f", "g"]) (sampleMarked 21 ["A", "B", "B"] ["g", "f"])
        f := by
  have same : ((sampleMarked 1 ["A", "A", "B"] ["f", "g"]).sameIntent {}
      (sampleMarked 21 ["A", "B", "B"] ["g", "f"]) sampleResolution).1 = true := by
    decide +kernel
  obtain ⟨-, isomorphic, -⟩ := sameIntent_implies_isomorphic (by decide +kernel)
    (by decide +kernel) (by decide +kernel) {}
    (⟨sampleResolution, fun _ _ => rfl, by decide +kernel⟩ : Steady sampleSymbol _ _ _) same
  exact ⟨same, isomorphic⟩

end Node

end DeclTree
