import DeclTree.Proofs.Address
import DeclTree.Proofs.Intent.Equivalence
import DeclTree.Proofs.Running

/-!
# Same intent, place by place

Two nodes of the catalog have the same intent when they are of one kind, agree in what they show
by themselves, and agree in each of their places by the pairing that belongs to the place. What
a facet covers and what counts as content makes no difference to this; it only decides which check
reports a mismatch.
-/

namespace DeclTree

open Matching

/-- How the nodes in a place are compared. -/
def Place.pairing : Place → Pairing
  | .list role => role.pairing
  | .slot | .heldType => .ordered
  | .heldAttributes => .coverage

theorem Place.memberRole?_list {role : Role} (h : role ≠ .attributes) :
    (Place.list role).memberRole? = some role := by
  cases role with
  | attributes => contradiction
  | _ => rfl

namespace Node

/-! ## Facets as places -/

theorem itemsAt_eq {node : Node} {asked : Place → Bool} {place : Place}
    (only : ∀ other ∈ node.places, asked other = decide (other = place)) :
    node.itemsAt asked = if place ∈ node.places then some (node.itemsOf place) else none := by
  have alike : node.itemsAt asked = node.itemsAt fun other => other = place := by
    unfold itemsAt
    rw [← List.head?_filterMap, ← List.head?_filterMap]
    congr 1
    refine List.filterMap_congr fun branch hbranch => ?_
    rw [only branch.place (List.mem_map_of_mem hbranch)]
  rw [alike, itemsOf]
  cases found : node.itemsAt fun other => other = place with
  | none =>
      have absent : place ∉ node.places := by
        intro hplace
        obtain ⟨branch, hbranch, rfl⟩ := List.mem_map.mp hplace
        have := List.findSome?_eq_none_iff.mp found branch hbranch
        simp at this
      rw [if_neg absent]
  | some items =>
      obtain ⟨branch, hbranch, here, -⟩ := exists_branch_of_itemsAt found
      have present : place ∈ node.places := by
        rw [← of_decide_eq_true here]
        exact List.mem_map_of_mem hbranch
      rw [if_pos present, Option.getD_some]

theorem Catalog.attributes?_eq {node : Node} (h : node.Catalog) :
    node.attributes? =
      if .list .attributes ∈ node.kind.places then some (node.itemsOf (.list .attributes))
      else none := by
  have only : ∀ other ∈ node.places,
      other.holdsAttributes = decide (other = .list .attributes) := by
    rw [h.places_eq]
    cases node.kind <;> decide
  rw [attributes?_eq_itemsAt, itemsAt_eq only, h.places_eq]

theorem Catalog.type?_eq {node : Node} (h : node.Catalog) :
    node.type? = if .slot ∈ node.kind.places then some (node.itemsOf .slot).head? else none := by
  have only : ∀ other ∈ node.places, other.holdsType = decide (other = .slot) := by
    rw [h.places_eq]
    cases node.kind <;> decide
  rw [type?_eq_itemsAt, itemsAt_eq only, h.places_eq]
  split <;> rfl

theorem itemsOf_slot (node : Node) : (node.itemsOf .slot).head?.toList = node.itemsOf .slot := by
  unfold itemsOf
  cases found : node.itemsAt fun other => other = .slot with
  | none => rfl
  | some items =>
      obtain ⟨branch, -, here, rfl⟩ := exists_branch_of_itemsAt found
      match branch, of_decide_eq_true here with
      | .slot child, _ => cases h : child.item <;> simp [Branch.items, h]

/-! ## Same intent by places -/

section Same

variable (symbolOf : Header → Option Symbol) (options : CompareOptions)

/-- What nodes of one kind show by themselves, apart from the nodes below them. -/
structure SameData (left right : Node) : Prop where
  name : left.name = right.name
  names : left.names?.map (NameSource.read symbolOf) = right.names?.map (NameSource.read symbolOf)
  access : left.body.access? = right.body.access?
  isStatic : left.body.isStatic? = right.body.isStatic?
  traits : left.body.traits? = right.body.traits?
  annotations : options.annotations = true →
    left.header.annotations.equivalent right.header.annotations = true
  content : left.body.sameContent right.body = true

/-- The nodes in each place agree by the pairing of the place. -/
def SamePlaces (same : Node → Node → Bool) (left right : Node) : Prop :=
  ∀ place, listsSame same place.pairing (left.itemsOf place) (right.itemsOf place) = true

variable {same : Node → Node → Bool} {left right : Node}

theorem listsSame_nil (same : Node → Node → Bool) (pairing : Pairing) :
    listsSame same pairing [] [] = true := by
  cases pairing <;> rfl

/-- Nodes of one kind agree in all places if they do under both facets and in all member lists. -/
theorem samePlaces_iff (hleft : left.Catalog) (hright : right.Catalog)
    (hkind : left.kind = right.kind) :
    SamePlaces same left right ↔
      facetSame symbolOf same left right .attributes = true ∧
      facetSame symbolOf same left right .returnType = true ∧
      ∀ role ∈ left.memberRoles,
        listsSame same role.pairing (left.itemsIn role) (right.itemsIn role) = true := by
  have attributes : facetSame symbolOf same left right .attributes = true ↔
      (.list .attributes ∈ left.kind.places →
        listsSame same .coverage (left.itemsOf (.list .attributes))
          (right.itemsOf (.list .attributes)) = true) := by
    rw [facetSame, hleft.attributes?_eq, hright.attributes?_eq, ← hkind]
    by_cases here : .list .attributes ∈ left.kind.places <;> simp [here, optionAlike]
  have type : facetSame symbolOf same left right .returnType = true ↔
      (.slot ∈ left.kind.places →
        listsSame same .ordered (left.itemsOf .slot) (right.itemsOf .slot) = true) := by
    rw [facetSame, hleft.type?_eq, hright.type?_eq, ← hkind]
    by_cases here : .slot ∈ left.kind.places
    · have items :=
        optionAlike_eq_ordered same (left.itemsOf .slot).head? (right.itemsOf .slot).head?
      rw [itemsOf_slot, itemsOf_slot] at items
      simp only [here, if_true, forall_const, listsSame, ← items]
      rfl
    · simp [here, optionAlike]
  have absent : ∀ {place}, place ∉ left.kind.places →
      listsSame same place.pairing (left.itemsOf place) (right.itemsOf place) = true := by
    intro place hplace
    have hplace' : place ∉ right.kind.places := hkind ▸ hplace
    rw [itemsOf_eq_nil (hleft.places_eq ▸ hplace), itemsOf_eq_nil (hright.places_eq ▸ hplace')]
    exact listsSame_nil same _
  rw [attributes, type, memberRoles, hleft.places_eq]
  simp only [List.mem_filterMap, itemsIn_eq_itemsOf]
  constructor
  · intro places
    refine ⟨fun _ => places (.list .attributes), fun _ => places .slot, ?_⟩
    intro role _
    exact places (.list role)
  · rintro ⟨attributes, type, members⟩ place
    by_cases hplace : place ∈ left.kind.places
    · cases place with
      | list role =>
          by_cases covered : role = .attributes
          · subst covered
            exact attributes hplace
          · exact members role ⟨.list role, hplace, Place.memberRole?_list covered⟩
      | slot => exact type hplace
      | heldAttributes | heldType =>
          obtain ⟨kind, fixed, -⟩ := Kind.exists_kind_of_mem_places hplace
          simp [Place.kind?] at fixed
    · exact absent hplace

/-- Two nodes of the catalog have the same intent if they agree in kind, in their own data and in
every place. -/
theorem Catalog.sameWith_iff (hleft : left.Catalog) (hright : right.Catalog) :
    sameWith symbolOf options left right = true ↔
      left.kind = right.kind ∧ SameData symbolOf options left right ∧
        SamePlaces (sameWith symbolOf options) left right := by
  by_cases hkind : left.kind = right.kind
  · rw [(hleft.above rfl).sameWith_iff symbolOf options (hright.above hkind.symm),
      samePlaces_iff symbolOf hleft hright hkind]
    simp only [tests, Facet.all, List.map_cons, List.map_nil, List.cons_append, List.nil_append,
      List.forall_mem_cons, List.not_mem_nil, false_implies, implies_true, and_true]
    simp only [facetSame, contentSame, beq_iff_eq, Bool.and_eq_true, Bool.or_eq_true,
      Bool.not_eq_true', List.all_eq_true]
    constructor
    · rintro ⟨-, hname, names, access, attributes, isStatic, type, traits, annotations, content,
        members⟩
      refine ⟨hkind, ⟨hname, names, access, isStatic, traits, ?_, content⟩, attributes, type,
        members⟩
      intro on
      exact annotations.resolve_left (by simp [on])
    · rintro ⟨hkind, data, attributes, type, members⟩
      refine ⟨Body.sameType_of_kind_eq hkind hleft.1, data.name, data.names, data.access, attributes,
        data.isStatic, type, data.traits, ?_, data.content, members⟩
      by_cases on : options.annotations = true
      · exact .inr (data.annotations on)
      · exact .inl (by simpa using on)
  · constructor
    · intro same
      exact absurd (kind_eq_of_sameWith symbolOf options same) hkind
    · intro h
      exact absurd h.1 hkind

variable {symbolOf options}

/-- Nodes with one body show the same by themselves if their headers do. -/
theorem SameData.of_body (body : left.body = right.body) (name : left.name = right.name)
    (names : left.kind = .typeDecl → (NameSource.symbolOf left.header).read symbolOf =
      (NameSource.symbolOf right.header).read symbolOf)
    (annotations : options.annotations = true →
      left.header.annotations.equivalent right.header.annotations = true) :
    SameData symbolOf options left right where
  name := name
  names := by
    unfold names?
    rw [← body]
    cases hbody : left.body with
    | typeDecl _ =>
        have kind : left.kind = .typeDecl := by rw [Node.kind, hbody, Body.kind]
        exact congrArg some (names kind)
    | _ => rfl
  access := by rw [body]
  isStatic := by rw [body]
  traits := by rw [body]
  annotations := annotations
  content := by
    rw [body]
    exact (Body.sameContent_equivalenceOn right.body.kind).refl rfl

/-- Nodes that differ at most in their branches show the same by themselves. -/
theorem SameData.of_eq (header : left.header = right.header) (body : left.body = right.body) :
    SameData symbolOf options left right := by
  refine .of_body body (congrArg Header.name header) (fun _ => by rw [header]) fun _ => ?_
  rw [header]
  exact AnnotationStore.equivalent_equivalenceOn.refl trivial

theorem name_eq_of_sameWith (hleft : left.Catalog) (hright : right.Catalog)
    (h : sameWith symbolOf options left right = true) : left.name = right.name :=
  ((hleft.sameWith_iff symbolOf options hright).mp h).2.1.name

/-- Agreement by position is enough for every way of comparing lists. -/
theorem listsSame_of_forall₂ {left right : List Node} (hleft : Within Catalog left)
    (hright : Within Catalog right)
    (h : List.Forall₂ (fun a b => sameWith symbolOf options a b = true) left right)
    (pairing : Pairing) :
    listsSame (sameWith symbolOf options) pairing left right = true := by
  have laws := sameWith_equivalenceOn symbolOf options
  cases pairing with
  | ordered => exact (ordered_iff _ _ _).mpr h
  | unordered => exact unordered_of_forall₂ laws hleft hright h
  | coverage =>
      -- Partners must have one name, which nodes of the same intent do.
      refine coversBoth_of_forall₂ ((EquivalenceOn.kernel name).and laws) hleft hright ?_
      refine forall₂_imp_of_mem (fun a ha b hb same => ?_) h
      simp [name_eq_of_sameWith (hleft a ha) (hright b hb) same, same]

theorem Catalog.within_itemsOf {node : Node} (h : node.Catalog) (place : Place) :
    Within Catalog (node.itemsOf place) :=
  fun _ hitem => h.of_mem_parts (mem_parts_of_mem_itemsOf hitem)

/-- A node with other nodes in one place is judged by that place alone. -/
theorem Catalog.sameWith_withItems_iff {node : Node} {place : Place} {items : List Node}
    (h : node.Catalog) (length : items.length = (node.itemsOf place).length)
    (written : (node.withItems place items).Catalog) :
    sameWith symbolOf options node (node.withItems place items) = true ↔
      listsSame (sameWith symbolOf options) place.pairing (node.itemsOf place) items = true := by
  have nodup := h.2.shaped.nodup_places
  rw [h.sameWith_iff symbolOf options written]
  constructor
  · intro same
    have here := same.2.2 place
    rwa [itemsOf_withItems nodup length, if_pos rfl] at here
  · intro here
    refine ⟨rfl, .of_eq rfl rfl, fun other => ?_⟩
    rw [itemsOf_withItems nodup length]
    by_cases same : other = place
    · rw [if_pos same, same]
      exact here
    · rw [if_neg same]
      exact (listsSame_equivalenceOn (sameWith_equivalenceOn symbolOf options) _).refl
        (h.within_itemsOf other)

end Same

end Node

end DeclTree
