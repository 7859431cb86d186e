import DeclTree.Node.Copy
import DeclTree.Proofs.Running
import DeclTree.Proofs.Shape

/-!
# Copies, level by level

A copy that succeeds is opened one level at a time: the header is renewed, the body is duplicated,
and every branch is refilled with copies of what was on it, for the new owner. From this follow
the identities of a copy, which are the next ones of the supply in the order of the tree.
-/

namespace DeclTree

/-! ## Identities given out -/

/-- The supply gives out these identities, one after the other, and is left as `s'`. -/
structure Supply.Issues (s : Supply) (ids : List NodeId) (s' : Supply) : Prop where
  numbers : ids.map NodeId.number = List.range' s.nextNode ids.length
  nextNode : s'.nextNode = s.nextNode + ids.length

namespace Supply.Issues

variable {s s₁ s' : Supply} {ids ids' : List NodeId}

theorem nil (s : Supply) : s.Issues [] s := ⟨rfl, rfl⟩

theorem next (h : s'.nextNode = s.nextNode + 1) : s.Issues [⟨s.nextNode⟩] s' := ⟨rfl, h⟩

theorem append (h : s.Issues ids s₁) (h' : s₁.Issues ids' s') : s.Issues (ids ++ ids') s' := by
  constructor
  · rw [List.map_append, h.numbers, h'.numbers, h.nextNode, List.length_append,
      List.range'_append_1]
  · rw [h'.nextNode, h.nextNode, List.length_append, Nat.add_assoc]

theorem nodup (h : s.Issues ids s') : ids.Nodup := by
  have numbers : (ids.map NodeId.number).Nodup := by
    rw [h.numbers]
    exact List.nodup_range'
  exact numbers.of_map

theorem bounds (h : s.Issues ids s') {id : NodeId} (hid : id ∈ ids) :
    s.nextNode ≤ id.number ∧ id.number < s'.nextNode := by
  have hnumber : id.number ∈ List.range' s.nextNode ids.length := by
    rw [← h.numbers]
    exact List.mem_map_of_mem hid
  rw [h.nextNode]
  exact List.mem_range'_1.mp hnumber

end Supply.Issues

/-! ## Headers -/

/-- The entries under new identities. -/
def AnnotationStore.renewed (store : AnnotationStore) (s : Supply) : AnnotationStore :=
  ⟨store.entries.mapIdx fun index entry => { entry with id := ⟨s.nextAnnotation + index⟩ }⟩

theorem AnnotationStore.copyEntries_eq (store : AnnotationStore) (s : Supply) :
    store.copyEntries s =
      ((store.renewed s).entries,
        { s with nextAnnotation := s.nextAnnotation + store.entries.length }) := by
  obtain ⟨entries⟩ := store
  unfold copyEntries renewed
  induction entries generalizing s with
  | nil => rfl
  | cons entry entries ih =>
      have rest := ih { s with nextAnnotation := s.nextAnnotation + 1 }
      rw [List.mapM_cons]
      change ((⟨⟨s.nextAnnotation⟩, entry.key, entry.value⟩ ::
          (entries.mapM Annotation.copy { s with nextAnnotation := s.nextAnnotation + 1 }).1,
        (entries.mapM Annotation.copy { s with nextAnnotation := s.nextAnnotation + 1 }).2) :
          List Annotation × Supply) = _
      rw [rest]
      simp [List.mapIdx_cons, Nat.add_assoc, Nat.add_comm 1]

namespace Header

/-- The header of a copy made with this supply. -/
def renewed (header : Header) (s : Supply) : Header :=
  { header with
    id := ⟨s.nextNode⟩, parent := none, annotations := header.annotations.renewed s }

theorem copy_eq (header : Header) (s : Supply) :
    header.copy s =
      (header.renewed s,
        { nextNode := s.nextNode + 1,
          nextAnnotation := s.nextAnnotation + header.annotations.entries.length }) := by
  have entries := header.annotations.copyEntries_eq { s with nextNode := s.nextNode + 1 }
  change (({ header with
      id := ⟨s.nextNode⟩, parent := none,
      annotations := ⟨(header.annotations.copyEntries { s with nextNode := s.nextNode + 1 }).1⟩ },
    (header.annotations.copyEntries { s with nextNode := s.nextNode + 1 }).2) :
      Header × Supply) = _
  rw [entries]
  rfl

theorem nextNode_copy (header : Header) (s : Supply) :
    (header.copy s).2.nextNode = s.nextNode + 1 := by
  rw [copy_eq]

end Header

/-! ## Branches -/

/-- What becomes of a node that is put in a place: it gets the owner of the place, if there is
one. -/
def Place.adopt (owner : NodeId) : Place → Node → Node
  | .list _ | .slot => Node.withParent (some owner)
  | .heldAttributes | .heldType => id

theorem Place.exists_adopt_eq (place : Place) (owner : NodeId) (node : Node) :
    ∃ parent, place.adopt owner node = node.withParent parent := by
  cases place with
  | list role => exact ⟨some owner, rfl⟩
  | slot => exact ⟨some owner, rfl⟩
  | heldAttributes => exact ⟨node.parent, node.withParent_parent.symm⟩
  | heldType => exact ⟨node.parent, node.withParent_parent.symm⟩

theorem toList_head? {nodes : List Node} (h : nodes.length ≤ 1) : nodes.head?.toList = nodes := by
  match nodes with
  | [] => rfl
  | [_] => rfl
  | _ :: _ :: _ => simp at h

namespace Branch

/-- The same branch for a new owner, with other nodes on it. -/
def refill {α : Type} (owner : NodeId) (nodes : List Node) : Branch α → Branch Node
  | .list role _ => .list role ⟨owner, nodes.map (Node.withParent (some owner))⟩
  | .slot _ => .slot ⟨owner, nodes.head?.map (Node.withParent (some owner))⟩
  | .heldAttributes _ => .heldAttributes nodes
  | .heldType _ => .heldType nodes.head?

@[simp] theorem place_refill {α : Type} (owner : NodeId) (nodes : List Node) (branch : Branch α) :
    (branch.refill owner nodes).place = branch.place := by
  cases branch <;> rfl

/-- Nothing is lost by refilling, as long as there are no more nodes than before. -/
theorem items_refill {α : Type} {owner : NodeId} {nodes : List Node} {branch : Branch α}
    (h : nodes.length ≤ branch.items.length) :
    (branch.refill owner nodes).items = nodes.map (branch.place.adopt owner) := by
  have single : ∀ {item : Option α}, nodes.length ≤ item.toList.length →
      nodes.head?.toList = nodes := by
    intro item hitem
    have most : item.toList.length ≤ 1 := by cases item <;> simp
    exact toList_head? (Nat.le_trans hitem most)
  cases branch with
  | list role children => rfl
  | slot child => simp [refill, items, place, Place.adopt, Option.toList_map, single h]
  | heldAttributes _ => simp [refill, items, place, Place.adopt]
  | heldType item => simp [refill, items, place, Place.adopt, single h]

end Branch

section Gather

variable {owner : NodeId} {s s' : Supply}

theorem ChildList.returns_copyFor {list copied : ChildList Node}
    (h : Returns (list.copyFor owner) s copied s') :
    ∃ copies, Threads Node.copy list.items s copies s' ∧
      copied = ⟨owner, copies.map (Node.withParent (some owner))⟩ := by
  obtain ⟨adopted, s₁, mapped, last⟩ := returns_bind.mp h
  obtain ⟨rfl, rfl⟩ := returns_pure.mp last
  rw [List.mapM_map, returns_mapM] at mapped
  obtain ⟨copies, threads, rfl⟩ := Threads.map_iff.mp mapped
  exact ⟨copies, threads, rfl⟩

theorem ChildSlot.returns_copyFor {slot copied : ChildSlot Node}
    (h : Returns (slot.copyFor owner) s copied s') :
    ∃ copies, Threads Node.copy slot.item.toList s copies s' ∧
      copied = ⟨owner, copies.head?.map (Node.withParent (some owner))⟩ := by
  obtain ⟨_, _ | node⟩ := slot
  · obtain ⟨rfl, rfl⟩ := returns_pure.mp h
    exact ⟨[], .nil _, rfl⟩
  · obtain ⟨copy, s₁, first, last⟩ := returns_bind.mp h
    obtain ⟨rfl, rfl⟩ := returns_pure.mp last
    exact ⟨[copy], .cons first (.nil _), rfl⟩

/-- A branch that is copied is refilled with copies of its nodes, made one after the other. -/
theorem Branch.refill_of_gather {branch copied : Branch Node}
    (h : Returns (gather owner (branch.map Node.copy)) s copied s') :
    ∃ copies, Threads Node.copy branch.items s copies s' ∧ copied = branch.refill owner copies := by
  match branch with
  | .list role children =>
      obtain ⟨list', gathered, rfl⟩ := returns_map.mp h
      obtain ⟨copies, threads, rfl⟩ := ChildList.returns_copyFor gathered
      exact ⟨copies, threads, rfl⟩
  | .slot child =>
      obtain ⟨slot', gathered, rfl⟩ := returns_map.mp h
      obtain ⟨copies, threads, rfl⟩ := ChildSlot.returns_copyFor gathered
      exact ⟨copies, threads, rfl⟩
  | .heldAttributes items =>
      obtain ⟨copies, mapped, rfl⟩ := returns_map.mp h
      rw [List.mapM_map, returns_mapM] at mapped
      exact ⟨copies, mapped, rfl⟩
  | .heldType none =>
      obtain ⟨rfl, rfl⟩ := returns_pure.mp h
      exact ⟨[], .nil _, rfl⟩
  | .heldType (some node) =>
      obtain ⟨copy, first, rfl⟩ := returns_map.mp h
      exact ⟨[copy], .cons first (.nil _), rfl⟩

end Gather

/-! ## Nodes -/

/-- Only a payload can differ from its duplicate. -/
theorem Body.duplicate_cases {body copied : Body} (h : body.duplicate = .ok copied) :
    copied = body ∨ ∃ payload payload', payload.duplicate? = some payload' ∧
      body = .extension payload ∧ copied = .extension payload' := by
  unfold duplicate at h
  split at h
  next payload =>
    split at h
    next payload' duplicated =>
      cases h
      exact .inr ⟨payload, payload', duplicated, rfl, rfl⟩
    next => cases h
  next =>
    cases h
    exact .inl rfl

theorem Body.kind_of_duplicate {body copied : Body} (h : body.duplicate = .ok copied) :
    copied.kind = body.kind := by
  rcases duplicate_cases h with rfl | ⟨_, _, -, rfl, rfl⟩ <;> rfl

namespace Node

variable {node copied : Node} {s s' : Supply}

/-- One level of a copy. -/
theorem copy_returns (h : Returns node.copy s copied s') :
    node.body.duplicate = .ok copied.body ∧ copied.header = node.header.renewed s ∧
      Threads (fun branch => Branch.gather ⟨s.nextNode⟩ (branch.map copy)) node.branches
        (node.header.copy s).2 copied.branches s' := by
  rw [copy, fold_eq] at h
  split at h
  next reason _ => exact absurd h not_returns_throw
  next body duplicated =>
    obtain ⟨header, s₁, renewed, h⟩ := returns_bind.mp h
    obtain ⟨branches, s₂, gathered, last⟩ := returns_bind.mp h
    obtain ⟨rfl, rfl⟩ := returns_pure.mp last
    rw [returns_lift, Header.copy_eq] at renewed
    obtain ⟨rfl, rfl⟩ := Prod.mk.inj renewed
    rw [List.mapM_map, returns_mapM] at gathered
    refine ⟨duplicated, rfl, ?_⟩
    rw [Header.copy_eq]
    exact gathered

/-- Branches are copied part by part, and what does not depend on owners is as on the copies. -/
theorem parts_of_threads {owner : NodeId} {branches branches' : List (Branch Node)}
    (h : Threads (fun branch => Branch.gather owner (branch.map copy)) branches s branches' s') :
    ∃ copies, Threads copy (branches.flatMap Branch.items) s copies s' ∧
      ∀ {γ : Type} (f : Node → List γ), (∀ node parent, f (node.withParent parent) = f node) →
        (branches'.flatMap Branch.items).flatMap f = copies.flatMap f := by
  induction h with
  | nil => exact ⟨[], .nil _, fun _ _ => rfl⟩
  | cons first _ ih =>
      obtain ⟨copies, threads, rfl⟩ := Branch.refill_of_gather first
      obtain ⟨copies', threads', same⟩ := ih
      refine ⟨copies ++ copies', threads.append threads', fun f hf => ?_⟩
      have adopted : ∀ place node, f (Place.adopt owner place node) = f node := by
        intro place node
        obtain ⟨parent, h⟩ := place.exists_adopt_eq owner node
        rw [h, hf]
      simp only [List.flatMap_cons, List.flatMap_append, same f hf,
        Branch.items_refill (Nat.le_of_eq threads.length_eq), List.flatMap_map, adopted]

/-- The identities of copies made one after the other, if those of each single copy are known. -/
theorem issues_of_threads {parts copies : List Node}
    (each : ∀ part ∈ parts, ∀ {s c s'}, Returns part.copy s c s' → s.Issues c.ids s')
    (h : Threads copy parts s copies s') : s.Issues (copies.flatMap ids) s' := by
  induction h with
  | nil => exact .nil _
  | cons first _ ih =>
      have now := each _ List.mem_cons_self first
      have later := ih fun part hpart => each part (List.mem_cons_of_mem _ hpart)
      rw [List.flatMap_cons]
      exact now.append later

/-- The identities of a copy are the next ones of the supply, in the order of the tree. -/
theorem issues_of_copy (h : Returns node.copy s copied s') : s.Issues copied.ids s' := by
  induction node using Node.induction generalizing copied s s' with
  | step node ih =>
      obtain ⟨-, header, threads⟩ := copy_returns h
      obtain ⟨copies, threads, same⟩ := parts_of_threads threads
      have below := issues_of_threads (fun part hpart {_ _ _} => ih part hpart) threads
      have root : copied.id = ⟨s.nextNode⟩ := by rw [Node.id, header]; rfl
      have parts : copied.parts.flatMap ids = copies.flatMap ids := same ids ids_withParent
      rw [ids_eq, root, parts]
      exact (Supply.Issues.next (node.header.nextNode_copy s)).append below

/-- One branch repeats another: it stands in the same place, with nodes on it that are related by
`R` one by one. -/
def BranchRepeats (R : Node → Node → Prop) (branch copied : Branch Node) : Prop :=
  copied.place = branch.place ∧ List.Forall₂ R branch.items copied.items

/-- One node repeats another: it shows the same, apart from identities and the owner, and has nodes
related by `R` in the same places. -/
structure Repeats (R : Node → Node → Prop) (node copied : Node) : Prop where
  body : node.body.duplicate = .ok copied.body
  name : copied.header.name = node.header.name
  handle : copied.header.handle = node.header.handle
  resolver : copied.header.resolver = node.header.resolver
  annotations : List.Forall₂ (fun a b : Annotation => b.key = a.key ∧ b.value = a.value)
    node.header.annotations.entries copied.header.annotations.entries
  branches : List.Forall₂ (BranchRepeats R) node.branches copied.branches

namespace Repeats

variable {R S : Node → Node → Prop} {node copied : Node}

theorem kind_eq (h : Repeats R node copied) : copied.kind = node.kind :=
  Body.kind_of_duplicate h.body

theorem places_eq (h : Repeats R node copied) : copied.places = node.places :=
  (map_eq_map_of_forall₂ (h.branches.imp fun _ _ repeated => repeated.1.symm)).symm

theorem parts (h : Repeats R node copied) : List.Forall₂ R node.parts copied.parts :=
  List.rel_flatMap h.branches fun _ _ repeated => repeated.2

/-- What stands in the first place that is asked for. -/
theorem itemsAt (h : Repeats R node copied) (asked : Place → Bool) :
    List.Forall₂ R ((node.itemsAt asked).getD []) ((copied.itemsAt asked).getD []) := by
  have found : ∀ {branches branches' : List (Branch Node)},
      List.Forall₂ (BranchRepeats R) branches branches' →
      Option.Rel (List.Forall₂ R)
        (branches.findSome? fun branch => if asked branch.place then some branch.items else none)
        (branches'.findSome? fun branch =>
          if asked branch.place then some branch.items else none) := by
    intro branches branches' repeated
    induction repeated with
    | nil => exact .none
    | @cons branch branch' _ _ first _ ih =>
        obtain ⟨place, items⟩ := first
        by_cases here : asked branch.place = true
        · simpa [place, here] using Option.Rel.some items
        · simpa [place, here] using ih
  have items : Option.Rel (List.Forall₂ R) (node.itemsAt asked) (copied.itemsAt asked) :=
    found h.branches
  generalize node.itemsAt asked = left at items ⊢
  generalize copied.itemsAt asked = right at items ⊢
  cases items with
  | none => exact .nil
  | some items => exact items

/-- Relations between the nodes below can be exchanged. -/
theorem imp (h : Repeats R node copied)
    (sub : ∀ part ∈ node.parts, ∀ made ∈ copied.parts, R part made → S part made) :
    Repeats S node copied := by
  refine { h with branches := ?_ }
  refine forall₂_imp_of_mem (fun branch hbranch branch' hbranch' repeated => ?_) h.branches
  refine ⟨repeated.1, forall₂_imp_of_mem (fun part hpart made hmade related => ?_) repeated.2⟩
  exact sub part (mem_parts_of_mem_branch hbranch hpart) made
    (mem_parts_of_mem_branch hbranch' hmade) related

theorem wellFormed (h : Repeats R node copied)
    (kinds : ∀ part made, R part made → made.kind = part.kind)
    (hnode : node.WellFormed) (below : ∀ made ∈ copied.parts, made.WellFormed) :
    copied.WellFormed := by
  rw [wellFormed_iff]
  refine ⟨?_, ?_, below⟩
  · have shaped := hnode.shaped
    rw [Shaped, h.kind_eq, h.places_eq]
    exact shaped
  · intro branch' hbranch' made hmade kind hkind
    obtain ⟨branch, hbranch, repeated⟩ := exists_of_forall₂ h.branches hbranch'
    obtain ⟨part, hpart, related⟩ := exists_of_forall₂ repeated.2 hmade
    rw [kinds part made related]
    exact hnode.sorted branch hbranch part hpart kind (repeated.1 ▸ hkind)

end Repeats

/-- A copy, whatever owner it was given afterwards. -/
def CopyOf (node copied : Node) : Prop :=
  ∃ s made s' parent, Returns node.copy s made s' ∧ copied = made.withParent parent

theorem CopyOf.of_returns (h : Returns node.copy s copied s') : CopyOf node copied :=
  ⟨s, copied, s', copied.parent, h, copied.withParent_parent.symm⟩

theorem CopyOf.repeats (h : CopyOf node copied) : Repeats CopyOf node copied := by
  obtain ⟨s, made, s', parent, h, rfl⟩ := h
  obtain ⟨body, header, threads⟩ := copy_returns h
  have branches : (made.withParent parent).branches = made.branches := rfl
  refine ⟨body, ?_, ?_, ?_, ?_, ?_⟩
  · have name := congrArg Header.name header
    exact name
  · have handle := congrArg Header.handle header
    exact handle
  · have resolver := congrArg Header.resolver header
    exact resolver
  · have entries : (made.withParent parent).header.annotations.entries =
        (node.header.annotations.renewed s).entries :=
      congrArg (fun header => header.annotations.entries) header
    rw [entries, AnnotationStore.renewed, List.forall₂_iff_get]
    refine ⟨by simp, fun i h h' => ?_⟩
    simp
  · rw [branches]
    refine threads.forall₂.imp fun branch branch' => ?_
    rintro ⟨s, s', gathered⟩
    obtain ⟨copies, threads, rfl⟩ := Branch.refill_of_gather gathered
    refine ⟨Branch.place_refill _ _ _, ?_⟩
    rw [Branch.items_refill (Nat.le_of_eq threads.length_eq), List.forall₂_map_right_iff]
    refine threads.forall₂.imp fun part made => ?_
    rintro ⟨s, s', returned⟩
    obtain ⟨parent, adopted⟩ := branch.place.exists_adopt_eq ⟨_⟩ made
    exact ⟨s, made, s', parent, returned, adopted⟩

/-- Node by node, the tree of a copy consists of copies. -/
theorem CopyOf.nodes (h : CopyOf node copied) :
    List.Forall₂ CopyOf node.nodes copied.nodes := by
  induction node using Node.induction generalizing copied with
  | step node ih =>
      rw [nodes_eq, nodes_eq]
      refine .cons h ?_
      have below : List.Forall₂ (fun part made => List.Forall₂ CopyOf part.nodes made.nodes)
          node.parts copied.parts :=
        forall₂_imp_of_mem (fun part hpart made _ => ih part hpart) h.repeats.parts
      exact List.rel_flatMap below fun _ _ all => all

end Node

/-! ## Identities taken by copies that are refused -/

/-- The supply of node identities does not go back. -/
def Supply.Forward (s s' : Supply) : Prop := s.nextNode ≤ s'.nextNode

instance : Std.Refl Supply.Forward := ⟨fun s => Nat.le_refl s.nextNode⟩

instance : IsTrans Supply Supply.Forward := ⟨fun _ _ _ => Nat.le_trans⟩

theorem ChildList.copyFor_moves {owner : NodeId} {list : ChildList Node}
    (h : ∀ item ∈ list.items, Moves Supply.Forward item.copy) :
    Moves Supply.Forward (list.copyFor owner) := by
  refine moves_bind ?_ fun _ => moves_pure _
  rw [List.mapM_map]
  exact moves_mapM fun item hitem => moves_map _ (h item hitem)

theorem ChildSlot.copyFor_moves {owner : NodeId} {slot : ChildSlot Node}
    (h : ∀ item ∈ slot.item, Moves Supply.Forward item.copy) :
    Moves Supply.Forward (slot.copyFor owner) := by
  obtain ⟨_, _ | node⟩ := slot
  · exact moves_pure _
  · exact moves_bind (h node rfl) fun _ => moves_pure _

theorem Branch.gather_moves {owner : NodeId} {branch : Branch Node}
    (h : ∀ item ∈ branch.items, Moves Supply.Forward item.copy) :
    Moves Supply.Forward (gather owner (branch.map Node.copy)) := by
  match branch with
  | .list role children => exact moves_map _ (ChildList.copyFor_moves h)
  | .slot child =>
      refine moves_map _ (ChildSlot.copyFor_moves fun item hitem => h item ?_)
      simpa [items] using hitem
  | .heldAttributes items =>
      refine moves_map _ ?_
      rw [List.mapM_map]
      exact moves_mapM h
  | .heldType none => exact moves_pure _
  | .heldType (some node) => exact moves_map _ (h node (by simp [items]))

theorem Node.copy_moves (node : Node) : Moves Supply.Forward node.copy := by
  induction node using Node.induction with
  | step node ih =>
      rw [copy, fold_eq]
      split
      · exact moves_throw _
      · refine moves_bind ?_ fun header => moves_bind ?_ fun branches => moves_pure _
        · intro s
          have taken : (outcome (liftM node.header.copy : AllocM Header) s).2 =
              (node.header.copy s).2 := rfl
          rw [taken, Supply.Forward, Header.nextNode_copy]
          omega
        · rw [List.mapM_map]
          refine moves_mapM fun branch hbranch => Branch.gather_moves fun item hitem => ?_
          exact ih item (List.mem_flatMap.mpr ⟨branch, hbranch, hitem⟩)

end DeclTree
