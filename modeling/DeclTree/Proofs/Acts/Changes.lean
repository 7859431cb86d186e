import DeclTree.Node.Edit
import DeclTree.Proofs.Bench
import Mathlib.Data.List.Induction

/-!
# What can happen to a node in place

Lists, slots and nodes change in a few ways only. Each change takes some nodes from its caller, its
`ins`, and hands others back, its `outs`. Every operation on lists, slots and parameters comes to
such a change, and a change at the end of a path rewrites the thing at the start of the path.
-/

namespace DeclTree

open Node

variable {α : Type}

/-! ## Lists and slots -/

inductive ListChange : List Node → List Node → ChildList Node → ChildList Node → Prop where
  /-- Nodes are handed straight back. -/
  | keep (nodes : List Node) (list : ChildList Node) : ListChange nodes nodes list list
  | append {nodes : List Node} {list : ChildList Node}
      (insertable : ∀ node ∈ nodes, node.id ≠ list.owner ∧ node.parent = none) :
      ListChange nodes [] list
        ⟨list.owner, list.items ++ nodes.map (Node.withParent (some list.owner))⟩
  | extract {owner : NodeId} {left right : List Node} (node : Node) :
      ListChange [] [node.withParent none] ⟨owner, left ++ node :: right⟩ ⟨owner, left ++ right⟩
  | rename {owner : NodeId} {left right : List Node} (node : Node) (name : String) :
      ListChange [] [] ⟨owner, left ++ node :: right⟩ ⟨owner, left ++ node.withName name :: right⟩

inductive SlotChange : List Node → List Node → ChildSlot Node → ChildSlot Node → Prop where
  /-- Nodes are handed straight back. -/
  | keep (nodes : List Node) (slot : ChildSlot Node) : SlotChange nodes nodes slot slot
  | fill {slot : ChildSlot Node} {node : Node}
      (insertable : node.id ≠ slot.owner ∧ node.parent = none) :
      SlotChange [node] (slot.item.map (Node.withParent none)).toList slot
        ⟨slot.owner, some (node.withParent (some slot.owner))⟩
  | clear (slot : ChildSlot Node) :
      SlotChange [] (slot.item.map (Node.withParent none)).toList slot ⟨slot.owner, none⟩

theorem checkInsertable_eq_ok_iff {owner : NodeId} {node : Node} :
    checkInsertable owner node = .ok () ↔ node.id ≠ owner ∧ node.parent = none := by
  unfold checkInsertable
  by_cases self : node.id = owner
  · simp [self]
  · cases hparent : node.parent <;> simp [self]

theorem insertable_of_forM {owner : NodeId} {nodes : List Node}
    (h : nodes.forM (checkInsertable owner) = .ok ()) :
    ∀ node ∈ nodes, node.id ≠ owner ∧ node.parent = none := by
  induction nodes with
  | nil => intro node hnode; cases hnode
  | cons first rest ih =>
      obtain ⟨_, check, h⟩ := except_bind_eq_ok.mp h
      intro node hnode
      rcases List.mem_cons.mp hnode with rfl | hnode
      · exact checkInsertable_eq_ok_iff.mp check
      · exact ih h node hnode

namespace ChildList

variable {list list' : ChildList Node} {node : Node}

theorem change_of_addRange {nodes : List Node} (h : list.addRange nodes = .ok list') :
    ListChange nodes [] list list' := by
  obtain ⟨_, check, h⟩ := except_bind_eq_ok.mp h
  cases h
  exact .append (insertable_of_forM check)

/-- A single node is added like a list of one. -/
theorem change_of_add (h : list.add node = .ok list') : ListChange [node] [] list list' := by
  obtain ⟨_, check, h⟩ := except_bind_eq_ok.mp h
  cases h
  refine .append fun other hother => ?_
  rw [List.mem_singleton.mp hother]
  exact checkInsertable_eq_ok_iff.mp check

/-- The node that is found and the ones around it. -/
theorem split_of_find? {id : NodeId} (h : list.find? id = some node) :
    ∃ left right, list.items = left ++ node :: right ∧
      (list.items.eraseP fun node => node.id = id) = left ++ right ∧ node.id = id ∧
      ∀ other ∈ left, other.id ≠ id := by
  obtain ⟨hid, left, right, split, others⟩ := List.find?_eq_some_iff_append.mp h
  have hid : node.id = id := by simpa using hid
  have skipped : ∀ other ∈ left, other.id ≠ id := by
    intro other hother
    simpa using others other hother
  refine ⟨left, right, split, ?_, hid, skipped⟩
  rw [split, List.eraseP_append_right _ (by simpa using skipped),
    List.eraseP_cons_of_pos (by simpa using hid)]

/-- The node that is found is taken out. -/
theorem change_of_find? {id : NodeId} (h : list.find? id = some node) :
    ListChange [] [node.withParent none] list
      { list with items := list.items.eraseP fun node => node.id = id } := by
  obtain ⟨left, right, split, erased, -⟩ := split_of_find? h
  obtain ⟨owner, items⟩ := list
  simp only at split erased ⊢
  rw [erased, split]
  exact .extract node

theorem change_of_remove? {id : NodeId} (h : list.remove? id = some (node, list')) :
    ListChange [] [node] list list' := by
  obtain ⟨found, hfound, result⟩ := Option.map_eq_some_iff.mp h
  obtain ⟨rfl, rfl⟩ := Prod.mk.inj result
  exact change_of_find? hfound

/-- The node that is moved is found in one list, taken out of it and appended to the other. -/
theorem exists_of_moveTo {source target source' target' : ChildList Node} {id : NodeId}
    (h : source.moveTo target id = .ok (source', target')) :
    ∃ moved, source.find? id = some moved ∧ moved.id ≠ target.owner ∧
      ListChange [] [moved.withParent none] source source' ∧
      target' = ⟨target.owner, target.items ++ [moved.withParent (some target.owner)]⟩ := by
  unfold moveTo at h
  cases found : source.find? id with
  | none => simp [found] at h
  | some node =>
      simp only [found] at h
      by_cases self : id = target.owner
      · simp [self] at h
      · simp only [self, if_false, Except.ok.injEq, Prod.mk.injEq] at h
        obtain ⟨rfl, rfl⟩ := h
        obtain ⟨_, _, -, -, hid, -⟩ := split_of_find? found
        exact ⟨node, rfl, fun same => self (hid ▸ same), change_of_find? found, rfl⟩

theorem exists_change_of_moveTo {source target source' target' : ChildList Node} {id : NodeId}
    (h : source.moveTo target id = .ok (source', target')) :
    ∃ moved, ListChange [] [moved] source source' ∧ ListChange [moved] [] target target' := by
  obtain ⟨moved, -, apart, out, rfl⟩ := exists_of_moveTo h
  refine ⟨moved.withParent none, out, ?_⟩
  have free : ∀ node ∈ [moved.withParent none], node.id ≠ target.owner ∧ node.parent = none := by
    intro node hnode
    rw [List.mem_singleton.mp hnode]
    exact ⟨apart, rfl⟩
  exact .append free

theorem change_of_modifyFirst? {id : NodeId} {name : String}
    (h : list.modifyFirst? id (Node.withName name) = some list') :
    ListChange [] [] list list' := by
  have go : ∀ items : List Node, modifyFirst?.go id (Node.withName name) items = items ∨
      ∃ left node right, items = left ++ node :: right ∧
        modifyFirst?.go id (Node.withName name) items = left ++ node.withName name :: right := by
    intro items
    induction items with
    | nil => exact .inl rfl
    | cons first rest ih =>
        unfold modifyFirst?.go
        by_cases hid : first.id = id
        · exact .inr ⟨[], first, rest, rfl, by simp [hid]⟩
        · rw [if_neg hid]
          rcases ih with same | ⟨left, node, right, split, renamed⟩
          · exact .inl (by rw [same])
          · exact .inr ⟨first :: left, node, right, by rw [split]; rfl, by rw [renamed]; rfl⟩
  unfold modifyFirst? at h
  split at h
  · cases h
    obtain ⟨owner, items⟩ := list
    rcases go items with same | ⟨left, node, right, split, renamed⟩
    · simp only [same]
      exact .keep [] _
    · simp only [renamed]
      rw [split]
      exact .rename node name
  · cases h

end ChildList

namespace ChildSlot

variable {slot slot' : ChildSlot Node} {node : Node} {previous : Option Node}

theorem change_of_set (h : slot.set node = .ok (previous, slot')) :
    SlotChange [node] previous.toList slot slot' := by
  obtain ⟨_, check, h⟩ := except_bind_eq_ok.mp h
  cases h
  exact .fill (checkInsertable_eq_ok_iff.mp check)

end ChildSlot

/-! ## Nodes -/

inductive NodeChange : List Node → List Node → Node → Node → Prop where
  /-- Nodes are handed straight back. -/
  | keep (nodes : List Node) (node : Node) : NodeChange nodes nodes node node
  | label (node : Node) (name : String) (annotations : AnnotationStore) :
      NodeChange [] [] node { node with header := { node.header with name, annotations } }
  | inject (node : Node) (resolver : ResolverId) :
      NodeChange [] [] node { node with header := { node.header with resolver := some resolver } }
  | edit (node : Node) (edit : Edit) : NodeChange [] [] node (node.setBody (edit.apply node.body))
  | list {ins outs : List Node} {node : Node} {role : Role} {list list' : ChildList Node}
      (role_ne : role ≠ .parameters) (found : node.list? role = some list)
      (change : ListChange ins outs list list') : NodeChange ins outs node (node.setList role list')
  /-- Parameters are numbered anew, and those that leave go back to zero. -/
  | parameters {ins outs : List Node} {node : Node} {list list' : ChildList Node}
      (found : node.list? .parameters = some list) (kinds : ∀ node ∈ ins, node.kind = .parameter)
      (change : ListChange ins outs list list') :
      NodeChange ins (outs.map (withOrdinal 0)) node (node.setList .parameters (renumber list'))
  | slot {ins outs : List Node} {node : Node} {slot slot' : ChildSlot Node}
      (found : node.slot? = some slot) (change : SlotChange ins outs slot slot') :
      NodeChange ins outs node (node.setSlot slot')

namespace Node

theorem setList_branches (node : Node) (role : Role) (children : ChildList Node) :
    (node.setList role children).branches = node.branches.map fun other =>
      if other.place = .list role then .list role children else other := by
  refine List.map_congr_left fun branch _ => ?_
  cases branch with
  | list r old => by_cases hr : r = role <;> simp [Branch.place, hr]
  | slot _ => simp [Branch.place]
  | heldAttributes _ => simp [Branch.place]
  | heldType _ => simp [Branch.place]

theorem setSlot_branches (node : Node) (child : ChildSlot Node) :
    (node.setSlot child).branches = node.branches.map fun other =>
      if other.place = .slot then .slot child else other := by
  refine List.map_congr_left fun branch _ => ?_
  cases branch <;> simp [Branch.place]

theorem mem_branches_of_slot? {node : Node} {slot : ChildSlot Node} (h : node.slot? = some slot) :
    .slot slot ∈ node.branches := by
  obtain ⟨branch, hbranch, found⟩ := List.exists_of_findSome?_eq_some h
  match branch, found with
  | .slot child, found =>
      obtain rfl := Option.some.inj found
      exact hbranch

/-! ### Reading lists that were replaced -/

section Reading

variable {node : Node}

theorem list?_setList_ne {role other : Role} (list : ChildList Node) (h : other ≠ role) :
    (node.setList role list).list? other = node.list? other := by
  unfold list? setList
  rw [List.findSome?_map]
  congr 1
  funext branch
  cases branch with
  | list r members =>
      by_cases hr : r = role
      · simp [hr, Ne.symm h]
      · simp [hr]
  | _ => rfl

theorem list?_setList {role : Role} {old : ChildList Node} (list : ChildList Node)
    (h : node.list? role = some old) : (node.setList role list).list? role = some list := by
  have all : (node.setList role list).list? role = (node.list? role).map fun _ => list := by
    unfold list? setList
    rw [List.findSome?_map, List.map_findSome?]
    congr 1
    funext branch
    cases branch with
    | list r members => by_cases hr : r = role <;> simp [hr]
    | _ => rfl
  rw [all, h, Option.map_some]

theorem list?_setSlot (slot : ChildSlot Node) (role : Role) :
    (node.setSlot slot).list? role = node.list? role := by
  unfold list? setSlot
  rw [List.findSome?_map]
  congr 1
  funext branch
  cases branch <;> rfl

theorem itemsIn_of_list? {role : Role} {list : ChildList Node} (h : node.list? role = some list) :
    node.itemsIn role = list.items := by
  rw [itemsIn, h]
  rfl

end Reading

/-! ### Ordinals -/

/-- An ordinal is part of the body of a parameter, and nothing else has one. -/
theorem exists_setBody_withOrdinal (ordinal : Nat) (node : Node) :
    ∃ body, node.withOrdinal ordinal = node.setBody body ∧ body.kind = node.body.kind := by
  unfold withOrdinal
  split
  next data hbody => exact ⟨.parameter { data with ordinal }, rfl, by rw [hbody]; rfl⟩
  next => exact ⟨node.body, by cases node; rfl, rfl⟩

theorem withOrdinal_withOrdinal (ordinal other : Nat) (node : Node) :
    (node.withOrdinal other).withOrdinal ordinal = node.withOrdinal ordinal := by
  obtain ⟨header, body, branches⟩ := node
  cases body <;> rfl

theorem withParent_withOrdinal (ordinal : Nat) (parent : Option NodeId) (node : Node) :
    (node.withOrdinal ordinal).withParent parent = (node.withParent parent).withOrdinal ordinal := by
  obtain ⟨header, body, branches⟩ := node
  cases body <;> rfl

theorem kind_withOrdinal (ordinal : Nat) (node : Node) :
    (node.withOrdinal ordinal).kind = node.kind := by
  obtain ⟨body, same, kind⟩ := exists_setBody_withOrdinal ordinal node
  rw [same]
  exact kind

/-- The ordinal with which a node comes last in a list makes no difference. -/
theorem renumber_append_withOrdinal (owner : NodeId) (items : List Node) (node : Node)
    (ordinal : Nat) :
    renumber ⟨owner, items ++ [node.withOrdinal ordinal]⟩ = renumber ⟨owner, items ++ [node]⟩ := by
  simp [renumber, List.mapIdx_append, withOrdinal_withOrdinal]

variable {node node' : Node} {ins : List Node}

/-! ### Operations -/

/-- If the node has no such list, what was to go there is handed back. -/
theorem exists_change_of_editList {role : Role}
    {f : ChildList Node → Except TreeError (ChildList Node)}
    (h : node.editList role f = .ok node')
    (change : ∀ list list', node.list? role = some list → f list = .ok list' →
      NodeChange ins [] node (node.setList role list')) :
    ∃ outs, NodeChange ins outs node node' := by
  unfold editList at h
  cases found : node.list? role with
  | none =>
      rw [found] at h
      cases h
      exact ⟨ins, .keep ins node⟩
  | some list =>
      rw [found] at h
      obtain ⟨list', edited, rfl⟩ := except_map_eq_ok.mp h
      exact ⟨[], change list list' found edited⟩

theorem change_of_setType {type : Node} {previous : Option Node}
    (h : node.setType type = .ok (previous, node')) :
    NodeChange [type] previous.toList node node' := by
  unfold setType at h
  cases found : node.slot? with
  | none =>
      rw [found] at h
      cases h
      exact .keep [type] node
  | some slot =>
      rw [found] at h
      obtain ⟨⟨back, slot'⟩, put, result⟩ := except_map_eq_ok.mp h
      obtain ⟨rfl, rfl⟩ := Prod.mk.inj result
      exact .slot found (ChildSlot.change_of_set put)

theorem exists_change_of_addParameters {parameters : List Node}
    (kinds : ∀ parameter ∈ parameters, parameter.kind = .parameter)
    (h : node.addParameters parameters = .ok node') :
    ∃ outs, NodeChange parameters outs node node' := by
  refine exists_change_of_editList h fun list list' found edited => ?_
  obtain ⟨added, hadded, rfl⟩ := except_map_eq_ok.mp edited
  exact .parameters found kinds (ChildList.change_of_addRange hadded)

/-- A parameter that is moved has no position in between. -/
theorem exists_change_of_moveParameter {target target' : Node} {id : NodeId}
    (kinds : ∀ parameter ∈ node.itemsIn .parameters, parameter.kind = .parameter)
    (h : node.moveParameter target id = .ok (node', target')) :
    ∃ moved, NodeChange [] [moved] node node' ∧ NodeChange [moved] [] target target' := by
  unfold moveParameter at h
  split at h
  next sourceList targetList found found' =>
    obtain ⟨⟨sourceList', targetList'⟩, move, h⟩ := except_bind_eq_ok.mp h
    obtain ⟨rfl, rfl⟩ := Prod.mk.inj (Except.ok.inj h)
    obtain ⟨moved, hmoved, apart, out, rfl⟩ := ChildList.exists_of_moveTo move
    have kind : moved.kind = .parameter := by
      refine kinds moved ?_
      rw [itemsIn, found]
      exact List.mem_of_find?_eq_some hmoved
    have free : ∀ other ∈ [(moved.withParent none).withOrdinal 0],
        other.id ≠ targetList.owner ∧ other.parent = none := by
      intro other hother
      obtain ⟨body, same, -⟩ := exists_setBody_withOrdinal 0 (moved.withParent none)
      rw [List.mem_singleton.mp hother, same]
      exact ⟨apart, rfl⟩
    have fits : ∀ other ∈ [(moved.withParent none).withOrdinal 0], other.kind = .parameter := by
      intro other hother
      rw [List.mem_singleton.mp hother, kind_withOrdinal]
      exact kind
    have into := NodeChange.parameters found' fits (.append free)
    rw [List.map_singleton, withParent_withOrdinal, renumber_append_withOrdinal] at into
    exact ⟨_, .parameters found (fun other hother => by cases hother) out, into⟩
  next => cases h

/-- A node that is reached through lists is exchanged for a new one. -/
inductive Rewrites (old new : Node) : Node → Node → Prop where
  | here : Rewrites old new old new
  | deeper {node member member' : Node} {role : Role} {owner : NodeId} {left right : List Node}
      (found : node.list? role = some ⟨owner, left ++ member :: right⟩)
      (inner : Rewrites old new member member') :
      Rewrites old new node (node.setList role ⟨owner, left ++ member' :: right⟩)

end Node

/-! ## Things -/

/-- Nodes become a thing of their own. -/
inductive Item.Made : List Node → Item → Prop where
  | node (node : Node) : Made [node] (.node node)
  | list (nodes : List Node) (owner : NodeId) (kind : Kind) :
      Made nodes (.list kind ⟨owner, nodes.map (Node.withParent (some owner))⟩)
  | slot (node? : Option Node) (owner : NodeId) (kind : Kind) :
      Made node?.toList (.slot kind ⟨owner, node?.map (Node.withParent (some owner))⟩)
  | store (store : AnnotationStore) : Made [] (.store store)

/-- A node inside a thing is exchanged for a new one. -/
inductive Item.Rewrites (old new : Node) : Item → Item → Prop where
  | root {root root' : Node} (inner : old.Rewrites new root root') :
      Rewrites old new (.node root) (.node root')
  | member {left right : List Node} {member member' : Node} {owner : NodeId} (kind : Kind)
      (inner : old.Rewrites new member member') :
      Rewrites old new (.list kind ⟨owner, left ++ member :: right⟩)
        (.list kind ⟨owner, left ++ member' :: right⟩)
  | occupant {root root' : Node} {owner : NodeId} (kind : Kind)
      (inner : old.Rewrites new root root') :
      Rewrites old new (.slot kind ⟨owner, some root⟩) (.slot kind ⟨owner, some root'⟩)

/-- A thing changes, as a list or slot of its own or at a node inside it. -/
inductive ItemChange (ins outs : List Node) : Item → Item → Prop where
  | node {old new : Node} {item item' : Item} (change : NodeChange ins outs old new)
      (inner : Item.Rewrites old new item item') : ItemChange ins outs item item'
  | list {list list' : ChildList Node} (kind : Kind) (change : ListChange ins outs list list') :
      ItemChange ins outs (.list kind list) (.list kind list')
  | slot {slot slot' : ChildSlot Node} (kind : Kind) (change : SlotChange ins outs slot slot') :
      ItemChange ins outs (.slot kind slot) (.slot kind slot')

section Paths

variable {change : Change Node α} {result : α}

theorem changeIndex_eq_ok {index : Nat} {nodes nodes' : List Node}
    (h : changeIndex change index nodes = .ok (result, nodes')) :
    ∃ old new, nodes[index]? = some old ∧ change old = .ok (result, new) ∧
      nodes' = nodes.set index new := by
  unfold changeIndex at h
  split at h
  next old hold =>
    obtain ⟨⟨_, new⟩, changed, h⟩ := except_bind_eq_ok.mp h
    obtain ⟨rfl, rfl⟩ := Prod.mk.inj (Except.ok.inj h)
    exact ⟨old, new, hold, changed, rfl⟩
  next => cases h

theorem exists_of_changeIndex {index : Nat} {nodes nodes' : List Node}
    (h : changeIndex change index nodes = .ok (result, nodes')) :
    ∃ old new left right, nodes[index]? = some old ∧ nodes'[index]? = some new ∧
      change old = .ok (result, new) ∧ nodes = left ++ old :: right ∧
        nodes' = left ++ new :: right := by
  obtain ⟨_, new, hold, changed, rfl⟩ := changeIndex_eq_ok h
  obtain ⟨bound, rfl⟩ := List.getElem?_eq_some_iff.mp hold
  obtain ⟨left, right, split, -, set⟩ := @List.exists_of_set _ index new nodes bound
  exact ⟨_, new, left, right, hold, List.getElem?_set_self bound, changed, split, set⟩

/-- A way down starts with a list and an index, or it does not fit. -/
theorem Node.members_index_of_changeAt {first second : Segment} {rest : List Segment} {node : Node}
    (h : changeAt change (first :: second :: rest) node ≠ .error .malformed) :
    ∃ role index, first = .members role ∧ second = .index index := by
  cases first <;> cases second <;> simp [changeAt] at h ⊢

theorem Node.exists_of_changeAt {segments : List Segment} {node node' : Node}
    (h : changeAt change segments node = .ok (result, node')) :
    ∃ old new, node.at? segments = some old ∧ node'.at? segments = some new ∧
      change old = .ok (result, new) ∧ old.Rewrites new node node' := by
  -- A list and an index lead one level down, so the path is taken apart two segments at a time.
  induction segments using List.twoStepInduction generalizing node node' with
  | nil => exact ⟨node, node', rfl, rfl, h, .here⟩
  | singleton segment => simp [changeAt] at h
  | cons_cons first second rest ih _ =>
      obtain ⟨role, index, rfl, rfl⟩ := members_index_of_changeAt (by rw [h]; simp)
      rw [changeAt] at h
      split at h
      next list hlist =>
        obtain ⟨⟨_, items⟩, changed, h⟩ := except_bind_eq_ok.mp h
        obtain ⟨rfl, rfl⟩ := Prod.mk.inj (Except.ok.inj h)
        obtain ⟨member, member', left, right, hmember, hmember', changing, split, rfl⟩ :=
          exists_of_changeIndex changed
        obtain ⟨old, new, found, found', changed, inner⟩ := ih changing
        refine ⟨old, new, ?_, ?_, changed, ?_⟩
        · rw [at?, itemsIn_of_list? hlist, hmember]
          exact found
        · rw [at?, itemsIn_of_list? (list?_setList _ hlist), hmember']
          exact found'
        · obtain ⟨owner, items⟩ := list
          simp only at split
          rw [split] at hlist
          exact .deeper hlist inner
      next => cases h

theorem Item.exists_of_changeAt {segments : List Segment} {item item' : Item}
    (h : changeAt change segments item = .ok (result, item')) :
    ∃ old new, item.at? segments = some old ∧ item'.at? segments = some new ∧
      change old = .ok (result, new) ∧ Item.Rewrites old new item item' := by
  unfold changeAt at h
  split at h
  next segments root =>
    obtain ⟨⟨_, root'⟩, changed, h⟩ := except_bind_eq_ok.mp h
    obtain ⟨rfl, rfl⟩ := Prod.mk.inj (Except.ok.inj h)
    obtain ⟨old, new, found, found', changed, inner⟩ := Node.exists_of_changeAt changed
    exact ⟨old, new, found, found', changed, .root inner⟩
  next index rest kind members =>
    obtain ⟨⟨_, items⟩, changed, h⟩ := except_bind_eq_ok.mp h
    obtain ⟨rfl, rfl⟩ := Prod.mk.inj (Except.ok.inj h)
    obtain ⟨member, member', left, right, hmember, hmember', changing, split, rfl⟩ :=
      exists_of_changeIndex changed
    obtain ⟨old, new, found, found', changed, inner⟩ := Node.exists_of_changeAt changing
    refine ⟨old, new, ?_, ?_, changed, ?_⟩
    · simp only [Item.at?, hmember, Option.bind_some, found]
    · simp only [Item.at?, hmember', Option.bind_some, found']
    · obtain ⟨owner, items⟩ := members
      simp only at split
      rw [split]
      exact .member kind inner
  next segments kind place =>
    split at h
    next root hroot =>
      obtain ⟨⟨_, root'⟩, changed, h⟩ := except_bind_eq_ok.mp h
      obtain ⟨rfl, rfl⟩ := Prod.mk.inj (Except.ok.inj h)
      obtain ⟨old, new, found, found', changed, inner⟩ := Node.exists_of_changeAt changed
      refine ⟨old, new, ?_, ?_, changed, ?_⟩
      · simp only [Item.at?, hroot, Option.bind_some, found]
      · simp only [Item.at?, Option.bind_some, found']
      · obtain ⟨owner, item⟩ := place
        simp only at hroot
        rw [hroot]
        exact .occupant kind inner
    next => cases h
  next => cases h

end Paths

end DeclTree
