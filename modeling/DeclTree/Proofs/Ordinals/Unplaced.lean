import DeclTree.Proofs.Acts.Building
import DeclTree.Proofs.Ordinals.Numbered

/-!
# Where positions can occur

A position is for the parameters of a method. A tree is unplaced if its root has none and the nodes
below have one only in lists of parameters. New nodes are unplaced, what goes into other lists stays
so and what leaves a list of parameters becomes so. Only a copy can take a position along, so acts
that copy nothing keep all trees unplaced, and every plan builds an unplaced tree.
-/

namespace DeclTree

namespace Node

variable {node node' : Node} {ins outs : List Node}

/-- Nothing on the branches of the node has a position, except in the list of parameters. -/
def PlacesParameters (node : Node) : Prop :=
  ∀ branch ∈ node.branches, branch.place ≠ .list .parameters →
    ∀ part ∈ branch.items, part.body.ordinal = 0

/-- No node of the tree has a position, except in lists of parameters. -/
structure Unplaced (tree : Node) : Prop where
  root : tree.body.ordinal = 0
  below : tree.All PlacesParameters

theorem ordinal_body_congr (h : node'.ordinal? = node.ordinal?) :
    node'.body.ordinal = node.body.ordinal := by
  have read : ∀ node : Node, node.body.ordinal = node.ordinal?.getD 0 := by
    intro node
    unfold ordinal? Body.ordinal
    cases node.body <;> rfl
  rw [read, read, h]

theorem ordinal_body_withOrdinal (node : Node) : (node.withOrdinal 0).body.ordinal = 0 := by
  obtain ⟨header, body, branches⟩ := node
  cases body <;> rfl

/-! ## Single nodes -/

theorem PlacesParameters.setList (h : node.PlacesParameters) {role : Role} {list : ChildList Node}
    (items : role ≠ .parameters → ∀ item ∈ list.items, item.body.ordinal = 0) :
    (node.setList role list).PlacesParameters := by
  intro branch hbranch elsewhere part hpart
  rw [setList_branches] at hbranch
  obtain ⟨old, hold, rfl⟩ := List.mem_map.mp hbranch
  by_cases place : old.place = .list role
  · rw [if_pos place] at elsewhere hpart
    exact items (fun same => elsewhere (congrArg Place.list same)) part hpart
  · rw [if_neg place] at elsewhere hpart
    exact h old hold elsewhere part hpart

theorem PlacesParameters.setSlot (h : node.PlacesParameters) {slot : ChildSlot Node}
    (items : ∀ item ∈ slot.item.toList, item.body.ordinal = 0) :
    (node.setSlot slot).PlacesParameters := by
  intro branch hbranch elsewhere part hpart
  rw [setSlot_branches] at hbranch
  obtain ⟨old, hold, rfl⟩ := List.mem_map.mp hbranch
  by_cases place : old.place = .slot
  · rw [if_pos place] at hpart
    exact items part hpart
  · rw [if_neg place] at elsewhere hpart
    exact h old hold elsewhere part hpart

theorem PlacesParameters.of_list? (h : node.PlacesParameters) {role : Role} {list : ChildList Node}
    (elsewhere : role ≠ .parameters) (found : node.list? role = some list) :
    ∀ item ∈ list.items, item.body.ordinal = 0 := by
  refine h _ (mem_branches_of_list? found) fun same => elsewhere ?_
  exact Place.list.inj same

theorem keptByMembers_placesParameters : KeptByMembers PlacesParameters := by
  intro node member member' role owner left right found same h
  refine h.setList fun elsewhere item hitem => ?_
  have before := h.of_list? elsewhere found
  simp only [List.mem_append, List.mem_cons] at hitem before
  rcases hitem with hitem | rfl | hitem
  · exact before item (.inl hitem)
  · rw [ordinal_body_congr same]
    exact before member (.inr (.inl rfl))
  · exact before item (.inr (.inr hitem))

/-- A copy takes over the ordinals as they are. -/
theorem PlacesParameters.copy (h : node.PlacesParameters) (copied : CopyOf node node') :
    node'.PlacesParameters := by
  intro branch' hbranch' elsewhere part' hpart'
  obtain ⟨branch, hbranch, place, items⟩ := exists_of_forall₂ copied.repeats.branches hbranch'
  obtain ⟨part, hpart, copied⟩ := exists_of_forall₂ items hpart'
  rw [ordinal_body_congr copied.repeats.ordinal?]
  rw [place] at elsewhere
  exact h branch hbranch elsewhere part hpart

theorem All.copy (h : node.All PlacesParameters) (copied : CopyOf node node') :
    node'.All PlacesParameters := by
  intro made hmade
  obtain ⟨other, hother, copied⟩ := exists_of_forall₂ copied.nodes hmade
  exact (h other hother).copy copied

/-! ## Unplaced trees -/

/-- Body and branches decide. -/
theorem Unplaced.congr (h : node.Unplaced) (body : node'.body = node.body)
    (branches : node'.branches = node.branches) : node'.Unplaced := by
  refine ⟨by rw [body]; exact h.root, h.below.root branches fun places => ?_⟩
  unfold PlacesParameters
  rw [branches]
  exact places

theorem Unplaced.withParent (h : node.Unplaced) (parent : Option NodeId) :
    (node.withParent parent).Unplaced :=
  h.congr rfl rfl

theorem Unplaced.setBody (h : node.Unplaced) {body : Body} (unplaced : body.ordinal = 0) :
    (node.setBody body).Unplaced :=
  ⟨unplaced, h.below.root rfl fun places => places⟩

/-- Below its root the tree is in order, so the position of the root is all that has to go. -/
theorem unplaced_withOrdinal (h : node.All PlacesParameters) : (node.withOrdinal 0).Unplaced := by
  refine ⟨node.ordinal_body_withOrdinal, ?_⟩
  obtain ⟨body, same, -⟩ := exists_setBody_withOrdinal 0 node
  rw [same]
  exact h.root rfl fun places => places

theorem unplaced_ofHeader (header : Header) {body : Body} (unplaced : body.ordinal = 0) :
    (ofHeader header body).Unplaced := by
  refine ⟨unplaced, all_iff.mpr ⟨fun branch hbranch _ part hpart => ?_, fun part hpart => ?_⟩⟩
  · have there := mem_parts_of_mem_branch hbranch hpart
    rw [parts_ofHeader] at there
    cases there
  · rw [parts_ofHeader] at hpart
    cases hpart

theorem unplaced_of_create {body : Body} {name : String} {world world' : World}
    (unplaced : body.ordinal = 0)
    (made : World.allocating (create body name) world = (node, world')) : node.Unplaced := by
  cases made
  exact unplaced_ofHeader _ unplaced

theorem unplaced_of_bind {body : Body} {handle : Handle} {resolver : ResolverId}
    {world world' : World} (unplaced : body.ordinal = 0)
    (made : Node.bind body handle resolver world = (node, world')) : node.Unplaced := by
  obtain ⟨name, body', same, rfl, -⟩ := exists_of_bind made
  exact unplaced_ofHeader _ (same.trans unplaced)

theorem unplaced_holding {attributes : Option (List Node)} {type : Option (Option Node)}
    (h : node.Unplaced) (held : ∀ tree ∈ attributes.getD [], tree.Unplaced)
    (typed : ∀ tree ∈ type.join.toList, tree.Unplaced) :
    (node.holding attributes type).Unplaced := by
  have parts : ∀ part ∈ (node.holding attributes type).parts, part.Unplaced := by
    rw [parts_holding]
    exact List.forall_mem_append.mpr ⟨held, typed⟩
  refine ⟨h.root, all_iff.mpr ⟨fun branch hbranch _ part hpart => ?_, fun part hpart => ?_⟩⟩
  · exact (parts part (mem_parts_of_mem_branch hbranch hpart)).root
  · exact (parts part hpart).below

/-- Parameters go into the list with or without a position, and are numbered there. -/
theorem All.setParameters {list list' : ChildList Node} (h : node.All PlacesParameters)
    (found : node.list? .parameters = some list) (change : ListChange ins outs list list')
    (given : ∀ tree ∈ ins, tree.All PlacesParameters) :
    (∀ tree ∈ outs, tree.All PlacesParameters) ∧
      (node.setList .parameters (renumber list')).All PlacesParameters := by
  have members := fun item hitem => (all_iff.mp h).2 item (mem_parts_of_list? found hitem)
  have after : ∀ tree ∈ outs ++ list'.items, tree.All PlacesParameters :=
    change.forall_mem (fun _ _ all => all.root rfl fun places => places)
      (fun _ _ all => all.root rfl fun places => places)
      (List.forall_mem_append.mpr ⟨given, members⟩)
  obtain ⟨back, items⟩ := List.forall_mem_append.mp after
  refine ⟨back, h.setList (fun places => places.setList fun role => absurd rfl role) ?_⟩
  intro item hitem
  obtain ⟨i, hi, rfl⟩ := List.mem_mapIdx.mp hitem
  obtain ⟨body, same, -⟩ := exists_setBody_withOrdinal i list'.items[i]
  rw [same]
  exact (items _ (List.getElem_mem hi)).root rfl fun places => places

end Node

open Node

/-! ## Changes -/

variable {ins outs : List Node}

theorem ListChange.unplaced {list list' : ChildList Node} (h : ListChange ins outs list list')
    (before : ∀ tree ∈ ins ++ list.items, tree.Unplaced) :
    ∀ tree ∈ outs ++ list'.items, tree.Unplaced :=
  h.forall_mem (fun _ _ unplaced => unplaced.congr rfl rfl)
    (fun _ _ unplaced => unplaced.congr rfl rfl) before

theorem SlotChange.unplaced {slot slot' : ChildSlot Node} (h : SlotChange ins outs slot slot')
    (before : ∀ tree ∈ ins ++ slot.item.toList, tree.Unplaced) :
    ∀ tree ∈ outs ++ slot'.item.toList, tree.Unplaced := by
  obtain ⟨given, occupant⟩ := List.forall_mem_append.mp before
  have taken : ∀ tree ∈ (slot.item.map (Node.withParent none)).toList, tree.Unplaced := by
    intro tree htree
    obtain ⟨node, hnode, rfl⟩ := Option.map_eq_some_iff.mp (Option.mem_toList.mp htree)
    exact (occupant node (Option.mem_toList.mpr hnode)).withParent none
  cases h with
  | keep => exact before
  | fill insertable =>
      refine List.forall_mem_append.mpr ⟨taken, List.forall_mem_singleton.mpr ?_⟩
      exact (given _ (List.mem_singleton.mpr rfl)).withParent _
  | clear =>
      rw [Option.toList_none, List.append_nil]
      exact taken

/-- A node that changes may itself have a position: only what is below it has to be in order. -/
theorem NodeChange.unplaced {node node' : Node} (h : NodeChange ins outs node node')
    (given : ∀ tree ∈ ins, tree.Unplaced) (below : node.All PlacesParameters) :
    (∀ tree ∈ outs, tree.Unplaced) ∧ node'.All PlacesParameters := by
  have nothing : ∀ tree ∈ ([] : List Node), tree.Unplaced := by simp
  cases h with
  | keep => exact ⟨given, below⟩
  | label | inject | edit => exact ⟨nothing, below.root rfl fun places => places⟩
  | list role_ne found change =>
      have members : ∀ item ∈ _, Unplaced item := fun item hitem =>
        ⟨(all_iff.mp below).1.of_list? role_ne found item hitem,
          (all_iff.mp below).2 item (mem_parts_of_list? found hitem)⟩
      have after := change.unplaced (List.forall_mem_append.mpr ⟨given, members⟩)
      obtain ⟨back, items⟩ := List.forall_mem_append.mp after
      refine ⟨back, below.setList (fun places => ?_) fun item hitem => (items item hitem).below⟩
      exact places.setList fun _ item hitem => (items item hitem).root
  | parameters found kinds change =>
      obtain ⟨back, changed⟩ :=
        below.setParameters found change fun tree htree => (given tree htree).below
      refine ⟨fun tree htree => ?_, changed⟩
      obtain ⟨old, hold, rfl⟩ := List.mem_map.mp htree
      exact unplaced_withOrdinal (back old hold)
  | slot found change =>
      have hbranch := mem_branches_of_slot? found
      have occupant : ∀ item ∈ _, Unplaced item := fun item hitem =>
        ⟨(all_iff.mp below).1 _ hbranch (fun same => by cases same) item hitem,
          (all_iff.mp below).2 item (mem_parts_of_mem_branch hbranch hitem)⟩
      have after := change.unplaced (List.forall_mem_append.mpr ⟨given, occupant⟩)
      obtain ⟨back, items⟩ := List.forall_mem_append.mp after
      obtain ⟨own, parts⟩ := all_iff.mp below
      refine ⟨back, all_iff.mpr ⟨own.setSlot fun item hitem => (items item hitem).root, ?_⟩⟩
      intro part hpart
      cases mem_parts_setSlot hpart with
      | inl new => exact (items part new).below
      | inr old => exact parts part old

/-! ## Things -/

/-- Two trees with one root, as far as identity, owner and position go. -/
structure Node.SameStanding (node node' : Node) : Prop where
  id : node'.id = node.id
  parent : node'.parent = node.parent
  ordinal : node'.ordinal? = node.ordinal?

theorem Node.SameStanding.refl (node : Node) : node.SameStanding node := ⟨rfl, rfl, rfl⟩

theorem Node.SameStanding.trans {first second third : Node} (h : first.SameStanding second)
    (h' : second.SameStanding third) : first.SameStanding third :=
  ⟨h'.id.trans h.id, h'.parent.trans h.parent, h'.ordinal.trans h.ordinal⟩

theorem NodeChange.standing {node node' : Node} (h : NodeChange ins outs node node') :
    node.SameStanding node' := by
  refine ⟨?_, ?_, h.ordinal?⟩
  · cases h <;> rfl
  · cases h <;> rfl

theorem Node.Rewrites.standing {old new node node' : Node} (h : old.Rewrites new node node')
    (same : old.SameStanding new) : node.SameStanding node' := by
  cases h with
  | here => exact same
  | deeper => exact ⟨rfl, rfl, rfl⟩

/-- However deep a node is exchanged, each tree of the thing keeps its standing. -/
theorem Item.Rewrites.exists_standing {old new : Node} {item item' : Item}
    (h : Item.Rewrites old new item item') (same : old.SameStanding new) :
    ∀ tree' ∈ item'.trees, ∃ tree ∈ item.trees, tree.SameStanding tree' := by
  cases h with
  | root inner => simpa [Item.trees] using inner.standing same
  | @member left right member member' owner kind inner =>
      intro tree' htree'
      simp only [Item.trees, List.mem_append, List.mem_cons] at htree' ⊢
      rcases htree' with htree' | rfl | htree'
      · exact ⟨tree', .inl htree', .refl tree'⟩
      · exact ⟨member, .inr (.inl rfl), inner.standing same⟩
      · exact ⟨tree', .inr (.inr htree'), .refl tree'⟩
  | occupant kind inner => simpa [Item.trees] using inner.standing same

theorem ItemChange.unplaced {item item' : Item} (h : ItemChange ins outs item item')
    (given : ∀ tree ∈ ins, tree.Unplaced) (before : ∀ tree ∈ item.trees, tree.Unplaced) :
    (∀ tree ∈ outs, tree.Unplaced) ∧ ∀ tree ∈ item'.trees, tree.Unplaced := by
  cases h with
  | @node old _ _ _ change inner =>
      obtain ⟨tree, htree, hold⟩ := inner.exists_tree
      have within : old.All PlacesParameters := fun other hother =>
        (before tree htree).below other ((nodes_sublist_nodes hold).subset hother)
      obtain ⟨back, changed⟩ := change.unplaced given within
      refine ⟨back, fun tree' htree' => ⟨?_, ?_⟩⟩
      · obtain ⟨tree, htree, standing⟩ := inner.exists_standing change.standing tree' htree'
        rw [ordinal_body_congr standing.ordinal]
        exact (before tree htree).root
      · exact inner.all keptByMembers_placesParameters change.ordinal? changed
          (fun tree htree => (before tree htree).below) tree' htree'
  | list kind change =>
      exact List.forall_mem_append.mp
        (change.unplaced (List.forall_mem_append.mpr ⟨given, before⟩))
  | slot kind change =>
      exact List.forall_mem_append.mp
        (change.unplaced (List.forall_mem_append.mpr ⟨given, before⟩))

theorem Item.Made.unplaced {item : Item} (h : Item.Made ins item)
    (given : ∀ tree ∈ ins, tree.Unplaced) : ∀ tree ∈ item.trees, tree.Unplaced := by
  cases h with
  | node node => exact given
  | list nodes owner kind =>
      intro tree htree
      obtain ⟨node, hnode, rfl⟩ := List.mem_map.mp htree
      exact (given node hnode).withParent _
  | slot node? owner kind =>
      intro tree htree
      obtain ⟨node, hnode, rfl⟩ := Option.map_eq_some_iff.mp (Option.mem_toList.mp htree)
      exact (given node (Option.mem_toList.mpr hnode)).withParent _
  | store store =>
      intro tree htree
      cases htree

/-! ## Acts that copy nothing -/

theorem Act.unplaced {rules : Rules} {stage stage' : Stage} (h : Act rules stage stage')
    (uncopied : ¬ rules.copying) (before : ∀ tree ∈ stage.trees, tree.Unplaced) :
    ∀ tree ∈ stage'.trees, tree.Unplaced := by
  obtain ⟨hand, bench⟩ := List.forall_mem_append.mp before
  have placed : ∀ {name : String} {item : Item}, (∀ tree ∈ item.trees, tree.Unplaced) →
      ∀ tree ∈ (stage.bench.items.insert name item).trees, tree.Unplaced := by
    intro name item new tree htree
    cases Table.mem_trees_of_insert htree with
    | inl htree => exact new tree htree
    | inr htree => exact bench tree htree
  refine List.forall_mem_append.mpr ?_
  cases h with
  | release less => exact ⟨fun tree htree => hand tree (less.subset htree), bench⟩
  | forward | resolvers => exact ⟨hand, bench⟩
  | create unplaced made =>
      exact ⟨List.forall_mem_cons.mpr ⟨unplaced_of_create unplaced made, hand⟩, bench⟩
  | bind _ unplaced made =>
      exact ⟨List.forall_mem_cons.mpr ⟨unplaced_of_bind unplaced made, hand⟩, bench⟩
  | copy allowed => exact absurd allowed uncopied
  | take found =>
      have root := bench _ (Table.mem_trees_of_get? found (List.mem_singleton.mpr rfl))
      exact ⟨List.forall_mem_cons.mpr ⟨root, hand⟩,
        fun tree htree => bench tree (Table.mem_trees_of_erase htree)⟩
  | put name made _ =>
      obtain ⟨given, hand⟩ := List.forall_mem_append.mp hand
      exact ⟨hand, placed (made.unplaced given)⟩
  | swap found change =>
      obtain ⟨given, hand⟩ := List.forall_mem_append.mp hand
      have old := fun tree htree => bench tree (Table.mem_trees_of_get? found htree)
      obtain ⟨back, new⟩ := change.unplaced given old
      exact ⟨List.forall_mem_append.mpr ⟨back, hand⟩, placed new⟩
  | erase name => exact ⟨hand, fun tree htree => bench tree (Table.mem_trees_of_erase htree)⟩
  | change change =>
      obtain ⟨given, hand⟩ := List.forall_mem_append.mp hand
      obtain ⟨root, hand⟩ := List.forall_mem_cons.mp hand
      obtain ⟨back, changed⟩ := change.unplaced given root.below
      have own : Unplaced _ := ⟨(ordinal_body_congr change.ordinal?).trans root.root, changed⟩
      exact ⟨List.forall_mem_append.mpr ⟨back, List.forall_mem_cons.mpr ⟨own, hand⟩⟩, bench⟩
  | setBody unplaced =>
      obtain ⟨root, hand⟩ := List.forall_mem_cons.mp hand
      exact ⟨List.forall_mem_cons.mpr ⟨root.setBody unplaced, hand⟩, bench⟩
  | hold attributes type =>
      obtain ⟨typed, hand⟩ := List.forall_mem_append.mp hand
      obtain ⟨held, hand⟩ := List.forall_mem_append.mp hand
      obtain ⟨root, hand⟩ := List.forall_mem_cons.mp hand
      exact ⟨List.forall_mem_cons.mpr ⟨unplaced_holding root held typed, hand⟩, bench⟩

theorem Acts.unplaced {rules : Rules} {stage stage' : Stage} (h : Acts rules stage stage')
    (uncopied : ¬ rules.copying) (before : ∀ tree ∈ stage.trees, tree.Unplaced) :
    ∀ tree ∈ stage'.trees, tree.Unplaced := by
  induction h with
  | refl => exact before
  | tail _ act ih => exact act.unplaced uncopied ih

/-- What a plan builds does not depend on the workbench, so the plan may start from an empty one. -/
theorem Builds.unplaced {α : Type} {run : BuildM α} {made : α → List Node}
    (h : Builds [] run made) : Yields run fun a => ∀ tree ∈ made a, tree.Unplaced := by
  intro world a world' returned tree htree
  have acts := @Builds.returned _ _ _ _ h { world := world } a world' [] returned
  have none : ∀ tree ∈ Stage.trees ⟨[] ++ [], { world := world }⟩, tree.Unplaced := by
    intro tree htree
    cases htree
  refine acts.unplaced id none tree ?_
  exact List.mem_append_left _ (List.mem_append_left _ htree)

end DeclTree
