import DeclTree.Proofs.Acts.Changes
import DeclTree.Proofs.Ownership.Ledger

/-!
# Exchanging nodes

Nodes go into a collection and come out of it. `Trades` says what this means for the members of one
collection, whose owner stays the same, and `Becomes` for a node on whose branches the collection
hangs. Every change of a list, a slot or a node comes to one of the two.
-/

namespace DeclTree

open Node

/-! ## Members of a collection -/

structure Trades (owner : NodeId) (ins outs before after : List Node) : Prop where
  rearranges : Rearranges (ins ++ before) (outs ++ after)
  parent : (∀ item ∈ before, item.parent = some owner) → ∀ item ∈ after, item.parent = some owner
  apart : (∀ item ∈ before, item.id ≠ owner) → ∀ item ∈ after, item.id ≠ owner

/-- Nodes that differ at most in data that has no part in ownership. -/
structure SameOwnership (node node' : Node) : Prop where
  id : node'.id = node.id
  parent : node'.parent = node.parent
  branches : node'.branches = node.branches

theorem SameOwnership.refl (node : Node) : SameOwnership node node := ⟨rfl, rfl, rfl⟩

theorem SameOwnership.rearranges {before after : List Node}
    (h : List.Forall₂ SameOwnership before after) : Rearranges before after := by
  intro tidy
  constructor
  · intro tree htree
    obtain ⟨old, hold, same⟩ := exists_of_forall₂ h htree
    exact (tidy old hold).congr same.id same.branches
  · intro id
    refine Nat.le_of_eq ?_
    clear tidy
    induction h with
    | nil => rfl
    | cons same _ ih => rw [tally_cons, tally_cons, ih, ids_congr same.id same.branches]

namespace Trades

variable {owner : NodeId} {ins outs before middle after : List Node}

theorem refl (nodes items : List Node) : Trades owner nodes nodes items items :=
  ⟨.refl _, fun all => all, fun all => all⟩

/-- One exchange after the other. -/
theorem seq {ins' outs' : List Node} (first : Trades owner ins outs before middle)
    (second : Trades owner ins' outs' middle after) :
    Trades owner (ins ++ ins') (outs ++ outs') before after where
  rearranges := by
    have first := (Rearranges.refl ins').append first.rearranges
    have second := (Rearranges.refl outs).append second.rearranges
    have swap := (first.trans (.perm (List.perm_append_comm_assoc outs ins' middle))).trans second
    rw [List.append_assoc, List.append_assoc]
    exact .trans (.perm (List.perm_append_comm_assoc ins' ins before)) swap
  parent h := second.parent (first.parent h)
  apart h := second.apart (first.apart h)

theorem trans (first : Trades owner ins outs before middle)
    (second : Trades owner [] [] middle after) : Trades owner ins outs before after := by
  have both := first.seq second
  rwa [List.append_nil, List.append_nil] at both

theorem of_sameOwnership (h : List.Forall₂ SameOwnership before after) :
    Trades owner [] [] before after where
  rearranges := SameOwnership.rearranges h
  parent all item hitem := by
    obtain ⟨old, hold, same⟩ := exists_of_forall₂ h hitem
    rw [same.parent, all old hold]
  apart all item hitem := by
    obtain ⟨old, hold, same⟩ := exists_of_forall₂ h hitem
    rw [same.id]
    exact all old hold

/-- Nodes are appended, with the owner for their parent. -/
theorem append (apart : ∀ node ∈ ins, node.id ≠ owner) :
    Trades owner ins [] before (before ++ ins.map (Node.withParent (some owner))) where
  rearranges := by
    intro tidy
    constructor
    · intro tree htree
      rw [List.nil_append] at htree
      rcases List.mem_append.mp htree with htree | htree
      · exact tidy tree (List.mem_append_right _ htree)
      · obtain ⟨node, hnode, rfl⟩ := List.mem_map.mp htree
        exact (tidy node (List.mem_append_left _ hnode)).withParent _
    · intro id
      have same := tally_map (fun node => node.ids_withParent (some owner)) ins id
      simp only [tally_append, tally_nil, same]
      omega
  parent all item hitem := by
    rcases List.mem_append.mp hitem with hitem | hitem
    · exact all item hitem
    · obtain ⟨node, -, rfl⟩ := List.mem_map.mp hitem
      rfl
  apart all item hitem := by
    rcases List.mem_append.mp hitem with hitem | hitem
    · exact all item hitem
    · obtain ⟨node, hnode, rfl⟩ := List.mem_map.mp hitem
      exact apart node hnode

/-- One node is taken out. The parent link it leaves with does not matter. -/
theorem extract {left right : List Node} (node : Node) (parent : Option NodeId) :
    Trades owner [] [node.withParent parent] (left ++ node :: right) (left ++ right) where
  rearranges := by
    intro tidy
    constructor
    · intro tree htree
      rcases List.mem_cons.mp htree with rfl | htree
      · exact (tidy node (by simp)).withParent _
      · have old : tree ∈ left ++ right := htree
        refine tidy tree ?_
        rcases List.mem_append.mp old with old | old <;> simp [old]
    · intro id
      simp only [List.nil_append, List.cons_append, tally_append, tally_cons, ids_withParent]
      omega
  parent all item hitem := all item (by
    rcases List.mem_append.mp hitem with hitem | hitem <;> simp [hitem])
  apart all item hitem := all item (by
    rcases List.mem_append.mp hitem with hitem | hitem <;> simp [hitem])

end Trades

/-! ## Lists and slots -/

section Collections

variable {ins outs : List Node}

theorem ListChange.owner {list list' : ChildList Node} (h : ListChange ins outs list list') :
    list'.owner = list.owner := by
  cases h <;> rfl

theorem ListChange.free {list list' : ChildList Node} (h : ListChange ins outs list list')
    (free : Free ins) : Free outs := by
  cases h with
  | keep => exact free
  | append _ => exact free_nil
  | extract _ => exact free_singleton.mpr rfl
  | rename _ _ => exact free_nil

theorem ListChange.trades {list list' : ChildList Node} (h : ListChange ins outs list list') :
    Trades list.owner ins outs list.items list'.items := by
  cases h with
  | keep => exact .refl _ _
  | append insertable => exact .append fun node hnode => (insertable node hnode).1
  | extract node => exact .extract node none
  | rename node name =>
      refine .of_sameOwnership (List.rel_append ?_ (.cons ⟨rfl, rfl, rfl⟩ ?_))
      · exact List.forall₂_same.mpr fun node _ => .refl node
      · exact List.forall₂_same.mpr fun node _ => .refl node

variable {slot slot' : ChildSlot Node}

theorem SlotChange.owner (h : SlotChange ins outs slot slot') : slot'.owner = slot.owner := by
  cases h <;> rfl

theorem SlotChange.free (h : SlotChange ins outs slot slot') (free : Free ins) : Free outs := by
  have taken : Free (slot.item.map (Node.withParent none)).toList := by
    cases slot.item with
    | none => exact free_nil
    | some node => exact free_singleton.mpr rfl
  cases h with
  | keep => exact free
  | fill _ => exact taken
  | clear => exact taken

theorem SlotChange.trades (h : SlotChange ins outs slot slot') :
    Trades slot.owner ins outs slot.item.toList slot'.item.toList := by
  have taken : Trades slot.owner [] (slot.item.map (Node.withParent none)).toList slot.item.toList
      [] := by
    cases slot.item with
    | none => exact .of_sameOwnership .nil
    | some node =>
        have out : Trades slot.owner [] [node.withParent none] ([] ++ node :: []) ([] ++ []) :=
          .extract node none
        exact out
  cases h with
  | keep => exact .refl _ _
  | clear => exact taken
  | @fill _ node insertable =>
      have put : Trades slot.owner [node] [] []
          ([] ++ [node].map (Node.withParent (some slot.owner))) := by
        refine .append fun item hitem => ?_
        rw [List.mem_singleton.mp hitem]
        exact insertable.1
      have both := taken.seq put
      rw [List.nil_append, List.append_nil] at both
      exact both

end Collections

namespace Node

/-! ## Nodes that change in place -/

structure Becomes (ins outs : List Node) (node node' : Node) : Prop where
  rearranges : Rearranges (ins ++ [node]) (outs ++ [node'])
  id : node'.id = node.id
  parent : node'.parent = node.parent

variable {ins outs : List Node} {node node' : Node}

/-- One branch of a node changes, and its place and owner do not. -/
theorem becomes_of_branch {owner : NodeId} {branch branch' : Branch Node}
    {left right : List (Branch Node)} (hbranches : node.branches = left ++ branch :: right)
    (hbranches' : node'.branches = left ++ branch' :: right) (hid : node'.id = node.id)
    (hparent : node'.parent = node.parent) (place : branch'.place = branch.place)
    (howner : branch.owner? = some owner) (howner' : branch'.owner? = some owner)
    (trade : Trades owner ins outs branch.items branch'.items) : Becomes ins outs node node' := by
  refine ⟨fun tidy => ?_, hid, hparent⟩
  obtain ⟨keeps, below⟩ := tidy_iff.mp (tidy node (by simp))
  have parts_eq : node.parts =
      left.flatMap Branch.items ++ (branch.items ++ right.flatMap Branch.items) := by
    rw [parts, hbranches, List.flatMap_append, List.flatMap_cons]
  have parts_eq' : node'.parts =
      left.flatMap Branch.items ++ (branch'.items ++ right.flatMap Branch.items) := by
    rw [parts, hbranches', List.flatMap_append, List.flatMap_cons]
  have mem : branch ∈ node.branches := by simp [hbranches]
  have others : ∀ other ∈ left ++ branch' :: right, other = branch' ∨ other ∈ node.branches := by
    intro other hother
    rw [hbranches]
    simp only [List.mem_append, List.mem_cons] at hother ⊢
    tauto
  have given : ∀ tree ∈ ins ++ branch.items, tree.Tidy := by
    intro tree htree
    rcases List.mem_append.mp htree with htree | htree
    · exact tidy tree (List.mem_append_left _ htree)
    · exact below tree (mem_parts_of_mem_branch mem htree)
  obtain ⟨tidy', fewer⟩ := trade.rearranges given
  have keeps' : node'.Keeps := by
    refine ⟨?_, ?_, ?_⟩
    · have nodup := keeps.places
      rw [places, hbranches] at nodup
      rw [places, hbranches']
      simpa [place] using nodup
    · intro other hother id hmem
      rw [hid]
      rcases others other (hbranches' ▸ hother) with rfl | hother
      · exact keeps.owner branch mem id (by rwa [howner, ← howner'])
      · exact keeps.owner other hother id hmem
    · intro other hother item hitem
      rcases others other (hbranches' ▸ hother) with rfl | hother
      · rw [howner']
        refine trade.parent (fun item hitem => ?_) item hitem
        rw [keeps.parent branch mem item hitem, howner]
      · exact keeps.parent other hother item hitem
  have below' : ∀ part ∈ node'.parts, part.Tidy := by
    intro part hpart
    rw [parts_eq'] at hpart
    rw [parts_eq] at below
    simp only [List.mem_append] at hpart below
    rcases hpart with hpart | hpart | hpart
    · exact below part (.inl hpart)
    · exact tidy' part (List.mem_append_right _ hpart)
    · exact below part (.inr (.inr hpart))
  refine ⟨fun tree htree => ?_, fun id => ?_⟩
  · rcases List.mem_append.mp htree with htree | htree
    · exact tidy' tree (List.mem_append_left _ htree)
    · rw [List.mem_singleton.mp htree]
      exact tidy_iff.mpr ⟨keeps', below'⟩
  · have less := fewer id
    simp only [tally_append, tally_cons, tally_nil, count_ids, parts_eq, parts_eq', hid] at less ⊢
    omega

theorem becomes_of_sameOwnership (same : SameOwnership node node') : Becomes [] [] node node' :=
  ⟨SameOwnership.rearranges (.cons same .nil), same.id, same.parent⟩

/-- A member of a collection changes in place. -/
theorem trades_of_becomes {owner : NodeId} {left right : List Node}
    (h : Becomes ins outs node node') :
    Trades owner ins outs (left ++ node :: right) (left ++ node' :: right) where
  rearranges := by
    have apart : ∀ front member, (front ++ (left ++ member :: right)).Perm
        ((front ++ [member]) ++ (left ++ right)) := by
      intro front member
      rw [List.append_assoc]
      exact List.perm_middle.append_left front
    exact ((Rearranges.perm (apart ins node).symm).trans (h.rearranges.frame _)).trans
      (.perm (apart outs node'))
  parent all item hitem := by
    rcases List.mem_append.mp hitem with hitem | hitem
    · exact all item (by simp [hitem])
    · rcases List.mem_cons.mp hitem with rfl | hitem
      · rw [h.parent]
        exact all node (by simp)
      · exact all item (by simp [hitem])
  apart all item hitem := by
    rcases List.mem_append.mp hitem with hitem | hitem
    · exact all item (by simp [hitem])
    · rcases List.mem_cons.mp hitem with rfl | hitem
      · rw [h.id]
        exact all node (by simp)
      · exact all item (by simp [hitem])

/-- Putting another branch in the place of one changes nothing beside it. -/
theorem split_at_place (nodup : node.places.Nodup) {branch : Branch Node}
    (mem : branch ∈ node.branches) :
    ∃ left right, node.branches = left ++ branch :: right ∧
      ∀ new, (node.branches.map fun other => if other.place = branch.place then new else other) =
        left ++ new :: right := by
  obtain ⟨left, right, split⟩ := List.append_of_mem mem
  refine ⟨left, right, split, fun new => ?_⟩
  rw [places, split, List.map_append, List.map_cons, List.nodup_middle, List.nodup_cons] at nodup
  have apart := nodup.1
  rw [← List.map_append, List.mem_map] at apart
  have kept : ∀ others ⊆ left ++ right,
      (others.map fun other => if other.place = branch.place then new else other) = others := by
    intro others sub
    rw [List.map_congr_left fun other hother => if_neg fun same => apart ⟨other, sub hother, same⟩]
    exact List.map_id' others
  rw [split, List.map_append, List.map_cons, if_pos rfl, kept left (List.subset_append_left _ _),
    kept right (List.subset_append_right _ _)]

theorem becomes_setList {role : Role} {list list' : ChildList Node}
    (h : node.list? role = some list) (howner : list'.owner = list.owner)
    (trade : Trades list.owner ins outs list.items list'.items) :
    Becomes ins outs node (node.setList role list') := by
  refine ⟨fun tidy => ?_, rfl, rfl⟩
  have keeps := (tidy node (by simp)).keeps
  obtain ⟨left, right, split, replaced⟩ := split_at_place keeps.places (mem_branches_of_list? h)
  have split' : (node.setList role list').branches = left ++ .list role list' :: right := by
    rw [setList_branches]
    exact replaced _
  exact (becomes_of_branch split split' rfl rfl rfl rfl (congrArg some howner) trade).rearranges
    tidy

theorem becomes_setSlot {slot slot' : ChildSlot Node} (h : node.slot? = some slot)
    (howner : slot'.owner = slot.owner)
    (trade : Trades slot.owner ins outs slot.item.toList slot'.item.toList) :
    Becomes ins outs node (node.setSlot slot') := by
  refine ⟨fun tidy => ?_, rfl, rfl⟩
  have keeps := (tidy node (by simp)).keeps
  obtain ⟨left, right, split, replaced⟩ := split_at_place keeps.places (mem_branches_of_slot? h)
  have split' : (node.setSlot slot').branches = left ++ .slot slot' :: right := by
    rw [setSlot_branches]
    exact replaced _
  exact (becomes_of_branch split split' rfl rfl rfl rfl (congrArg some howner) trade).rearranges
    tidy

/-! ## Changes of nodes -/

theorem sameOwnership_withOrdinal (ordinal : Nat) (node : Node) :
    SameOwnership node (node.withOrdinal ordinal) := by
  obtain ⟨body, same, -⟩ := exists_setBody_withOrdinal ordinal node
  rw [same]
  exact ⟨rfl, rfl, rfl⟩

theorem trades_renumber (list : ChildList Node) :
    Trades list.owner [] [] list.items (renumber list).items := by
  refine .of_sameOwnership ?_
  rw [List.forall₂_iff_get]
  refine ⟨by simp [renumber], fun i hi hi' => ?_⟩
  simpa [renumber] using sameOwnership_withOrdinal i _

end Node

namespace NodeChange

variable {ins outs : List Node} {node node' : Node}

theorem free (h : NodeChange ins outs node node') (free : Free ins) : Free outs := by
  cases h with
  | keep => exact free
  | label _ _ _ => exact free_nil
  | inject _ _ => exact free_nil
  | edit _ _ => exact free_nil
  | list _ _ change => exact change.free free
  | parameters found kinds change =>
      intro node hnode
      obtain ⟨old, hold, rfl⟩ := List.mem_map.mp hnode
      rw [(sameOwnership_withOrdinal 0 old).parent]
      exact change.free free old hold
  | slot found change => exact change.free free

theorem becomes (h : NodeChange ins outs node node') : Becomes ins outs node node' := by
  cases h with
  | keep => exact ⟨.refl _, rfl, rfl⟩
  | label _ _ _ => exact becomes_of_sameOwnership ⟨rfl, rfl, rfl⟩
  | inject _ _ => exact becomes_of_sameOwnership ⟨rfl, rfl, rfl⟩
  | edit _ _ => exact becomes_of_sameOwnership ⟨rfl, rfl, rfl⟩
  | list _ found change => exact becomes_setList found change.owner change.trades
  | @parameters _ outs _ list list' found kinds change =>
      have trade : Trades list.owner ins outs list.items (renumber list').items :=
        change.trades.trans (change.owner ▸ trades_renumber list')
      have owner : (renumber list').owner = list.owner := change.owner
      obtain ⟨rearranges, id, parent⟩ := becomes_setList found owner trade
      refine ⟨rearranges.trans (.append (SameOwnership.rearranges ?_) (.refl _)), id, parent⟩
      rw [List.forall₂_map_right_iff]
      exact List.forall₂_same.mpr fun node _ => sameOwnership_withOrdinal 0 node
  | slot found change => exact becomes_setSlot found change.owner change.trades

end NodeChange

/-- What a change does at the end of a path it does to the tree at its start. -/
theorem Node.Rewrites.becomes {old new node node' : Node} {ins outs : List Node}
    (h : old.Rewrites new node node') (change : Becomes ins outs old new) :
    Becomes ins outs node node' := by
  induction h with
  | here => exact change
  | deeper found _ ih => exact becomes_setList found rfl (trades_of_becomes ih)

end DeclTree
