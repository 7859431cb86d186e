import DeclTree.Proofs.Acts.Basic

/-!
# Numbered parameters

The parameters of a node are numbered if each has its position for its ordinal. Inserting and
removing number them anew; copies and edits rely on the ordinals that are there. So being numbered
is stable: no act destroys it.
-/

namespace DeclTree.Node

/-- The parameter at each index has that index for its ordinal. -/
def Numbered (node : Node) : Prop :=
  ∀ (index : Nat) (parameter : Node), (node.itemsIn .parameters)[index]? = some parameter →
    parameter.ordinal? = some index

variable {node node' : Node} {ins outs : List Node}

/-- Only the ordinals count. -/
theorem Numbered.congr (h : node.Numbered)
    (same : (node'.itemsIn .parameters).map ordinal? = (node.itemsIn .parameters).map ordinal?) :
    node'.Numbered := by
  intro index parameter found
  have there := congrArg (fun ordinals => ordinals[index]?) same
  simp only [List.getElem?_map, found, Option.map_some] at there
  obtain ⟨old, hold, ordinal⟩ := Option.map_eq_some_iff.mp there.symm
  rw [← ordinal]
  exact h index old hold

theorem numbered_of_eq_nil (h : node.itemsIn .parameters = []) : node.Numbered := by
  intro index parameter found
  rw [h] at found
  cases found

theorem kind_of_ordinal? {ordinal : Nat} (h : node.ordinal? = some ordinal) :
    node.kind = .parameter := by
  unfold ordinal? at h
  split at h
  next data hbody => rw [Node.kind, hbody]; rfl
  next => cases h

theorem Numbered.kind (h : node.Numbered) {parameter : Node}
    (there : parameter ∈ node.itemsIn .parameters) : parameter.kind = .parameter := by
  obtain ⟨index, found⟩ := List.mem_iff_getElem?.mp there
  exact kind_of_ordinal? (h index parameter found)

theorem ordinal?_withOrdinal (h : node.kind = .parameter) (ordinal : Nat) :
    (node.withOrdinal ordinal).ordinal? = some ordinal := by
  obtain ⟨header, body, branches⟩ := node
  cases body <;> first | rfl | cases h

theorem withOrdinal_eq_self_iff {node : Node} (kind : node.kind = .parameter) {ordinal : Nat} :
    node.withOrdinal ordinal = node ↔ node.ordinal? = some ordinal := by
  obtain ⟨header, body, branches⟩ := node
  cases body with
  | parameter data =>
      obtain ⟨old, modifier, default⟩ := data
      simp [withOrdinal, ordinal?, eq_comm]
  | _ => cases kind

theorem renumber_eq_self_iff {list : ChildList Node}
    (kinds : ∀ parameter ∈ list.items, parameter.kind = .parameter) :
    renumber list = list ↔ ∀ (index : Nat) (parameter : Node),
      list.items[index]? = some parameter → parameter.ordinal? = some index := by
  have items : renumber list = list ↔ list.items.mapIdx withOrdinal = list.items :=
    ⟨congrArg ChildList.items, fun same => by rw [renumber, same]⟩
  rw [items, List.ext_getElem?_iff]
  refine forall_congr' fun index => ?_
  rw [List.getElem?_mapIdx]
  cases found : list.items[index]? with
  | none => simp
  | some parameter =>
      simp [withOrdinal_eq_self_iff (kinds parameter (List.mem_of_getElem? found))]

/-! ## Acts keep parameters numbered -/

/-- A node that changes in place in a list keeps its ordinal, and the others theirs. -/
theorem Numbered.member {member member' : Node} {role : Role} {owner : NodeId}
    {left right : List Node} (h : node.Numbered)
    (found : node.list? role = some ⟨owner, left ++ member :: right⟩)
    (same : member'.ordinal? = member.ordinal?) :
    (node.setList role ⟨owner, left ++ member' :: right⟩).Numbered := by
  refine h.congr ?_
  by_cases hrole : role = .parameters
  · subst hrole
    rw [itemsIn_of_list? (list?_setList _ found), itemsIn_of_list? found]
    simp [same]
  · rw [itemsIn, list?_setList_ne _ (Ne.symm hrole), itemsIn]

theorem Numbered.parameters {list list' : ChildList Node} (h : node.Numbered)
    (found : node.list? .parameters = some list) (kinds : ∀ node ∈ ins, node.kind = .parameter)
    (change : ListChange ins outs list list') :
    (node.setList .parameters (renumber list')).Numbered := by
  have old : ∀ parameter ∈ list.items, parameter.kind = .parameter := by
    intro parameter there
    rw [← itemsIn_of_list? found] at there
    exact h.kind there
  have all : ∀ parameter ∈ outs ++ list'.items, parameter.kind = .parameter :=
    change.forall_mem (fun _ _ kind => kind) (fun _ _ kind => kind)
      (List.forall_mem_append.mpr ⟨kinds, old⟩)
  intro index parameter there
  rw [itemsIn_of_list? (list?_setList _ found), renumber, List.getElem?_mapIdx] at there
  obtain ⟨unnumbered, hunnumbered, rfl⟩ := Option.map_eq_some_iff.mp there
  refine ordinal?_withOrdinal (all unnumbered ?_) index
  exact List.mem_append_right _ (List.mem_of_getElem? hunnumbered)

theorem Repeats.ordinal? {R : Node → Node → Prop} (h : Repeats R node node') :
    node'.ordinal? = node.ordinal? := by
  unfold Node.ordinal?
  rcases Body.duplicate_cases h.body with same | ⟨payload, payload', -, hbody, hbody'⟩
  · rw [same]
  · rw [hbody, hbody']

/-- A copy takes over the ordinals as they are. -/
theorem Numbered.copy (h : node.Numbered) (copied : CopyOf node node') : node'.Numbered := by
  refine h.congr ?_
  have items := copied.repeats.itemsAt fun place => place = .list .parameters
  rw [← itemsIn_eq_itemsAt, ← itemsIn_eq_itemsAt] at items
  exact (map_eq_map_of_forall₂ (items.imp fun _ _ copied => copied.repeats.ordinal?.symm)).symm

theorem stable_numbered (next : Nat) : Stable next Numbered where
  header _ h := h.congr rfl
  body _ h := h.congr rfl
  list _ role_ne h := h.congr (by rw [itemsIn, list?_setList_ne _ (Ne.symm role_ne), itemsIn])
  slot _ h := h.congr (by rw [itemsIn, list?_setSlot, itemsIn])
  parameters found kinds change h := h.parameters found kinds change
  member found same h := h.member found same
  hold attributes type _ := by
    apply numbered_of_eq_nil
    rcases attributes with _ | attributes <;> rcases type with _ | type <;> rfl
  fresh header body _ := by
    apply numbered_of_eq_nil
    cases hkind : body.kind <;> simp [itemsIn, list?, ofHeader, hkind, Kind.branches]
  copy copied _ h := h.copy copied

end DeclTree.Node

namespace DeclTree

/-- The parameters of every node on the workbench are numbered. -/
def Workbench.Numbered (bench : Workbench) : Prop := ∀ node ∈ bench.nodes, node.Numbered

theorem Workbench.numbered_of_no_trees {bench : Workbench} (empty : bench.items.trees = []) :
    bench.Numbered := by
  intro node hnode
  rw [nodes, empty] at hnode
  cases hnode

theorem Acts.numbered {rules : Rules} {bench : Workbench} {stage : Stage}
    (h : Acts rules ⟨[], bench⟩ stage) (before : bench.Numbered) : stage.bench.Numbered := by
  have all : ∀ tree ∈ Stage.trees ⟨[], bench⟩, tree.All Node.Numbered :=
    fun tree htree node hnode => before node (List.mem_flatMap.mpr ⟨tree, htree, hnode⟩)
  intro node hnode
  obtain ⟨tree, htree, hnode⟩ := List.mem_flatMap.mp hnode
  have after := h.all (Node.stable_numbered 0) (Nat.zero_le _) all
  exact after tree (List.mem_append_right stage.hand htree) node hnode

end DeclTree
