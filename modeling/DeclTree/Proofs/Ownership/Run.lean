import DeclTree.Proofs.Acts.Steps

/-!
# Ownership in every state of a run

A run starts from a workbench without nodes. Whatever its steps do and whichever of them are
refused, in every state it reaches each node has one owner or none, the parent links say which,
and identities are never used twice.
-/

namespace DeclTree

/-- Every item has the owner for its parent and is not that owner itself. -/
def ChildList.Owned (list : ChildList Node) : Prop :=
  ∀ item ∈ list.items, item.parent = some list.owner ∧ item.id ≠ list.owner

/-- What is in the slot has the owner for its parent and is not that owner itself. -/
def ChildSlot.Owned (slot : ChildSlot Node) : Prop :=
  ∀ item ∈ slot.item, item.parent = some slot.owner ∧ item.id ≠ slot.owner

namespace Workbench

structure Ownership (bench : Workbench) : Prop where
  free : ∀ {name node}, (name, Item.node node) ∈ bench.items.entries → node.parent = none
  list : ∀ {name kind list}, (name, Item.list kind list) ∈ bench.items.entries → list.Owned
  slot : ∀ {name kind slot}, (name, Item.slot kind slot) ∈ bench.items.entries → slot.Owned
  innerList : ∀ node ∈ bench.nodes, ∀ {role list}, .list role list ∈ node.branches →
    list.owner = node.id ∧ list.Owned
  innerSlot : ∀ node ∈ bench.nodes, ∀ {slot}, .slot slot ∈ node.branches →
    slot.owner = node.id ∧ slot.Owned
  held : ∀ node ∈ bench.nodes, ∀ branch ∈ node.branches, branch.owner? = none →
    ∀ item ∈ branch.items, item.parent = none
  distinct : (bench.nodes.map Node.id).Nodup
  allocated : ∀ node ∈ bench.nodes, node.id.number < bench.world.supply.nextNode

theorem map_id_nodes (bench : Workbench) :
    bench.nodes.map Node.id = bench.items.trees.flatMap Node.ids := by
  unfold nodes
  rw [List.map_flatMap]
  rfl

theorem nodup_ids_of_mem {bench : Workbench} (distinct : (bench.nodes.map Node.id).Nodup)
    {node : Node} (h : node ∈ bench.nodes) : node.ids.Nodup := by
  obtain ⟨tree, htree, hnode⟩ := List.mem_flatMap.mp h
  have below : tree.nodes.Sublist bench.nodes := by
    unfold nodes
    rw [List.flatMap_def]
    exact List.sublist_flatten_of_mem (List.mem_map_of_mem htree)
  exact distinct.sublist (((Node.nodes_sublist_nodes hnode).trans below).map Node.id)

/-- An account of all nodes, whose parameters are numbered. Steps rely on both. -/
structure Sound (bench : Workbench) : Prop extends Account [] bench where
  numbered : bench.Numbered

theorem Sound.ownership {bench : Workbench} (h : bench.Sound) : bench.Ownership := by
  obtain ⟨⟨-, ledger, placed⟩, -⟩ := h
  rw [List.nil_append] at ledger
  have distinct : (bench.nodes.map Node.id).Nodup := by
    rw [map_id_nodes]
    exact ledger.nodup
  have keeps : ∀ node ∈ bench.nodes, node.Keeps := by
    intro node hnode
    obtain ⟨tree, htree, hnode⟩ := List.mem_flatMap.mp hnode
    exact ledger.tidy tree htree node hnode
  -- An item below a node has another identity than the node, since the node's tree has no repeats.
  have apart : ∀ node ∈ bench.nodes, ∀ item ∈ node.parts, item.id ≠ node.id := by
    intro node hnode item hitem same
    have nodup := nodup_ids_of_mem distinct hnode
    rw [Node.ids_eq, List.nodup_cons] at nodup
    refine nodup.1 (same ▸ List.mem_flatMap.mpr ⟨item, hitem, ?_⟩)
    exact Node.id_mem_ids item.self_mem_nodes
  have inner : ∀ node ∈ bench.nodes, ∀ branch ∈ node.branches, ∀ owner ∈ branch.owner?,
      owner = node.id ∧ ∀ item ∈ branch.items, item.parent = some owner ∧ item.id ≠ owner := by
    intro node hnode branch hbranch owner howner
    have own := (keeps node hnode).owner branch hbranch owner howner
    refine ⟨own, fun item hitem => ⟨?_, ?_⟩⟩
    · rw [(keeps node hnode).parent branch hbranch item hitem]
      exact howner
    · rw [own]
      exact apart node hnode item (Node.mem_parts_of_mem_branch hbranch hitem)
  refine ⟨?_, ?_, ?_, ?_, ?_, ?_, distinct, ?_⟩
  · intro name node hentry
    exact (placed _ hentry node (List.mem_singleton.mpr rfl)).1
  · intro name kind list hentry item hitem
    obtain ⟨parent, other⟩ := placed _ hentry item hitem
    exact ⟨parent, fun same => other (congrArg some same.symm)⟩
  · intro name kind slot hentry item hitem
    obtain ⟨parent, other⟩ := placed _ hentry item (Option.mem_toList.mpr hitem)
    exact ⟨parent, fun same => other (congrArg some same.symm)⟩
  · intro node hnode role list hbranch
    exact inner node hnode _ hbranch _ rfl
  · intro node hnode slot hbranch
    obtain ⟨own, items⟩ := inner node hnode _ hbranch _ rfl
    exact ⟨own, fun item hitem => items item (Option.mem_toList.mpr hitem)⟩
  · intro node hnode branch hbranch unowned item hitem
    rw [(keeps node hnode).parent branch hbranch item hitem]
    exact unowned
  · intro node hnode
    refine ledger.allocated ?_
    rw [← map_id_nodes]
    exact List.mem_map_of_mem hnode

/-! ## Runs -/

theorem run_append {bench : Workbench} (first second : List Step) :
    (bench.run (first ++ second)).2 = ((bench.run first).2.run second).2 := by
  induction first generalizing bench with
  | nil => rfl
  | cons step first ih => exact ih

/-- Every step is admissible at its time. -/
def admits : Workbench → List Step → Bool
  | _, [] => true
  | bench, step :: steps => step.admissible bench && (bench.step step).2.admits steps

theorem Sound.reading {bench bench' : Workbench} (h : bench.Sound)
    (reading : Reading bench bench') : bench'.Sound where
  free := h.free
  ledger := reading.items ▸ h.ledger.mono reading.supply
  placed := reading.items ▸ h.placed
  numbered node hnode := h.numbered node (reading.nodes ▸ hnode)

theorem Sound.acts {bench : Workbench} (h : bench.Sound) {step : Step} (asks : step.asks = false)
    (admissible : step.admissible bench) :
    Acts ⟨True, step.builds, step.copies⟩ ⟨[], bench⟩ ⟨[], (bench.step step).2⟩ :=
  acts_of_step h.numbered (fun _ => h.toAccount) asks (Step.exchanges_of_admissible admissible)
    fun _ => admissible

theorem Sound.step {bench : Workbench} (h : bench.Sound) {step : Step}
    (admissible : step.admissible bench) : (bench.step step).2.Sound := by
  cases asks : step.asks with
  | true => exact h.reading (reading_of_asks asks)
  | false =>
      have acts := h.acts asks admissible
      exact ⟨acts.account trivial h.toAccount, acts.numbered h.numbered⟩

theorem Sound.run {bench : Workbench} (h : bench.Sound) {steps : List Step}
    (admitted : bench.admits steps) : (bench.run steps).2.Sound := by
  induction steps generalizing bench with
  | nil => exact h
  | cons step steps ih =>
      obtain ⟨admissible, rest⟩ := Bool.and_eq_true_iff.mp admitted
      exact ih (h.step admissible) rest

theorem sound_of_no_trees {bench : Workbench} (empty : bench.items.trees = []) :
    bench.Sound := by
  refine ⟨⟨fun _ hnode => (List.not_mem_nil hnode).elim, ?_, fun entry hentry tree htree => ?_⟩,
    numbered_of_no_trees empty⟩
  · rw [empty]
    exact .nil _
  · have found : tree ∈ bench.items.trees := List.mem_flatMap.mpr ⟨entry, hentry, htree⟩
    rw [empty] at found
    cases found

theorem admits_take {bench : Workbench} {steps : List Step} (h : bench.admits steps) (n : Nat) :
    bench.admits (steps.take n) := by
  induction steps generalizing bench n with
  | nil => rw [List.take_nil]; rfl
  | cons step steps ih =>
      cases n with
      | zero => rfl
      | succ n =>
          obtain ⟨admissible, rest⟩ := Bool.and_eq_true_iff.mp h
          exact Bool.and_eq_true_iff.mpr ⟨admissible, ih rest n⟩

/-- Ownership holds in every state that a run goes through, from a workbench without nodes on. -/
theorem run_keeps_ownership {bench : Workbench} {steps : List Step}
    (empty : bench.items.trees = []) (admitted : bench.admits steps) (n : Nat) :
    (bench.run (steps.take n)).2.Ownership :=
  ((sound_of_no_trees empty).run (admits_take admitted n)).ownership

/-- A class is built, its method moves to a list of its own and is copied there and back. The last
two steps are refused: a class cannot stand in its own list, and a name is not known. -/
def sampleSteps : List Step :=
  let shop : Path := ⟨"shop", []⟩
  let copy : Path := ⟨"copy", []⟩
  [.node (.build (.typeDecl
      { header := { name := "Shop" }
        methods := [
          { header := { name := "Sell" }
            type := some { header := { name := "List" }, generic := some [{}] }
            parameters := [{ header := { name := "item" }, typed := some {} }] }] }) "shop"),
    .list (.create "methods" .method .fresh),
    .list (.move (.branch shop .methods) (.node ⟨"shop", [.members .methods, .index 0]⟩)
      (.register "methods")),
    .node (.copy ⟨"methods", [.index 0]⟩ "copy"),
    .parameter (.remove copy (.node ⟨"copy", [.members .parameters, .index 0]⟩) (some "free")),
    .parameter (.add ⟨"methods", [.index 0]⟩ "free"),
    .list (.copyFor (.register "methods") (.node shop) "copies"),
    .list (.add (.branch shop .methods) "copy"),
    .list (.create "own" .typeDecl (.node shop)),
    .list (.tryAdd (.register "own") "shop"),
    .node (.setName ⟨"gone", []⟩ "Shop")]

theorem run_keeps_ownership_of_sampleSteps :
    ({} : Workbench).items.trees = [] ∧ ({} : Workbench).admits sampleSteps ∧
      (({} : Workbench).run sampleSteps).1.map Except.toBool =
        [true, true, true, true, true, true, true, true, true, false, false] ∧
      (({} : Workbench).run sampleSteps).2.nodes.length = 18 ∧
      (({} : Workbench).run (sampleSteps.take 11)).2.Ownership :=
  ⟨rfl, by decide +kernel, by decide +kernel, by decide +kernel,
    run_keeps_ownership rfl (by decide +kernel) 11⟩

end Workbench

end DeclTree
