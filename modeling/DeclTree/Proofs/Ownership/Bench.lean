import DeclTree.Proofs.Ownership.Building

/-!
# The account of the workbench

The things on the workbench hold all the trees there are, except for the nodes in hand. `Account`
says that both together are in a ledger, that the nodes in hand are free and that the trees of
every thing belong to its owner. Every orderly act keeps the account.
-/

namespace DeclTree

open Node

/-! ## Things -/

namespace Item

/-- The parent links of the trees name the owner, and no tree is its own owner. -/
def Placed (item : Item) : Prop :=
  ∀ tree ∈ item.trees, tree.parent = item.owner? ∧ item.owner? ≠ some tree.id

/-- The thing changes in place, while nodes go into it and come out of it. -/
structure Swaps (ins outs : List Node) (item item' : Item) : Prop where
  rearranges : Rearranges (ins ++ item.trees) (outs ++ item'.trees)
  placed : item.Placed → item'.Placed

variable {ins outs : List Node}

theorem swaps_of_trades {owner : NodeId} {item item' : Item} (howner : item.owner? = some owner)
    (howner' : item'.owner? = some owner) (trade : Trades owner ins outs item.trees item'.trees) :
    Swaps ins outs item item' := by
  refine ⟨trade.rearranges, fun placed tree htree => ?_⟩
  have parent : tree.parent = some owner :=
    trade.parent (fun old hold => howner ▸ (placed old hold).1) tree htree
  have apart : tree.id ≠ owner := by
    refine trade.apart (fun old hold same => (placed old hold).2 ?_) tree htree
    rw [howner, same]
  rw [howner']
  exact ⟨parent, fun same => apart (Option.some.inj same).symm⟩

theorem swaps_of_becomes {root root' : Node} (h : Becomes ins outs root root') :
    Swaps ins outs (.node root) (.node root') := by
  refine ⟨h.rearranges, fun placed tree htree => ⟨?_, fun same => by cases same⟩⟩
  rw [List.mem_singleton.mp htree, h.parent]
  exact (placed root (List.mem_singleton.mpr rfl)).1

end Item

namespace ItemChange

variable {ins outs : List Node} {item item' : Item}

theorem free (h : ItemChange ins outs item item') (free : Free ins) : Free outs := by
  cases h with
  | node change _ => exact change.free free
  | list _ change => exact change.free free
  | slot _ change => exact change.free free

theorem swaps (h : ItemChange ins outs item item') : item.Swaps ins outs item' := by
  cases h with
  | node change inner =>
      cases inner with
      | root inner => exact Item.swaps_of_becomes (inner.becomes change.becomes)
      | member kind inner =>
          exact Item.swaps_of_trades rfl rfl (trades_of_becomes (inner.becomes change.becomes))
      | @occupant root root' owner kind inner =>
          have trade : Trades owner ins outs ([] ++ [root]) ([] ++ [root']) :=
            trades_of_becomes (inner.becomes change.becomes)
          exact Item.swaps_of_trades rfl rfl trade
  | list kind change => exact Item.swaps_of_trades rfl (congrArg some change.owner) change.trades
  | slot kind change => exact Item.swaps_of_trades rfl (congrArg some change.owner) change.trades

end ItemChange

/-- Free nodes are adopted by the thing they become. -/
theorem Item.Made.placed {ins : List Node} {item : Item} (h : Item.Made ins item) (free : Free ins)
    (apart : ∀ node ∈ ins, item.owner? ≠ some node.id) :
    Rearranges ins item.trees ∧ item.Placed := by
  have adopted : ∀ {nodes : List Node} {owner : NodeId} {item : Item},
      item.owner? = some owner → item.trees = nodes.map (Node.withParent (some owner)) →
      (∀ node ∈ nodes, some owner ≠ some node.id) → Rearranges nodes item.trees ∧ item.Placed := by
    intro nodes owner item howner htrees apart
    have adopt : Trades owner nodes [] [] ([] ++ nodes.map (Node.withParent (some owner))) :=
      .append fun node hnode same => apart node hnode (congrArg some same.symm)
    rw [List.nil_append, ← htrees] at adopt
    refine ⟨?_, fun tree htree => ?_⟩
    · have change := adopt.rearranges
      rwa [List.append_nil, List.nil_append] at change
    · rw [howner]
      refine ⟨adopt.parent (fun _ hitem => (List.not_mem_nil hitem).elim) tree htree, fun same => ?_⟩
      exact adopt.apart (fun _ hitem => (List.not_mem_nil hitem).elim) tree htree
        (Option.some.inj same).symm
  cases h with
  | node node =>
      refine ⟨.refl _, fun tree htree => ⟨?_, fun same => by cases same⟩⟩
      rw [List.mem_singleton.mp htree]
      exact free_singleton.mp free
  | list nodes owner kind => exact adopted rfl rfl apart
  | slot node? owner kind => exact adopted rfl Option.toList_map apart
  | store store => exact ⟨.refl _, fun tree htree => by cases htree⟩

namespace Table

variable {items : Table String Item} {name : String} {item : Item}

theorem rearranges_erase (items : Table String Item) (name : String) :
    Rearranges items.trees (items.erase name).trees :=
  .of_sublist (List.filter_sublist.flatMap _)

theorem rearranges_get? (h : items.get? name = some item) :
    Rearranges items.trees (item.trees ++ (items.erase name).trees) := by
  have apart : (name, item) ∉ (items.erase name).entries := by
    intro hmem
    simpa using (List.mem_filter.mp hmem).2
  obtain ⟨entries, same, sub⟩ := List.cons_subperm_of_not_mem_of_mem apart (mem_of_lookup h)
    List.filter_sublist.subperm
  have found : Rearranges items.trees (entries.flatMap fun entry => entry.2.trees) :=
    .of_sublist (sub.flatMap _)
  have first := same.flatMap_right fun entry : String × Item => entry.2.trees
  rw [List.flatMap_cons] at first
  exact found.trans (.perm first.symm)

end Table

/-! ## The account -/

namespace Workbench

structure Account (hand : List Node) (bench : Workbench) : Prop where
  free : Free hand
  ledger : Ledger bench.world.supply.nextNode (hand ++ bench.items.trees)
  placed : ∀ entry ∈ bench.items.entries, entry.2.Placed

namespace Account

variable {bench : Workbench} {ins outs hand : List Node} {name : String} {item item' : Item}

/-- The world changes, and identities may have been taken. -/
theorem withWorld (h : bench.Account hand) {world : World}
    (more : bench.world.supply.Forward world.supply) : (bench.withWorld world).Account hand :=
  ⟨h.free, h.ledger.mono more, h.placed⟩

/-- The hand changes while the things stay. -/
theorem rehand {hand' : List Node} (h : bench.Account hand) (change : Rearranges hand hand')
    (free : Free hand') : bench.Account hand' :=
  ⟨free, h.ledger.rearrange (change.frame _), h.placed⟩

theorem release {hand' : List Node} (h : bench.Account hand) (less : hand'.Subperm hand) :
    bench.Account hand' := by
  obtain ⟨kept, same, sub⟩ := less
  have change : Rearranges hand hand' := .trans (.of_sublist sub) (.perm same.symm)
  exact h.rehand change fun node hnode => h.free node (sub.subset (same.symm.subset hnode))

theorem placed_of_get? (h : bench.Account hand) (found : bench.items.get? name = some item) :
    item.Placed :=
  h.placed _ (Table.mem_of_lookup found)

/-- Nodes in hand are put down as a new thing. What had its name before is gone. -/
theorem put (h : bench.Account (ins ++ hand)) (made : Item.Made ins item)
    (apart : ∀ node ∈ ins, item.owner? ≠ some node.id) : (bench.place name item).Account hand := by
  obtain ⟨free, freeHand⟩ := free_append.mp h.free
  obtain ⟨change, placed⟩ := made.placed free apart
  refine ⟨freeHand, ?_, fun entry hentry => ?_⟩
  · have ledger := h.ledger
    rw [List.append_assoc] at ledger
    have down : Rearranges (hand ++ (ins ++ bench.items.trees))
        (hand ++ (item.trees ++ (bench.items.erase name).trees)) :=
      (Rearranges.refl hand).append (change.append (Table.rearranges_erase bench.items name))
    exact ledger.rearrange (.trans (.perm (List.perm_append_comm_assoc hand ins _)) down)
  · rcases List.mem_cons.mp hentry with rfl | hentry
    · exact placed
    · exact h.placed entry (List.mem_of_mem_filter hentry)

/-- A thing is changed in place. -/
theorem swap (h : bench.Account (ins ++ hand)) (found : bench.items.get? name = some item)
    (change : ItemChange ins outs item item') : (bench.place name item').Account (outs ++ hand) := by
  obtain ⟨free, freeHand⟩ := free_append.mp h.free
  refine ⟨free_append.mpr ⟨change.free free, freeHand⟩, ?_, fun entry hentry => ?_⟩
  · have regroup : ∀ nodes trees : List Node,
        ((nodes ++ hand) ++ (trees ++ (bench.items.erase name).trees)).Perm
          ((nodes ++ trees) ++ (hand ++ (bench.items.erase name).trees)) := by
      intro nodes trees
      rw [List.append_assoc, List.append_assoc]
      exact (List.perm_append_comm_assoc hand trees _).append_left nodes
    have taken := (Rearranges.refl (ins ++ hand)).append (Table.rearranges_get? found)
    have apart := taken.trans (.perm (regroup ins item.trees).symm)
    have changed := apart.trans (change.swaps.rearranges.frame _)
    exact h.ledger.rearrange (changed.trans (.perm (regroup outs item'.trees)))
  · rcases List.mem_cons.mp hentry with rfl | hentry
    · exact change.swaps.placed (h.placed_of_get? found)
    · exact h.placed entry (List.mem_of_mem_filter hentry)

theorem erase (h : bench.Account hand) (name : String) :
    ({ bench with items := bench.items.erase name } : Workbench).Account hand := by
  refine ⟨h.free, h.ledger.rearrange ((Rearranges.refl hand).append ?_), fun entry hentry => ?_⟩
  · exact Table.rearranges_erase bench.items name
  · exact h.placed entry (List.mem_of_mem_filter hentry)

/-- A node is taken up. -/
theorem take {root : Node} (h : bench.Account hand)
    (found : bench.items.get? name = some (.node root)) :
    ({ bench with items := bench.items.erase name } : Workbench).Account (root :: hand) := by
  have free : root.parent = none := (h.placed_of_get? found root (List.mem_singleton.mpr rfl)).1
  refine ⟨free_append.mpr ⟨free_singleton.mpr free, h.free⟩, ?_, fun entry hentry => ?_⟩
  · have taken := (Rearranges.refl hand).append (Table.rearranges_get? found)
    exact h.ledger.rearrange (taken.trans (.perm List.perm_middle.symm))
  · exact h.placed entry (List.mem_of_mem_filter hentry)

/-- A new node is in hand. -/
theorem made {node : Node} {world : World} (h : bench.Account hand)
    (isNew : node.IsNew bench.world world) : (bench.withWorld world).Account (node :: hand) := by
  refine ⟨free_append.mpr ⟨free_singleton.mpr isNew.parent, h.free⟩, ?_, h.placed⟩
  change Ledger world.supply.nextNode ([node] ++ (hand ++ bench.items.trees))
  rw [isNew.next, isNew.empty]
  exact h.ledger.ofHeader isNew.id _

/-- Nodes in hand change among themselves. -/
theorem change {ins outs : List Node} {node node' : Node} (h : bench.Account (ins ++ node :: hand))
    (rearranges : Rearranges (ins ++ [node]) (outs ++ [node'])) (free : Free outs)
    (parent : node'.parent = node.parent) : bench.Account (outs ++ node' :: hand) := by
  obtain ⟨-, freeRest⟩ := free_append.mp h.free
  obtain ⟨freeNode, freeHand⟩ := List.forall_mem_cons.mp freeRest
  refine h.rehand ?_ (free_append.mpr ⟨free, List.forall_mem_cons.mpr ⟨?_, freeHand⟩⟩)
  · have frame := rearranges.frame hand
    rwa [List.append_assoc, List.append_assoc, List.singleton_append, List.singleton_append] at frame
  · rw [parent]
    exact freeNode

theorem tidy_of_mem_nodes (h : bench.Account hand) {node : Node} (there : node ∈ bench.nodes) :
    node.Tidy := by
  obtain ⟨tree, htree, hnode⟩ := List.mem_flatMap.mp there
  have tidy := h.ledger.tidy tree (List.mem_append_right hand htree)
  exact fun other hother => tidy other ((nodes_sublist_nodes hnode).subset hother)

theorem allocated_of_mem_nodes (h : bench.Account hand) {node : Node} (there : node ∈ bench.nodes) :
    node.id.number < bench.world.supply.nextNode := by
  obtain ⟨tree, htree, hnode⟩ := List.mem_flatMap.mp there
  refine h.ledger.allocated (List.mem_flatMap.mpr ⟨tree, ?_, id_mem_ids hnode⟩)
  exact List.mem_append_right hand htree

/-- Copies made one after the other are in hand beside what was there. -/
theorem copies {parts copies : List Node} {supply : Supply} (h : bench.Account hand)
    (there : parts ⊆ bench.nodes) (threads : Threads Node.copy parts bench.world.supply copies supply) :
    (bench.withWorld { bench.world with supply }).Account (copies ++ hand) := by
  obtain ⟨free, ledger⟩ :=
    h.ledger.ofCopies threads fun part hpart => h.tidy_of_mem_nodes (there hpart)
  refine ⟨free_append.mpr ⟨free, h.free⟩, ?_, h.placed⟩
  rw [List.append_assoc]
  exact ledger

end Account

end Workbench

theorem Act.account {rules : Rules} {stage stage' : Stage} (h : Act rules stage stage')
    (holds : rules.orderly) (before : stage.bench.Account stage.hand) :
    stage'.bench.Account stage'.hand := by
  cases h with
  | release less => exact before.release less
  | forward more => exact before.withWorld more
  | resolvers change => exact before.withWorld (Nat.le_refl _)
  | create _ made => exact before.made (isNew_create made)
  | bind _ _ made => exact before.made (isNew_bind made)
  | copy _ there copied => exact before.copies there copied
  | take found => exact before.take found
  | put name made apart => exact before.put made (apart holds)
  | swap found change => exact before.swap found change
  | erase name => exact before.erase name
  | change change =>
      have becomes := change.becomes
      obtain ⟨free, -⟩ := free_append.mp before.free
      exact before.change becomes.rearranges (change.free free) becomes.parent
  | @setBody hand bench node body _ =>
      have same : SameOwnership node (node.setBody body) := ⟨rfl, rfl, rfl⟩
      have becomes := becomes_of_sameOwnership same
      have empty : bench.Account ([] ++ node :: hand) := before
      exact empty.change becomes.rearranges free_nil becomes.parent
  | @hold hand bench node attributes type =>
      have regroup : bench.Account ((type.join.toList ++ attributes.getD []) ++ node :: hand) := by
        rw [List.append_assoc]
        exact before
      obtain ⟨held, -⟩ := free_append.mp regroup.free
      obtain ⟨typed, attributed⟩ := free_append.mp held
      have rearranges : Rearranges (type.join.toList ++ (attributes.getD [] ++ [node])) _ :=
        rearranges_hold attributes type (free_append.mpr ⟨attributed, typed⟩)
      rw [← List.append_assoc] at rearranges
      exact regroup.change rearranges free_nil rfl

theorem Acts.account {rules : Rules} {stage stage' : Stage} (h : Acts rules stage stage')
    (holds : rules.orderly) (before : stage.bench.Account stage.hand) :
    stage'.bench.Account stage'.hand := by
  induction h with
  | refl => exact before
  | tail _ act ih => exact act.account holds ih

end DeclTree
