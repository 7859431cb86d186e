import DeclTree.Proofs.Acts.Sites
import DeclTree.Proofs.Ownership.InPlace

/-!
# Operations in place as acts

An operation in place comes to one change of the thing it works on, refused or not. Refused, it
writes back what it has read, and the nodes it was given stay in hand.
-/

namespace DeclTree

open BenchM Workbench Node

variable {ε α σ : Type}

/-! ## What operations come to -/

/-- What is handed out by something that is refused or not. -/
def handedOut (outs : α → List Node) : Except ε α → List Node
  | .ok a => outs a
  | .error _ => []

/-- The operation comes to a change of this thing. What it hands out depends on how it ends, and
nodes that it has no place for may be left over. -/
def Changes (C : List Node → List Node → σ → σ → Prop) (ins : List Node)
    (outs : Except ε α → List Node) (run : InPlace ε σ α) (s : σ) : Prop :=
  ∃ left, C ins (left ++ outs (outcome run s).1) s (outcome run s).2

theorem changes_of_allOrNothing {C : List Node → List Node → σ → σ → Prop} {ins : List Node}
    {outs : α → List Node} {run : InPlace ε σ α} {s : σ} {result : Except ε (α × σ)}
    (whole : outcome run s = allOrNothing s result) (keep : C ins ins s s)
    (ok : ∀ a s', result = .ok (a, s') → C ins (outs a) s s') :
    Changes C ins (handedOut outs) run s := by
  rw [Changes, whole]
  cases result with
  | error e =>
      have kept : C ins (ins ++ []) s s := by rwa [List.append_nil]
      exact ⟨ins, kept⟩
  | ok result => exact ⟨[], ok result.1 result.2 rfl⟩

namespace InPlace

/-! ### Lists and slots -/

section Lists

variable {list : ChildList Node}

theorem add_changes {node : Node} :
    Changes ListChange [node] (handedOut fun _ => []) (add node) list := by
  refine changes_of_allOrNothing (outcome_add node list) (.keep _ _) fun _ list' added => ?_
  obtain ⟨_, added, result⟩ := except_map_eq_ok.mp added
  cases result
  exact ChildList.change_of_add added

theorem addRange_changes {nodes : List Node} :
    Changes ListChange nodes (handedOut fun _ => []) (addRange nodes) list := by
  refine changes_of_allOrNothing (outcome_addRange nodes list) (.keep _ _) fun _ list' added => ?_
  obtain ⟨_, added, result⟩ := except_map_eq_ok.mp added
  cases result
  exact ChildList.change_of_addRange added

/-- A node that was refused is handed back. -/
def handedBack (outs : α → List Node) : Except (TreeError × Node) α → List Node
  | .ok a => outs a
  | .error (_, node) => [node]

theorem tryAdd_changes {node : Node} :
    Changes ListChange [node] (handedBack fun _ => []) (tryAdd node) list := by
  rw [Changes, outcome_tryAdd, ChildList.tryAdd]
  cases added : list.add node with
  | error error => exact ⟨[], .keep [node] list⟩
  | ok list' => exact ⟨[], ChildList.change_of_add added⟩

theorem remove_changes {id : NodeId} :
    Changes ListChange [] (handedOut Option.toList)
      (remove id : InPlace ε (ChildList Node) (Option Node)) list := by
  rw [Changes, outcome_remove]
  cases removed : list.remove? id with
  | none => exact ⟨[], .keep [] list⟩
  | some result => exact ⟨[], ChildList.change_of_remove? removed⟩

/-- A node that is moved leaves one list for the other. -/
theorem exists_changes_moveTo (id : NodeId) (source target : ChildList Node) :
    ∃ moved, ListChange [] moved source (outcome (moveTo id) (source, target)).2.1 ∧
      ListChange moved [] target (outcome (moveTo id) (source, target)).2.2 := by
  rw [outcome_moveTo]
  cases moving : source.moveTo target id with
  | error error => exact ⟨[], .keep [] source, .keep [] target⟩
  | ok result =>
      obtain ⟨moved, out, into⟩ := ChildList.exists_change_of_moveTo moving
      exact ⟨[moved], out, into⟩

end Lists

section Slots

variable {slot : ChildSlot Node} {node : Node}

theorem take_changes :
    Changes SlotChange [] (handedOut Option.toList)
      (take : InPlace ε (ChildSlot Node) (Option Node)) slot := by
  rw [Changes, outcome_take]
  exact ⟨[], .clear slot⟩

theorem set_changes :
    Changes SlotChange [node] (handedOut Option.toList) (set node) slot :=
  changes_of_allOrNothing (outcome_set node slot) (.keep _ _)
    fun _ _ set => ChildSlot.change_of_set set

theorem trySet_changes :
    Changes SlotChange [node] (handedBack Option.toList) (trySet node) slot := by
  rw [Changes, outcome_trySet, ChildSlot.trySet]
  cases filled : slot.set node with
  | error error => exact ⟨[], .keep [node] slot⟩
  | ok result => exact ⟨[], ChildSlot.change_of_set filled⟩

end Slots

/-! ### Nodes -/

section Nodes

variable {node : Node} {ins : List Node}

/-- Parameters that are numbered already can be written back as they are. -/
theorem setList_eq_withParameters {list : ChildList Node} (numbered : node.Numbered)
    (found : node.list? .parameters = some list) :
    node.setList .parameters list = node.withParameters list := by
  have same : renumber list = list := by
    rw [renumber_eq_self_iff, ← itemsIn_of_list? found]
    · exact numbered
    · rw [← itemsIn_of_list? found]
      exact fun parameter there => numbered.kind there
  rw [withParameters, same]

theorem change_setList_self {list : ChildList Node} (numbered : node.Numbered)
    (found : node.list? .parameters = some list) (kinds : ∀ node ∈ ins, node.kind = .parameter) :
    NodeChange ins (ins.map (withOrdinal 0)) node (node.setList .parameters list) := by
  rw [setList_eq_withParameters numbered found]
  exact .parameters found kinds (.keep ins list)

theorem insertParameters_changes {run : InPlace ε (ChildList Node) Unit}
    {insert : ChildList Node → Except ε (ChildList Node)} (numbered : node.Numbered)
    (kinds : ∀ node ∈ ins, node.kind = .parameter)
    (whole : ∀ list, outcome run list = allOrNothing list ((insert list).map ((), ·)))
    (change : ∀ list list', insert list = .ok list' → ListChange ins [] list list') :
    Changes NodeChange ins (handedOut fun _ => []) (insertParameters run) node := by
  unfold Changes
  cases found : node.list? .parameters with
  | none =>
      rw [outcome_insertParameters_of_none found]
      have kept := NodeChange.keep ins node
      nth_rewrite 2 [← List.append_nil ins] at kept
      exact ⟨ins, kept⟩
  | some list =>
      rw [outcome_insertParameters found, whole]
      cases inserted : insert list with
      | error e =>
          have kept := change_setList_self numbered found kinds
          rw [← List.append_nil (ins.map _)] at kept
          exact ⟨_, kept⟩
      | ok list' => exact ⟨[], .parameters found kinds (change list list' inserted)⟩

theorem addParameter_changes {parameter : Node} (numbered : node.Numbered)
    (kind : parameter.kind = .parameter) :
    Changes NodeChange [parameter] (handedOut fun _ => []) (addParameter parameter) node :=
  insertParameters_changes numbered (List.forall_mem_singleton.mpr kind) (outcome_add parameter)
    fun _ _ => ChildList.change_of_add

theorem addParameters_changes {parameters : List Node} (numbered : node.Numbered)
    (kinds : ∀ parameter ∈ parameters, parameter.kind = .parameter) :
    Changes NodeChange parameters (handedOut fun _ => []) (addParameters parameters) node :=
  insertParameters_changes numbered kinds (outcome_addRange parameters)
    fun _ _ => ChildList.change_of_addRange

theorem removeParameter_changes {id : NodeId} (numbered : node.Numbered) :
    Changes NodeChange [] (handedOut Option.toList)
      (removeParameter id : InPlace ε Node (Option Node)) node := by
  have kinds : ∀ node ∈ ([] : List Node), node.kind = .parameter := List.forall_mem_nil _
  unfold Changes
  cases found : node.list? .parameters with
  | none =>
      rw [outcome_removeParameter_of_none found]
      exact ⟨[], .keep [] node⟩
  | some list =>
      rw [outcome_removeParameter found]
      cases removed : list.remove? id with
      | none => exact ⟨[], change_setList_self numbered found kinds⟩
      | some result =>
          exact ⟨[], .parameters found kinds (ChildList.change_of_remove? removed)⟩

theorem setType_changes {type : Node} :
    Changes NodeChange [type] (handedOut Option.toList) (setType type) node := by
  unfold Changes
  cases found : node.slot? with
  | none =>
      rw [outcome_setType_of_none found]
      exact ⟨[], .keep [type] node⟩
  | some slot =>
      rw [outcome_setType found]
      cases filled : slot.set type with
      | error error => exact ⟨[type], .slot found (.keep [type] slot)⟩
      | ok result => exact ⟨[], .slot found (ChildSlot.change_of_set filled)⟩

theorem exists_changes_moveParameter {source target : Node} (id : NodeId)
    (numbered : source.Numbered) (numbered' : target.Numbered) :
    ∃ moved, NodeChange [] moved source (outcome (moveParameter id) (source, target)).2.1 ∧
      NodeChange moved [] target (outcome (moveParameter id) (source, target)).2.2 := by
  have kinds : ∀ node ∈ ([] : List Node), node.kind = .parameter := List.forall_mem_nil _
  cases found : source.list? .parameters with
  | none =>
      rw [outcome_moveParameter_of_none (.inl found)]
      exact ⟨[], .keep [] source, .keep [] target⟩
  | some list =>
      cases found' : target.list? .parameters with
      | none =>
          rw [outcome_moveParameter_of_none (.inr found')]
          exact ⟨[], .keep [] source, .keep [] target⟩
      | some into =>
          rw [outcome_moveParameter found found']
          cases moving : list.moveTo into id with
          | error error =>
              exact ⟨[], change_setList_self numbered found kinds,
                change_setList_self numbered' found' kinds⟩
          | ok result =>
              have moving : source.moveParameter target id =
                  .ok (source.withParameters result.1, target.withParameters result.2) := by
                rw [moveParameter_eq found found', moving]
                rfl
              obtain ⟨moved, out, into⟩ :=
                exists_change_of_moveParameter (fun _ there => numbered.kind there) moving
              exact ⟨[moved], out, into⟩

end Nodes

end InPlace

/-! ## Steps that work in place -/

/-- The slot under a name. -/
def Item.slot? : Item → Option (Kind × ChildSlot Node)
  | .slot kind place => some (kind, place)
  | _ => none

theorem reads_slotNamed (name : String) :
    Reads (slotNamed name) fun bench => (bench.items.get? name).bind Item.slot? := by
  refine (reads_item name).bind fun item => ?_
  cases item <;> exact fun _ => rfl

theorem exists_slot {bench : Workbench} {name : String} {kind : Kind} {slot : ChildSlot Node}
    (h : (bench.items.get? name).bind Item.slot? = some (kind, slot)) :
    bench.items.get? name = some (.slot kind slot) := by
  obtain ⟨item, hitem, hslot⟩ := Option.bind_eq_some_iff.mp h
  match item, hslot with
  | .slot _ _, hslot =>
      cases hslot
      exact hitem

section Returned

variable {bench bench' : Workbench} {result : Except ε α}

/-- An operation works on the list that is found, and what it leaves is put back. -/
theorem returned_inList {path : ListPath} {run : InPlace ε (ChildList Node) α}
    (h : Returns (inList path run) bench result bench') :
    ∃ kind list, bench.listAt? path = some (kind, list) ∧ result = (outcome run list).1 ∧
      RewritesList bench path list (outcome run list).2 bench' := by
  obtain ⟨kind, list, _, found, changed, rewrites⟩ := exists_of_changeList h
  obtain ⟨rfl, rfl⟩ := Prod.mk.inj (Except.ok.inj changed)
  exact ⟨kind, list, found, rfl, rewrites⟩

theorem returned_inNode {path : Path} {run : InPlace ε Node α}
    (h : Returns (inNode path run) bench result bench') :
    ∃ node, result = (outcome run node).1 ∧
      Rewrites path node (outcome run node).2 bench bench' := by
  obtain ⟨node, _, changed, rewrites⟩ := exists_of_changeNode h
  obtain ⟨rfl, rfl⟩ := Prod.mk.inj (Except.ok.inj changed)
  exact ⟨node, rfl, rewrites⟩

theorem returned_inSlot {name : String} {run : InPlace ε (ChildSlot Node) α}
    (h : Returns (inSlot name run) bench result bench') :
    ∃ kind slot, bench.items.get? name = some (.slot kind slot) ∧ result = (outcome run slot).1 ∧
      bench' = bench.place name (.slot kind (outcome run slot).2) := by
  obtain ⟨⟨kind, slot⟩, found, h⟩ := (reads_slotNamed name).returned_bind h
  obtain ⟨_, _, put, h⟩ := returns_bind.mp h
  obtain ⟨rfl, rfl⟩ := returns_pure.mp h
  obtain ⟨-, rfl⟩ := Prod.mk.inj put
  exact ⟨kind, slot, exists_slot found, rfl, rfl⟩

end Returned

section Meets

variable {start : Start} {hand ins : List Node} {outs : Except ε α → List Node}

theorem inList_meets {path : ListPath} {run : InPlace ε (ChildList Node) α}
    (h : ∀ list, Changes ListChange ins outs run list) :
    Meets start (Reached start (ins ++ hand)) (inList path run)
      fun result => Reached start (outs result ++ hand) := by
  refine changeList_meets ins outs fun {list _ _} changed => ?_
  have ended := Except.ok.inj changed
  obtain ⟨left, change⟩ := h list
  exact ⟨left, by rwa [outcome, ended] at change⟩

theorem inNode_meets {path : Path} {run : InPlace ε Node α}
    (h : ∀ node : Node, node.Numbered → Changes NodeChange ins outs run node) :
    Meets start (Reached start (ins ++ hand)) (inNode path run)
      fun result => Reached start (outs result ++ hand) := by
  refine changeNode_meets ins outs fun {node _ _} numbered changed => ?_
  have ended := Except.ok.inj changed
  obtain ⟨left, change⟩ := h node numbered
  exact ⟨left, by rwa [outcome, ended] at change⟩

theorem inSlot_meets {name : String} {run : InPlace ε (ChildSlot Node) α}
    (h : ∀ slot, Changes SlotChange ins outs run slot) :
    Meets start (Reached start (ins ++ hand)) (inSlot name run)
      fun result => Reached start (outs result ++ hand) := by
  refine ((reads_slotNamed name).meets Reached.empty_handed).bind ?_
  rintro ⟨kind, slot⟩
  obtain ⟨left, change⟩ := h slot
  have written : Meets start
      (fun bench => Reached start (ins ++ hand) bench ∧
        (bench.items.get? name).bind Item.slot? = some (kind, slot))
      (put name (.slot kind (outcome run slot).2))
      fun _ => Reached start (outs (outcome run slot).1 ++ hand) := by
    refine .modify fun ⟨reached, found⟩ => ?_
    have after := reached.act (.swap (exists_slot found) (.slot kind change))
    rw [List.append_assoc] at after
    exact after.drop
  exact written.bind fun _ => .pure fun reached => reached

theorem handOut_meets {result : Except TreeError α} {outs : α → List Node} :
    Meets start (Reached start (handedOut outs result ++ hand)) (ofTree result)
      fun a => Reached start (outs a ++ hand) := by
  refine .of_cautious (Cautious.of_moves (ofTree_moves result)) Reached.empty_handed
    fun reached returned => ?_
  obtain ⟨rfl, rfl⟩ := returned_ofTree returned
  exact reached

theorem orPutBack_meets {result : Except (TreeError × Node) α} {outs : α → List Node}
    {name : String} :
    Meets start (Reached start (InPlace.handedBack outs result ++ hand)) (orPutBack name result)
      fun a => Reached start (outs a ++ hand) := by
  rcases result with ⟨error, node⟩ | a
  · exact (putNode_meets name node).bind fun _ => .throw Reached.empty_handed
  · exact .pure fun reached => reached

/-- Nodes may go from one of two things to the other. -/
theorem inBoth_meets {π : Type} {access : Access π σ} {look : Workbench → π → Option σ}
    {locate : Workbench → π → Option Site} (lawful : access.Lawful look locate)
    {C : List Node → List Node → σ → σ → Prop} {known : σ → Prop} {run : InPlace ε (σ × σ) α}
    (acts : ∀ {path old new bench bench' ins outs}, look bench path = some old →
      Returns (access.write path new) bench () bench' → C ins outs old new →
        Act start.rules ⟨ins ++ [], bench⟩ ⟨outs ++ [], bench'⟩)
    (knows : ∀ {bench path old}, Reached start [] bench → look bench path = some old → known old)
    (h : ∀ first second, known first → known second →
      ∃ moved, C [] moved first (outcome run (first, second)).2.1 ∧
        C moved [] second (outcome run (first, second)).2.2) (source dest : π) :
    Meets start (Reached start []) (inBoth access source dest run) fun _ => Reached start [] := by
  refine ((lawful.reads_site source).meets fun reached => reached).bind fun site => ?_
  refine ((lawful.reads_site dest).meets And.left).bind fun other => ?_
  refine (requireThat_meets fun hP => hP.1.1).bind fun _ => .assume fun apart => ?_
  refine ((lawful.reads source).meets fun hP => hP.1.1).bind fun first => ?_
  refine ((lawful.reads dest).meets fun hP => hP.1.1.1).bind fun second => ?_
  refine .know (fun hP => knows hP.1.1.1.1 hP.1.2) fun knownFirst => ?_
  refine .know (fun hP => knows hP.1.1.1.1 hP.2) fun knownSecond => ?_
  obtain ⟨moved, out, into⟩ := h first second knownFirst knownSecond
  have left : Meets start
      (fun bench => (((Reached start [] bench ∧ locate bench source = some site) ∧
        locate bench dest = some other) ∧ look bench source = some first) ∧
          look bench dest = some second)
      (access.write source (outcome run (first, second)).2.1)
      fun _ bench => Reached start (moved ++ []) bench ∧ look bench dest = some second := by
    refine .of_cautious (lawful.cautious _ _) (fun hP => hP.1.1.1.1)
      fun ⟨⟨⟨⟨reached, here⟩, there⟩, found⟩, found'⟩ wrote => ?_
    exact ⟨reached.act (acts found wrote out), (lawful.apart wrote here there apart).trans found'⟩
  have joined : Meets start
      (fun bench => Reached start (moved ++ []) bench ∧ look bench dest = some second)
      (access.write dest (outcome run (first, second)).2.2) fun _ => Reached start [] := by
    refine .of_cautious (lawful.cautious _ _) (fun hP => hP.1.empty_handed)
      fun ⟨reached, found⟩ wrote => ?_
    exact reached.act (acts found wrote into)
  exact left.bind fun _ => joined.bind fun _ => .pure fun reached => reached

theorem inLists_meets {run : InPlace ε (ChildList Node × ChildList Node) α}
    (h : ∀ first second, ∃ moved, ListChange [] moved first (outcome run (first, second)).2.1 ∧
      ListChange moved [] second (outcome run (first, second)).2.2) (source dest : ListPath) :
    Meets start (Reached start []) (inBoth listAccess source dest run) fun _ => Reached start [] := by
  refine inBoth_meets listAccess_lawful (fun found wrote change => ?_) (fun _ _ => trivial)
    (fun first second _ _ => h first second) source dest
  obtain ⟨_, _, _, found', changed, rewrites⟩ := exists_of_changeList wrote
  obtain ⟨-, rfl⟩ := Prod.mk.inj (Except.ok.inj changed)
  rw [listIn?, found'] at found
  cases found
  exact rewrites.act change

theorem inNodes_meets {run : InPlace ε (Node × Node) α}
    (h : ∀ first second : Node, first.Numbered → second.Numbered →
      ∃ moved, NodeChange [] moved first (outcome run (first, second)).2.1 ∧
        NodeChange moved [] second (outcome run (first, second)).2.2) (source dest : Path) :
    Meets start (Reached start []) (inBoth nodeAccess source dest run) fun _ => Reached start [] := by
  refine inBoth_meets nodeAccess_lawful (fun found wrote change => ?_)
    (fun reached found => reached.numbered_of_mem (mem_nodes_of_nodeAt? found)) h source dest
  obtain ⟨_, _, changed, rewrites⟩ := exists_of_changeNode wrote
  obtain ⟨-, rfl⟩ := Prod.mk.inj (Except.ok.inj changed)
  obtain rfl := Option.some.inj (found.symm.trans rewrites.found)
  exact rewrites.act change

end Meets

end DeclTree
