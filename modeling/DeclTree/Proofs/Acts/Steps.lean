import DeclTree.Proofs.Acts.InPlace
import DeclTree.Proofs.Acts.Reading
import DeclTree.Workbench.Run

/-!
# Every step is a sequence of acts

Each kind of step is put together from what its computations have in hand. A step either only reads
or is a sequence of acts, refused or not. Left out are the steps that exchange nodes, lists or
headers in place, and copies for an owner whose identity is still to be given out: a node of the
copy could get that identity.
-/

namespace DeclTree

/-! ## Admissible steps -/

/-- Whether the identity has been given out, or will have been by the time it is used. -/
def IdRef.allocated (bench : Workbench) : IdRef → Bool
  | .given id => id.number < bench.world.supply.nextNode
  | .fresh | .node _ => true

def Step.admissible (bench : Workbench) : Step → Bool
  | .list (.copyFor _ owner _) | .slot (.copyFor _ owner _) => owner.allocated bench
  | .list (.exchange _ _) | .node (.exchange _ _) | .node (.replaceHeader _ _ _) => false
  | _ => true

/-- Whether the step only asks. -/
def Step.asks : Step → Bool
  | .node (.query _ _) | .compare _ => true
  | _ => false

/-- Whether the step exchanges something in place. -/
def Step.exchanges : Step → Bool
  | .list (.exchange _ _) | .node (.exchange _ _) | .node (.replaceHeader _ _ _) => true
  | _ => false

/-- Whether the step builds a tree. -/
def Step.builds : Step → Bool
  | .node (.build _ _) => true
  | _ => false

/-- Whether the step copies nodes. -/
def Step.copies : Step → Bool
  | .node (.copy _ _) | .list (.copyFor _ _ _) | .slot (.copyFor _ _ _) => true
  | _ => false

theorem Step.exchanges_of_admissible {bench : Workbench} {step : Step}
    (h : step.admissible bench) : step.exchanges = false := by
  unfold exchanges
  split <;> first | cases h | rfl

open BenchM Workbench Node

variable {start : Start}

/-! ## Steps on resolvers -/

theorem ResolverStep.run_meets (step : ResolverStep) :
    Meets start (Reached start []) step.run fun _ => Reached start [] := by
  cases step with
  | register resolver id symbol =>
      refine (resolvers_meets fun state => ?_).bind fun _ => .pure fun reached => reached
      exact .register state resolver id symbol
  | unregister resolver id =>
      refine (resolvers_meets fun state => ?_).bind fun _ => .pure fun reached => reached
      exact .unregister state resolver id
  | failNext name count =>
      refine (resolvers_meets fun state => ?_).bind fun _ => .pure fun reached => reached
      exact .failNext state name count
  | skipLines count =>
      refine (resolvers_meets fun state => ?_).bind fun _ => .pure fun reached => reached
      exact .skipLines state count
  | calls resolver =>
      refine (resolvers_meets fun state => .declare state resolver).bind fun _ => ?_
      refine (Meets.of_moves get_moves).bind fun _ => ?_
      cases resolver <;> exact .pure fun reached => reached
  | handle plan =>
      exact (resolvers_meets fun state => .handle state plan).bind fun _ => .pure fun reached => reached
  | fresh => exact (Meets.of_moves freshNode_moves).bind fun _ => .pure fun reached => reached

/-! ## Steps on lists -/

theorem idOf_meets (ref : IdRef) :
    Meets start (fun bench => Reached start [] bench ∧ (start.rules.orderly → ref.allocated bench))
      (idOf ref)
      fun id bench => Reached start [] bench ∧
        (start.rules.orderly → id.number < bench.world.supply.nextNode) := by
  cases ref with
  | given id =>
      refine .pure fun ⟨reached, allocated⟩ => ⟨reached, fun orderly => ?_⟩
      exact of_decide_eq_true (allocated orderly)
  | fresh =>
      refine .of_cautious (Cautious.of_moves freshNode_moves) And.left fun {bench _ _} hP returned => ?_
      obtain ⟨ok, rfl⟩ := Prod.mk.inj returned
      obtain rfl := Except.ok.inj ok
      exact ⟨hP.1.untouched (freshNode_moves bench), fun _ => Nat.lt_succ_self _⟩
  | node path =>
      refine ((reads_nodeAt path).meets And.left).bind fun node => ?_
      refine .pure fun ⟨⟨reached, _⟩, found⟩ => ⟨reached, fun orderly => ?_⟩
      exact reached.allocated orderly (mem_nodes_of_nodeAt? found)

theorem reads_kindOf (path : ListPath) :
    Reads (do return (← listAt path).1) fun bench => (bench.listAt? path).bind fun found => some found.1 :=
  (reads_listAt path).bind fun _ => reads_pure _

theorem takeFor_meets (path : ListPath) (name : String) (hand : List Node) :
    Meets start (Reached start hand) (takeFor path name) fun node => Reached start (node :: hand) :=
  takeOfKind_meets (reads_kindOf path).moves name hand

theorem ListStep.move_meets (source : ListPath) (id : IdRef) (dest : ListPath) :
    Meets start (Reached start []) (ListStep.move source id dest).run fun _ => Reached start [] := by
  refine (Meets.of_moves (idOf_moves id)).bind fun id => ?_
  refine (Meets.of_moves (reads_listAt source).moves).bind fun _ => ?_
  refine (Meets.of_moves (reads_listAt dest).moves).bind fun _ => ?_
  refine (Meets.of_moves (requireThat_moves _)).bind fun _ => ?_
  refine (inLists_meets (InPlace.exists_changes_moveTo id) source dest).bind fun _ => .of_moves ?_
  exact moves_bind (ofTree_moves _) fun _ => moves_bind (reads_listAt source).moves fun _ =>
    moves_bind (reads_listAt dest).moves fun _ => moves_pure _

theorem ListStep.tryAdd_meets (path : ListPath) (name : String) :
    Meets start (Reached start []) (ListStep.tryAdd path name).run fun _ => Reached start [] := by
  refine (takeFor_meets path name []).bind fun node => ?_
  refine (inList_meets fun _ => InPlace.tryAdd_changes).bind fun _ => ?_
  exact orPutBack_meets.bind fun _ => .of_moves (answerList_moves path)

theorem ListStep.remove_meets (path : ListPath) (id : IdRef) (target : Option String) :
    Meets start (Reached start []) (ListStep.remove path id target).run fun _ => Reached start [] := by
  refine (Meets.of_moves (idOf_moves id)).bind fun id => ?_
  refine (inList_meets fun _ => InPlace.remove_changes).bind fun result => ?_
  refine handOut_meets.bind fun removed => ?_
  refine (putNode?_meets target removed).bind fun _ => ?_
  exact (Meets.of_moves (reads_listAt path).moves).bind fun _ => .pure fun reached => reached

theorem ListStep.copyFor_meets (allowed : start.rules.copying) (path : ListPath) (owner : IdRef)
    (target : String) :
    Meets start (fun bench => Reached start [] bench ∧ (start.rules.orderly → owner.allocated bench))
      (ListStep.copyFor path owner target).run fun _ => Reached start [] := by
  refine (idOf_meets owner).bind fun owner => ?_
  refine ((reads_listAt path).meets And.left).bind ?_
  rintro ⟨kind, list⟩
  have copied : Meets start
      (fun bench => Reached start [] bench ∧
        (start.rules.orderly → owner.number < bench.world.supply.nextNode) ∧ list.items ⊆ bench.nodes)
      (copying (list.copyFor owner))
      fun copy bench => Reached start [] (bench.place target (.list kind copy)) := by
    have moves : Moves Supply.Forward (list.copyFor owner) :=
      list.copyFor_moves fun item _ => item.copy_moves
    refine DeclTree.copyFor_meets allowed moves fun returned => ?_
    obtain ⟨copies, threads, rfl⟩ := ChildList.returns_copyFor returned
    exact ⟨copies, threads, .list copies owner kind, rfl⟩
  refine Meets.bind (copied.weaken fun hP => ?_) fun copy => ?_
  · exact ⟨hP.1.1, hP.1.2, mem_nodes_of_listAt? hP.2⟩
  · exact Meets.bind (.modify fun reached => reached) fun _ => .pure fun reached => reached

theorem ListStep.run_meets (step : ListStep) (keeps : (Step.list step).exchanges = false)
    (copies : (Step.list step).copies → start.rules.copying) :
    Meets start
      (fun bench => Reached start [] bench ∧ (start.rules.orderly → (Step.list step).admissible bench))
      step.run fun _ => Reached start [] := by
  cases step with
  | create target kind owner =>
      refine Meets.weaken ?_ And.left
      refine (Meets.of_moves (idOf_moves owner)).bind fun id => ?_
      have made : Item.Made [] (.list kind { owner := id }) := .list [] id kind
      refine (put_meets target made fun _ there => ?_).bind fun _ => .pure fun reached => reached
      cases there
  | info path => exact (Meets.of_moves (answerList_moves path)).weaken And.left
  | add path name =>
      refine Meets.weaken ?_ And.left
      refine (takeFor_meets path name []).bind fun node => ?_
      refine (inList_meets fun _ => InPlace.add_changes).bind fun _ => ?_
      exact handOut_meets.bind fun _ => .of_moves (answerList_moves path)
  | tryAdd path name => exact (tryAdd_meets path name).weaken And.left
  | addRange path names =>
      refine Meets.weaken ?_ And.left
      refine (mapM_meets (takeFor_meets path) names).bind fun nodes => ?_
      refine (inList_meets fun _ => InPlace.addRange_changes).bind fun _ => ?_
      exact handOut_meets.bind fun _ => .of_moves (answerList_moves path)
  | remove path id target => exact (remove_meets path id target).weaken And.left
  | move source id dest => exact (move_meets source id dest).weaken And.left
  | copyFor path owner target => exact copyFor_meets (copies rfl) path owner target
  | get path index =>
      refine Meets.weaken (.of_moves ?_) And.left
      exact moves_bind (reads_listAt path).moves fun _ => moves_pure _
  | find path id =>
      refine Meets.weaken (.of_moves ?_) And.left
      exact moves_bind (idOf_moves id) fun _ =>
        moves_bind (reads_listAt path).moves fun _ => moves_pure _
  | renameFound path id name =>
      refine Meets.weaken ?_ And.left
      refine (Meets.of_moves (idOf_moves id)).bind fun id => ?_
      refine Meets.bind (changeList_meets [] (fun _ => []) ?_) fun found => ?_
      · intro list _ _ changed
        cases renamed : list.modifyFirst? id (Node.withName name) with
        | none =>
            rw [renamed] at changed
            obtain ⟨rfl, rfl⟩ := Prod.mk.inj (Except.ok.inj changed)
            exact ⟨[], .keep [] list⟩
        | some list' =>
            rw [renamed] at changed
            obtain ⟨rfl, rfl⟩ := Prod.mk.inj (Except.ok.inj changed)
            exact ⟨[], ChildList.change_of_modifyFirst? renamed⟩
      · cases found with
        | false => exact .pure fun reached => reached
        | true => exact .of_moves (answerList_moves path)
  | exchange path register => exact absurd keeps.symm Bool.false_ne_true

/-! ## Steps on parameters -/

theorem takeParameter_meets (name : String) (hand : List Node) :
    Meets start (Reached start hand) (takeParameter name) fun node => Reached start (node :: hand) :=
  takeOfKind_meets (moves_pure _) name hand

theorem takeParameter_yields (name : String) :
    Yields (takeParameter name) fun node => node.kind = .parameter := by
  intro bench node bench' returned
  exact (Option.some.inj (returned_takeOfKind (reads_pure _) returned).2).symm

theorem ParameterStep.move_meets (source : Path) (id : IdRef) (dest : Path) :
    Meets start (Reached start []) (ParameterStep.move source id dest).run
      fun _ => Reached start [] := by
  refine (Meets.of_moves (idOf_moves id)).bind fun id => ?_
  refine (inNodes_meets (fun _ _ => InPlace.exists_changes_moveParameter id) source dest).bind
    fun _ => .of_moves ?_
  exact moves_bind (ofTree_moves _) fun _ => moves_bind (parametersAt_moves source) fun _ =>
    moves_bind (parametersAt_moves dest) fun _ => moves_pure _

theorem ParameterStep.run_meets (step : ParameterStep) :
    Meets start (Reached start []) step.run fun _ => Reached start [] := by
  cases step with
  | add path name =>
      refine (takeParameter_meets name []).bind_of_yields (takeParameter_yields name)
        fun node kind => ?_
      refine (inNode_meets fun _ numbered =>
        InPlace.addParameter_changes numbered kind).bind fun _ => handOut_meets.bind fun _ => ?_
      exact .of_moves (moves_bind (parametersAt_moves path) fun _ => moves_pure _)
  | addAll path names =>
      refine (mapM_meets takeParameter_meets names).bind_of_yields
        (yields_mapM fun name _ => takeParameter_yields name) fun nodes kinds => ?_
      refine (inNode_meets fun _ numbered =>
        InPlace.addParameters_changes numbered kinds).bind fun _ => handOut_meets.bind fun _ => ?_
      exact .of_moves (moves_bind (parametersAt_moves path) fun _ => moves_pure _)
  | remove path id target =>
      refine (Meets.of_moves (idOf_moves id)).bind fun id => ?_
      refine (inNode_meets fun _ numbered =>
        InPlace.removeParameter_changes numbered).bind fun _ => handOut_meets.bind fun removed => ?_
      refine (Meets.of_moves (parametersAt_moves path)).bind fun rest => ?_
      exact (putNode?_meets target removed).bind fun _ => .pure fun reached => reached
  | move source id dest => exact move_meets source id dest

/-! ## Steps on slots -/

theorem reads_kindOfSlot (name : String) :
    Reads (do return (← slotNamed name).1)
      fun bench => ((bench.items.get? name).bind Item.slot?).bind fun found => some found.1 :=
  (reads_slotNamed name).bind fun _ => reads_pure _

theorem takeForSlot_meets (slot name : String) (hand : List Node) :
    Meets start (Reached start hand) (takeForSlot slot name) fun node => Reached start (node :: hand) :=
  takeOfKind_meets (reads_kindOfSlot slot).moves name hand

theorem SlotStep.copyFor_meets (allowed : start.rules.copying) (name : String) (owner : IdRef)
    (target : String) :
    Meets start (fun bench => Reached start [] bench ∧ (start.rules.orderly → owner.allocated bench))
      (SlotStep.copyFor name owner target).run fun _ => Reached start [] := by
  refine (idOf_meets owner).bind fun owner => ?_
  refine ((reads_slotNamed name).meets And.left).bind ?_
  rintro ⟨kind, slot⟩
  have copied : Meets start
      (fun bench => Reached start [] bench ∧
        (start.rules.orderly → owner.number < bench.world.supply.nextNode) ∧
        slot.item.toList ⊆ bench.nodes)
      (copying (slot.copyFor owner))
      fun copy bench => Reached start [] (bench.place target (.slot kind copy)) := by
    have moves : Moves Supply.Forward (slot.copyFor owner) :=
      slot.copyFor_moves fun item _ => item.copy_moves
    refine DeclTree.copyFor_meets allowed moves fun returned => ?_
    obtain ⟨copies, threads, rfl⟩ := ChildSlot.returns_copyFor returned
    have made := Item.Made.slot copies.head? owner kind
    have most : copies.length ≤ 1 := by
      rw [threads.length_eq]
      cases slot.item <;> simp
    rw [toList_head? most] at made
    exact ⟨copies, threads, made, rfl⟩
  refine Meets.bind (copied.weaken fun hP => ?_) fun copy => ?_
  · refine ⟨hP.1.1, hP.1.2, fun node there => ?_⟩
    exact mem_nodes_of_get? (exists_slot hP.2) there node.self_mem_nodes
  · exact Meets.bind (.modify fun reached => reached) fun _ => .pure fun reached => reached

theorem SlotStep.run_meets (step : SlotStep)
    (copies : (Step.slot step).copies → start.rules.copying) :
    Meets start
      (fun bench => Reached start [] bench ∧ (start.rules.orderly → (Step.slot step).admissible bench))
      step.run fun _ => Reached start [] := by
  cases step with
  | create target kind owner =>
      refine Meets.weaken ?_ And.left
      refine (Meets.of_moves (idOf_moves owner)).bind fun id => ?_
      have made : Item.Made [] (.slot kind { owner := id }) := .slot none id kind
      refine (put_meets target made fun _ there => ?_).bind fun _ => .pure fun reached => reached
      cases there
  | info name =>
      refine Meets.weaken (.of_moves ?_) And.left
      exact moves_bind (reads_slotNamed name).moves fun _ => moves_pure _
  | set name itemName target =>
      refine Meets.weaken ?_ And.left
      refine (takeForSlot_meets name itemName []).bind fun node => ?_
      refine (inSlot_meets fun _ => InPlace.set_changes).bind fun _ => ?_
      refine handOut_meets.bind fun previous => ?_
      refine (Meets.of_moves (reads_slotNamed name).moves).bind fun _ => ?_
      exact (putNode?_meets target previous).bind fun _ => .pure fun reached => reached
  | trySet name itemName target =>
      refine Meets.weaken ?_ And.left
      refine (takeForSlot_meets name itemName []).bind fun node => ?_
      refine (inSlot_meets fun _ => InPlace.trySet_changes).bind fun _ => ?_
      refine orPutBack_meets.bind fun previous => ?_
      refine (Meets.of_moves (reads_slotNamed name).moves).bind fun _ => ?_
      exact (putNode?_meets target previous).bind fun _ => .pure fun reached => reached
  | take name target =>
      refine Meets.weaken ?_ And.left
      refine (inSlot_meets fun _ => InPlace.take_changes).bind fun _ => ?_
      refine handOut_meets.bind fun taken => ?_
      exact (putNode?_meets target taken).bind fun _ => .pure fun reached => reached
  | copyFor name owner target => exact copyFor_meets (copies rfl) name owner target

/-! ## Steps on stores and nodes -/

theorem storeAt_moves (ref : StoreRef) : Moves Untouched (storeAt ref) := by
  cases ref with
  | register name =>
      refine moves_bind (reads_item name).moves fun item => ?_
      cases item with
      | store store => exact moves_pure _
      | node node => exact moves_throw _
      | list kind members => exact moves_throw _
      | slot kind place => exact moves_throw _
  | node path => exact moves_bind (reads_nodeAt path).moves fun _ => moves_pure _

theorem putStore_meets (store : AnnotationStore) (ref : StoreRef) :
    Meets start (Reached start []) (putStore store ref) fun _ => Reached start [] := by
  cases ref with
  | register name => exact put_meets name (.store store) fun _ there => by cases there
  | node path => exact modifyNode_meets fun node => .label node node.header.name store

theorem annotate_moves (entries : List (String × Value)) :
    Moves Untouched
      (allocating (entries.mapM fun (key, value) => Annotation.create key value)) :=
  allocating_moves fun s => Nat.le_of_eq (nextNode_mapM_create entries s).symm

theorem copyEntries_moves (store : AnnotationStore) :
    Moves Untouched (allocating store.copyEntries) := by
  refine allocating_moves fun s => ?_
  rw [AnnotationStore.copyEntries_eq]
  exact Nat.le_refl s.nextNode

theorem StoreStep.run_meets (step : StoreStep) :
    Meets start (Reached start []) step.run fun _ => Reached start [] := by
  cases step with
  | create target =>
      exact (putStore_meets .empty (.register target)).bind fun _ => .pure fun reached => reached
  | annotate ref entries =>
      refine (Meets.of_moves (annotate_moves entries)).bind fun annotations => ?_
      refine (Meets.of_moves (storeAt_moves ref)).bind fun store => ?_
      exact (putStore_meets _ ref).bind fun _ => .pure fun reached => reached
  | addCopy ref source =>
      refine (Meets.of_moves (storeAt_moves source)).bind fun store => ?_
      refine (Meets.of_moves (copyEntries_moves store)).bind fun copies => ?_
      refine (Meets.of_moves (storeAt_moves ref)).bind fun store => ?_
      exact (putStore_meets _ ref).bind fun _ => .pure fun reached => reached
  | get ref key => exact .of_moves (moves_bind (storeAt_moves ref) fun _ => moves_pure _)
  | remove ref key =>
      refine (Meets.of_moves (storeAt_moves ref)).bind fun store => ?_
      exact (putStore_meets _ ref).bind fun _ => .pure fun reached => reached
  | info ref => exact .of_moves (moves_bind (storeAt_moves ref) fun _ => moves_pure _)
  | equivalent left right =>
      exact .of_moves (moves_bind (storeAt_moves left) fun _ =>
        moves_bind (storeAt_moves right) fun _ => moves_pure _)
  | sameIntent left leftIndex right rightIndex =>
      refine .of_moves (moves_bind (storeAt_moves left) fun _ => ?_)
      refine moves_bind (reads_require _).moves fun _ => moves_bind (storeAt_moves right) fun _ => ?_
      exact moves_bind (reads_require _).moves fun _ => moves_pure _

theorem NodeStep.setType_meets (path : Path) (name : String) (target : Option String) :
    Meets start (Reached start []) (NodeStep.setType path name target).run
      fun _ => Reached start [] := by
  refine (takeOfKind_meets (moves_pure _) name []).bind fun type => ?_
  refine (Meets.of_moves (reads_nodeAt path).moves).bind fun _ => ?_
  refine (Meets.of_moves (requireThat_moves _)).bind fun _ => ?_
  refine (inNode_meets fun _ _ => InPlace.setType_changes).bind fun _ => ?_
  refine handOut_meets.bind fun previous => ?_
  refine (putNode?_meets target previous).bind fun _ => ?_
  refine .of_moves (moves_bind (reads_nodeAt path).moves fun _ => ?_)
  exact moves_bind (viewsOf_moves _) fun _ => moves_pure _

theorem NodeStep.run_meets (step : NodeStep) (acts : (Step.node step).asks = false)
    (keeps : (Step.node step).exchanges = false)
    (builds : (Step.node step).builds → start.rules.binding)
    (copies : (Step.node step).copies → start.rules.copying) :
    Meets start (Reached start []) step.run fun _ => Reached start [] := by
  cases step with
  | build plan target =>
      refine (building_meets plan.build_builds (builds rfl)).bind fun node => ?_
      exact (putNode_meets target node).bind fun _ => .of_moves (answerTree_moves node)
  | copy path target =>
      refine ((reads_nodeAt path).meets fun reached => reached).bind fun node => ?_
      have copied : Meets start (fun bench => Reached start [] bench ∧ bench.nodeAt? path = some node)
          (copying node.copy) fun copy => Reached start [copy] :=
        (copyNode_meets (copies rfl)).weaken fun ⟨reached, found⟩ =>
          ⟨reached, mem_nodes_of_nodeAt? found⟩
      refine copied.bind fun copy => ?_
      exact (putNode_meets target copy).bind fun _ => .of_moves (answerTree_moves copy)
  | query path query => exact absurd acts.symm Bool.false_ne_true
  | setName path name =>
      refine Meets.bind (modifyNode_meets fun node => ?_) fun _ => .pure fun reached => reached
      exact .label node name node.header.annotations
  | setResolver path resolver =>
      refine (resolvers_meets fun state => .declare state resolver).bind fun _ => ?_
      refine Meets.bind (modifyNode_meets fun node => ?_) fun _ => .pure fun reached => reached
      exact .inject node resolver
  | replaceHeader path name kind => exact absurd keeps.symm Bool.false_ne_true
  | edit path edit =>
      refine Meets.bind (modifyNode_meets fun node => .edit node edit) fun _ => .of_moves ?_
      exact moves_bind (reads_nodeAt path).moves fun _ => moves_bind get_moves fun _ => moves_pure _
  | setType path name target => exact setType_meets path name target
  | exchange path register => exact absurd keeps.symm Bool.false_ne_true

theorem Step.run_meets (step : Step) (acts : step.asks = false) (keeps : step.exchanges = false)
    (builds : step.builds → start.rules.binding) (copies : step.copies → start.rules.copying) :
    Meets start (fun bench => Reached start [] bench ∧ (start.rules.orderly → step.admissible bench))
      step.run fun _ => Reached start [] := by
  cases step with
  | resolver step => exact step.run_meets.weaken And.left
  | node step => exact (step.run_meets acts keeps builds copies).weaken And.left
  | compare step => exact absurd acts.symm Bool.false_ne_true
  | list step => exact step.run_meets keeps copies
  | parameter step => exact step.run_meets.weaken And.left
  | slot step => exact step.run_meets copies
  | store step => exact step.run_meets.weaken And.left
  | drop name =>
      refine Meets.weaken ?_ And.left
      refine Meets.bind (.modify fun reached => ?_) fun _ => .pure fun reached => reached
      exact reached.act (.erase name)

/-! ## Whole steps -/

namespace Workbench

variable {bench : Workbench} {step : Step}

theorem reading_of_asks (asks : step.asks) : Reading bench (bench.step step).2 := by
  cases step with
  | node step =>
      cases step with
      | query path query => exact query.run_looks bench path
      | _ => cases asks
  | compare step => exact step.run_looks bench
  | _ => cases asks

/-- Refused or not, a step that does not just ask or exchange things is a sequence of acts. Only when
it builds are nodes bound, and only when it copies are nodes copied. -/
theorem acts_of_step {orderly : Prop} (numbered : bench.Numbered)
    (account : orderly → bench.Account []) (acts : step.asks = false)
    (keeps : step.exchanges = false) (admissible : orderly → step.admissible bench) :
    Acts ⟨orderly, step.builds, step.copies⟩ ⟨[], bench⟩ ⟨[], (bench.step step).2⟩ := by
  have reached : Reached ⟨bench, orderly, step.builds, step.copies⟩ [] bench :=
    ⟨numbered, account, .refl⟩
  have meets : Meets ⟨bench, orderly, step.builds, step.copies⟩ _ step.run _ :=
    step.run_meets acts keeps (fun builds => builds) fun copies => copies
  cases hstep : (bench.step step).1 with
  | ok answer =>
      have returned : Returns step.run bench answer (bench.step step).2 := Prod.ext hstep rfl
      exact (meets.returned ⟨reached, admissible⟩ returned).acts
  | error reason =>
      have refused : Refuses step.run bench reason (bench.step step).2 := Prod.ext hstep rfl
      exact (meets.refused ⟨reached, admissible⟩ refused).acts

end Workbench

end DeclTree
