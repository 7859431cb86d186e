import DeclTree.Proofs.Acts.Steps
import DeclTree.Proofs.Ownership.Move

/-!
# Inserting many nodes at once

A range is checked as a whole before any of it is inserted, while nodes that are added one after the
other are checked and inserted in turn. Whether a node is taken depends on the node and on the owner
of the list only, so what was inserted before makes no difference: both ways take the same nodes, end
with the same list, and are refused because of the same node. They differ in what a refusal leaves
behind. The range leaves nothing.

Parameters are numbered after each insertion. So they are after an empty range, and this is the one
case in which a range does more than adding its nodes one by one.
-/

namespace DeclTree

open BenchM Workbench

/-! ## Lists -/

/-- Why a collection with this owner does not take the node. A collection of the node's own comes
before another owner. -/
def RefusedFor (owner : NodeId) (node : Node) (error : TreeError) : Prop :=
  node.id = owner ∧ error = .selfOwnership owner ∨
    node.id ≠ owner ∧ ∃ current, node.parent = some current ∧ error = .alreadyOwned node.id current

theorem checkInsertable_eq_error_iff {owner : NodeId} {node : Node} {error : TreeError} :
    checkInsertable owner node = .error error ↔ RefusedFor owner node error := by
  unfold checkInsertable RefusedFor
  by_cases self : node.id = owner
  · simp [self, eq_comm]
  · cases hparent : node.parent <;> simp [self, eq_comm]

/-- The first of the nodes that is not taken is not taken for this reason. -/
def FirstRefused (owner : NodeId) (nodes : List Node) (error : TreeError) : Prop :=
  ∃ before node after, nodes = before ++ node :: after ∧
    (∀ other ∈ before, other.id ≠ owner ∧ other.parent = none) ∧ RefusedFor owner node error

theorem firstRefused_cons {owner : NodeId} {node : Node} {nodes : List Node} {error : TreeError} :
    FirstRefused owner (node :: nodes) error ↔ RefusedFor owner node error ∨
      (node.id ≠ owner ∧ node.parent = none) ∧ FirstRefused owner nodes error := by
  constructor
  · rintro ⟨before, refused, after, split, taken, reason⟩
    cases before with
    | nil =>
        obtain ⟨rfl, -⟩ := List.cons.inj split
        exact .inl reason
    | cons first before =>
        obtain ⟨rfl, rfl⟩ := List.cons.inj split
        obtain ⟨here, rest⟩ := List.forall_mem_cons.mp taken
        exact .inr ⟨here, before, refused, after, rfl, rest, reason⟩
  · rintro (reason | ⟨here, before, refused, after, rfl, taken, reason⟩)
    · exact ⟨[], node, nodes, rfl, List.forall_mem_nil _, reason⟩
    · exact ⟨node :: before, refused, after, rfl, List.forall_mem_cons.mpr ⟨here, taken⟩, reason⟩

theorem forM_checkInsertable_eq_error_iff {owner : NodeId} {nodes : List Node} {error : TreeError} :
    nodes.forM (checkInsertable owner) = .error error ↔ FirstRefused owner nodes error := by
  induction nodes with
  | nil =>
      constructor
      · intro refused
        cases refused
      · rintro ⟨before, node, after, split, -⟩
        simp at split
  | cons node nodes ih =>
      have passed : (∃ done, checkInsertable owner node = .ok done) ↔
          node.id ≠ owner ∧ node.parent = none := by
        rw [← checkInsertable_eq_ok_iff]
        exact ⟨fun ⟨_, check⟩ => check, fun check => ⟨(), check⟩⟩
      rw [List.forM, except_bind_eq_error, firstRefused_cons, checkInsertable_eq_error_iff, ih,
        exists_and_right, passed]

namespace ChildList

theorem addRange_eq_error_iff {list : ChildList Node} {nodes : List Node} {error : TreeError} :
    list.addRange nodes = .error error ↔ FirstRefused list.owner nodes error := by
  rw [addRange, except_bind_eq_error, forM_checkInsertable_eq_error_iff]
  simp [pure, Except.pure]

/-- The first node of a range can be added before the others. -/
theorem addRange_cons (list : ChildList Node) (node : Node) (nodes : List Node) :
    list.addRange (node :: nodes) = list.add node >>= fun list => list.addRange nodes := by
  rw [addRange, add, List.forM]
  cases checkInsertable list.owner node with
  | error error => rfl
  | ok _ =>
      simp only [addRange, Except.bind, bind, pure, Except.pure, List.map_cons, List.append_assoc,
        List.singleton_append]

/-- A range is added like its nodes one after the other, and is refused like the first of them that
is refused. -/
theorem addRange_eq_foldlM (list : ChildList Node) (nodes : List Node) :
    list.addRange nodes = nodes.foldlM add list := by
  induction nodes generalizing list with
  | nil => simp [addRange, pure, Except.pure, bind, Except.bind]
  | cons node nodes ih =>
      rw [addRange_cons, List.foldlM_cons]
      congr 1
      funext list
      exact ih list

end ChildList

/-! ## Parameters -/

namespace Node

/-- Numbering twice comes to numbering at the end. -/
theorem renumber_append_renumber (list : ChildList Node) (more : List Node) :
    renumber ⟨list.owner, (renumber list).items ++ more⟩ =
      renumber ⟨list.owner, list.items ++ more⟩ := by
  simp [renumber, List.mapIdx_append, List.mapIdx_mapIdx, withOrdinal_withOrdinal,
    Function.comp_def]

section Parameters

variable {method : Node} {list : ChildList Node}

theorem addParameters_of_none (missing : method.list? .parameters = none) (parameters : List Node) :
    method.addParameters parameters = .ok method := by
  simp only [addParameters, editList, missing]

/-- A range is added to the parameters of a method in the same way whether or not they are numbered
before. -/
theorem addParameters_withParameters (found : method.list? .parameters = some list)
    (into : ChildList Node) (parameters : List Node) :
    (method.withParameters into).addParameters parameters =
      (into.addRange parameters).map method.withParameters := by
  have there : (method.withParameters into).list? .parameters = some (renumber into) :=
    list?_setList _ found
  have owner : (renumber into).owner = into.owner := rfl
  rw [addParameters_eq there, ChildList.addRange, ChildList.addRange, owner]
  cases parameters.forM (checkInsertable into.owner) with
  | error error => rfl
  | ok _ =>
      refine congrArg Except.ok ?_
      rw [withParameters, withParameters, withParameters, setList_setList]
      congr 1
      exact renumber_append_renumber into _

/-- The first parameter of a range can be added before the others. -/
theorem addParameters_cons (method parameter : Node) (parameters : List Node) :
    method.addParameters (parameter :: parameters) =
      method.addParameter parameter >>= fun method => method.addParameters parameters := by
  cases found : method.list? .parameters with
  | none =>
      have added : method.addParameter parameter = .ok method := by
        simp only [addParameter, editList, found]
      rw [added, addParameters_of_none found]
      exact (addParameters_of_none found parameters).symm
  | some list =>
      rw [addParameters_eq found, addParameter_eq found, ChildList.addRange_cons]
      cases list.add parameter with
      | error error => rfl
      | ok into => exact (addParameters_withParameters found into parameters).symm

theorem addParameters_nil (found : method.list? .parameters = some list) :
    method.addParameters [] = .ok (method.withParameters list) := by
  rw [addParameters_eq found, ChildList.addRange_eq_foldlM]
  rfl

/-- Once a parameter was added, the parameters are numbered and an empty range changes nothing. -/
theorem addParameters_nil_of_addParameter {method' parameter : Node}
    (added : method.addParameter parameter = .ok method') :
    method'.addParameters [] = .ok method' := by
  cases found : method.list? .parameters with
  | none =>
      simp only [addParameter, editList, found] at added
      obtain rfl := Except.ok.inj added
      exact addParameters_of_none found []
  | some list =>
      rw [addParameter_eq found] at added
      obtain ⟨into, -, rfl⟩ := except_map_eq_ok.mp added
      rw [addParameters_withParameters found, ChildList.addRange_eq_foldlM]
      rfl

/-- From a method that an empty range leaves alone, a range is added like its parameters one after
the other. -/
theorem addParameters_eq_foldlM_of_nil (settled : method.addParameters [] = .ok method)
    (parameters : List Node) :
    method.addParameters parameters = parameters.foldlM addParameter method := by
  induction parameters generalizing method with
  | nil => exact settled
  | cons parameter parameters ih =>
      rw [addParameters_cons, List.foldlM_cons]
      cases added : method.addParameter parameter with
      | error error => rfl
      | ok method' => exact ih (addParameters_nil_of_addParameter added)

theorem addParameters_eq_foldlM {parameters : List Node} (some : parameters ≠ []) :
    method.addParameters parameters = parameters.foldlM addParameter method := by
  cases parameters with
  | nil => contradiction
  | cons parameter parameters =>
      rw [addParameters_cons, List.foldlM_cons]
      cases added : method.addParameter parameter with
      | error error => rfl
      | ok method' =>
          exact addParameters_eq_foldlM_of_nil (addParameters_nil_of_addParameter added) parameters

/-- An empty range leaves exactly those methods alone whose parameters are numbered. -/
theorem addParameters_nil_eq_self_iff (wellFormed : method.WellFormed) :
    method.addParameters [] = .ok method ↔ method.Numbered := by
  have nodup := wellFormed.shaped.nodup_places
  cases found : method.list? .parameters with
  | none =>
      refine iff_of_true (addParameters_of_none found []) (numbered_of_eq_nil ?_)
      rw [itemsIn, found]
      rfl
  | some list =>
      have kinds : ∀ parameter ∈ list.items, parameter.kind = .parameter := fun parameter there =>
        wellFormed.sorted _ (mem_branches_of_list? found) parameter there .parameter rfl
      have numbered : method.Numbered ↔ renumber list = list := by
        rw [renumber_eq_self_iff kinds, Numbered, itemsIn_of_list? found]
      rw [addParameters_nil found, Except.ok.injEq, numbered]
      constructor
      · intro same
        have there : (method.withParameters list).list? .parameters = some (renumber list) :=
          list?_setList _ found
        rw [same, found] at there
        exact (Option.some.inj there).symm
      · intro same
        rw [withParameters, same]
        exact setList_self nodup found

/-- Only an empty range does more than its parameters one by one, and only if they are not numbered. -/
theorem addParameters_eq_foldlM_iff (wellFormed : method.WellFormed) (parameters : List Node) :
    method.addParameters parameters = parameters.foldlM addParameter method ↔
      parameters ≠ [] ∨ method.Numbered := by
  cases parameters with
  | nil =>
      have alone : method.addParameters [] = [].foldlM addParameter method ↔ method.Numbered :=
        addParameters_nil_eq_self_iff wellFormed
      rw [alone]
      simp
  | cons parameter parameters =>
      exact iff_of_true (addParameters_eq_foldlM (List.cons_ne_nil _ _))
        (.inl (List.cons_ne_nil _ _))

theorem places_addParameter {method' parameter : Node}
    (added : method.addParameter parameter = .ok method') : method'.places = method.places := by
  cases found : method.list? .parameters with
  | none =>
      simp only [addParameter, editList, found] at added
      rw [Except.ok.inj added]
  | some list =>
      rw [addParameter_eq found] at added
      obtain ⟨into, -, rfl⟩ := except_map_eq_ok.mp added
      rw [withParameters, places, setList_branches, List.map_map]
      refine List.map_congr_left fun branch _ => ?_
      by_cases here : branch.place = .list .parameters
      · simp only [Function.comp_apply, here]
        rfl
      · simp only [Function.comp_apply, if_neg here]

end Parameters

end Node

/-! ## Insertions in place -/

theorem allOrNothing_map_inj {ε σ : Type} {s : σ} {first second : Except ε σ} :
    allOrNothing s (first.map ((), ·)) = allOrNothing s (second.map ((), ·)) ↔ first = second := by
  cases first <;> cases second <;> simp [allOrNothing, Except.map]

namespace InPlace

theorem addRange_eq_atomically (nodes : List Node) :
    addRange nodes = atomically (nodes.forM add) := by
  funext list
  have single := completed_forM (P := fun _ => True) (fun node list _ => outcome_add node list)
    (fun _ _ _ _ _ => trivial) nodes (s := list) trivial
  refine (outcome_addRange nodes list).trans ?_
  rw [ChildList.addRange_eq_foldlM, ← single]
  rfl

/-- Nodes that are added one by one stay in the list if a later one is refused. -/
theorem outcome_forM_add_refused {before after : List Node} {node : Node} {list : ChildList Node}
    {error : TreeError} (taken : ∀ other ∈ before, other.id ≠ list.owner ∧ other.parent = none)
    (reason : RefusedFor list.owner node error) :
    outcome ((before ++ node :: after).forM add) list =
      (.error error, { list with items := list.items ++ before.map (Node.withParent list.owner) }) := by
  induction before generalizing list with
  | nil =>
      have refused : list.add node = .error error := by
        rw [ChildList.add, checkInsertable_eq_error_iff.mpr reason]
        rfl
      rw [List.nil_append, List.forM, outcome_bind, outcome_add, refused, List.map_nil,
        List.append_nil]
      rfl
  | cons first before ih =>
      obtain ⟨here, rest⟩ := List.forall_mem_cons.mp taken
      have added : list.add first =
          .ok { list with items := list.items ++ [first.withParent list.owner] } := by
        rw [ChildList.add, checkInsertable_eq_ok_iff.mpr here]
        rfl
      rw [List.cons_append, List.forM, outcome_bind, outcome_add, added]
      have later : outcome ((before ++ node :: after).forM add)
          { list with items := list.items ++ [first.withParent list.owner] } = _ := ih rest reason
      refine later.trans ?_
      rw [List.append_assoc, List.map_cons, List.singleton_append]

theorem outcome_addParameters_eq_atomically_iff {method : Node} (wellFormed : method.WellFormed)
    (parameters : List Node) :
    outcome (addParameters parameters) method =
        outcome (atomically (parameters.forM addParameter)) method ↔
      parameters ≠ [] ∨ method.Numbered := by
  have nodup := wellFormed.shaped.nodup_places
  have single : completed (parameters.forM addParameter) method =
      (parameters.foldlM Node.addParameter method).map ((), ·) := by
    refine completed_forM (P := fun node => node.places.Nodup)
      (fun parameter node nodup => outcome_addParameter nodup parameter)
      (fun parameter node node' nodup added => ?_) parameters nodup
    rwa [Node.places_addParameter added]
  rw [outcome_addParameters nodup, outcome_atomically, single, allOrNothing_map_inj]
  exact Node.addParameters_eq_foldlM_iff wellFormed parameters

theorem outcome_tryAdd_refused_iff {node item : Node} {list list' : ChildList Node}
    {error : TreeError} :
    outcome (tryAdd node) list = (.error (error, item), list') ↔
      item = node ∧ list' = list ∧ list.add node = .error error := by
  rw [outcome_tryAdd, ChildList.tryAdd]
  cases list.add node <;> simp [allOrNothing, Except.map, eq_comm, and_comm, and_assoc]

theorem outcome_trySet_refused_iff {node item : Node} {slot slot' : ChildSlot Node}
    {error : TreeError} :
    outcome (trySet node) slot = (.error (error, item), slot') ↔
      item = node ∧ slot' = slot ∧ slot.set node = .error error := by
  rw [outcome_trySet, ChildSlot.trySet]
  cases slot.set node <;> simp [allOrNothing, eq_comm, and_comm, and_assoc]

end InPlace

/-! ## Refusals on the workbench -/

namespace Workbench

variable {bench bench' : Workbench} {names : List String}

/-- Nodes that were taken one after the other were there from the start. -/
theorem takenOff_of_threads {take : String → BenchM Node} {nodes : List Node}
    (takes : ∀ {name node bench bench'}, Returns (take name) bench node bench' →
      bench.items.get? name = some (.node node) ∧
        bench' = { bench with items := bench.items.erase name })
    (h : Threads take names bench nodes bench') :
    bench.Offers names nodes ∧ TakenOff names bench bench' := by
  induction h with
  | nil bench => exact ⟨.nil, .refl bench⟩
  | @cons name _ _ _ before _ _ first _ ih =>
      obtain ⟨found, rfl⟩ := takes first
      obtain ⟨offered, rest⟩ := ih
      have taken := takenOff_erase before name
      refine ⟨.cons found (offered.imp fun name node there => ?_), taken.trans rest⟩
      rwa [taken.get?_eq (taken.not_mem there)] at there

end Workbench

section Refusing

variable {bench bench' : Workbench} {error : TreeError} {kind : BenchM Kind}
  {kind? : Workbench → Option Kind}

/-- Nodes are taken off the workbench and inserted as a range. If trees refuse, the insertion was
refused after the nodes had been taken off. -/
theorem insertAll_refused {α : Type} {insert : List Node → BenchM (Except TreeError Unit)}
    {next : BenchM α} (reads : Reads kind kind?) (allowed : ∀ nodes, TreesAllow (insert nodes))
    (rest : TreesAllow next) {names : List String}
    (h : Refuses (do
      let nodes ← names.mapM (takeOfKind kind)
      ofTree (← insert nodes)
      next) bench (.tree error) bench') :
    ∃ nodes bench₁, bench.Offers names nodes ∧ TakenOff names bench bench₁ ∧
      Returns (insert nodes) bench₁ (.error error) bench' := by
  obtain ⟨nodes, bench₁, taken, h⟩ :=
    (TreesAllow.mapM (TreesAllow.takeOfKind (.of_reads reads)) names).refused_bind h
  obtain ⟨offered, taken⟩ := takenOff_of_threads (fun took => (returned_takeOfKind reads took).1)
    (returns_mapM.mp taken)
  obtain ⟨result, bench₂, inserted, h⟩ := (allowed nodes).refused_bind h
  obtain ⟨rfl, rfl⟩ := ofTree_refused_bind (fun _ => rest) h
  exact ⟨nodes, bench₁, offered, taken, inserted⟩

/-- A range that a list refuses is lost, and the list is as it was. -/
theorem ListStep.addRange_refused {path : ListPath} {names : List String}
    (shaped : ∀ node ∈ bench.nodes, node.Shaped)
    (h : Refuses (ListStep.addRange path names).run bench (.tree error) bench') :
    TakenOff names bench bench' ∧ ∃ kind list nodes, bench.listAt? path = some (kind, list) ∧
      bench'.listAt? path = some (kind, list) ∧ bench.Offers names nodes ∧
        list.addRange nodes = .error error := by
  obtain ⟨nodes, bench₁, offered, taken, refused⟩ :=
    insertAll_refused (reads_kindOf path) (fun _ => .inList path _) (.answerList path) h
  obtain ⟨kind, list, found, ended, rewrites⟩ := returned_inList refused
  rw [InPlace.outcome_addRange] at ended rewrites
  cases added : list.addRange nodes with
  | ok list' =>
      rw [added] at ended
      cases ended
  | error reason =>
      rw [added] at ended rewrites
      cases ended
      have restored := rewrites.restored (taken.shaped shaped)
      exact ⟨taken.written restored, kind, list, nodes, taken.listAt?_eq found,
        (restored.listAt?_eq path).trans found, offered, added⟩

/-- Parameters that a method refuses are lost, and the method is as it was. -/
theorem ParameterStep.addAll_refused {path : Path} {names : List String}
    (shaped : ∀ node ∈ bench.nodes, node.Shaped)
    (h : Refuses (ParameterStep.addAll path names).run bench (.tree error) bench') :
    TakenOff names bench bench' ∧ ∃ method nodes, bench.nodeAt? path = some method ∧
      bench'.nodeAt? path = some method ∧ bench.Offers names nodes ∧
        method.addParameters nodes = .error error := by
  obtain ⟨nodes, bench₁, offered, taken, refused⟩ :=
    insertAll_refused (reads_pure _) (fun _ => .inNode path _)
      (.bind (.parametersAt path) fun _ => .pure _) h
  have shaped := taken.shaped shaped
  obtain ⟨method, ended, rewrites⟩ := returned_inNode refused
  have nodup := (shaped method (mem_nodes_of_nodeAt? rewrites.found)).nodup_places
  rw [InPlace.outcome_addParameters nodup] at ended rewrites
  cases added : method.addParameters nodes with
  | ok method' =>
      rw [added] at ended
      cases ended
  | error reason =>
      rw [added] at ended rewrites
      cases ended
      have restored := rewrites.restored shaped
      exact ⟨taken.written restored, method, nodes, taken.nodeAt?_eq rewrites.found,
        rewrites.left, offered, added⟩

/-- A node is taken off the workbench to be inserted. If trees refuse, the insertion has handed it
back, and it is put where it was. -/
theorem tryInsert_refused {α β : Type} {name : String}
    {insert : Node → BenchM (Except (TreeError × Node) β)} {next : β → BenchM α}
    (reads : Reads kind kind?) (allowed : ∀ node, TreesAllow (insert node))
    (rest : ∀ b, TreesAllow (next b))
    (h : Refuses (do
      let node ← takeOfKind kind name
      next (← orPutBack name (← insert node))) bench (.tree error) bench') :
    ∃ node item bench₁, bench.items.get? name = some (.node node) ∧
      Returns (insert node) { bench with items := bench.items.erase name } (.error (error, item)) bench₁ ∧
        bench' = bench₁.place name (.node item) := by
  obtain ⟨node, bench₁, taken, h⟩ := (TreesAllow.takeOfKind (.of_reads reads) name).refused_bind h
  obtain ⟨⟨found, rfl⟩, -⟩ := returned_takeOfKind reads taken
  obtain ⟨result, bench₂, inserted, h⟩ := (allowed node).refused_bind h
  rcases refuses_bind.mp h with refused | ⟨b, _, -, refused⟩
  · rcases result with ⟨reason, item⟩ | b
    · obtain ⟨_, _, put, thrown⟩ := (TreesAllow.put name (.node item)).refused_bind refused
      obtain ⟨-, rfl⟩ := Prod.mk.inj put
      obtain ⟨same, rfl⟩ := refuses_throw.mp thrown
      obtain rfl := Refusal.tree.inj same
      exact ⟨node, item, bench₂, found, inserted, rfl⟩
    · exact absurd refused not_refuses_pure
  · exact absurd refused (rest b _ _ _)

/-- A node that a list refuses is put back, and the list is as it was. -/
theorem ListStep.tryAdd_refused {path : ListPath} {name : String}
    (shaped : ∀ node ∈ bench.nodes, node.Shaped)
    (h : Refuses (ListStep.tryAdd path name).run bench (.tree error) bench') :
    Restored bench bench' ∧ ∃ kind list node, bench.listAt? path = some (kind, list) ∧
      bench.items.get? name = some (.node node) ∧ list.add node = .error error := by
  obtain ⟨node, item, bench₁, found, refused, rfl⟩ :=
    tryInsert_refused (reads_kindOf path) (fun _ => .inList path _) (fun _ => .answerList path) h
  have taken := takenOff_erase bench name
  obtain ⟨kind, list, there, ended, rewrites⟩ := returned_inList refused
  rcases tried : outcome (InPlace.tryAdd node) list with ⟨result, list'⟩
  rw [tried] at ended rewrites
  cases ended
  obtain ⟨rfl, rfl, refusal⟩ := InPlace.outcome_tryAdd_refused_iff.mp tried
  have restored := rewrites.restored (taken.shaped shaped)
  exact ⟨(taken.written restored).restored (by simp) found, kind, list', item,
    taken.listAt?_eq there, found, refusal⟩

/-- A node that a slot refuses is put back, and the slot is as it was. -/
theorem SlotStep.trySet_refused {name itemName : String} {target : Option String}
    (h : Refuses (SlotStep.trySet name itemName target).run bench (.tree error) bench') :
    Restored bench bench' ∧ ∃ kind slot node, bench.items.get? name = some (.slot kind slot) ∧
      bench.items.get? itemName = some (.node node) ∧ slot.set node = .error error := by
  have rest : ∀ previous, TreesAllow (do
      let slot := (← slotNamed name).2
      putNode? target previous
      return Answer.slotSet previous slot) := fun previous =>
    .bind (.of_reads (reads_slotNamed name)) fun _ => .bind (.putNode? target previous) fun _ => .pure _
  obtain ⟨node, item, bench₁, found, refused, rfl⟩ :=
    tryInsert_refused (reads_kindOfSlot name) (fun _ => .inSlot name _) rest h
  have taken := takenOff_erase bench itemName
  obtain ⟨kind, slot, there, ended, rfl⟩ := returned_inSlot refused
  rcases tried : outcome (InPlace.trySet node) slot with ⟨result, slot'⟩
  rw [tried] at ended
  cases ended
  obtain ⟨rfl, rfl, refusal⟩ := InPlace.outcome_trySet_refused_iff.mp tried
  have restored := restored_place there
  refine ⟨(taken.written restored).restored (by simp) found, kind, slot', item, ?_, found, refusal⟩
  rw [← taken.get?_eq (taken.not_mem there), there]

end Refusing

/-- A range is added to a list like its nodes one after the other, with the same list at the end or
the same refusal, which is that of the first node refused. So are parameters to a method, except that
an empty range still numbers them. A refused range leaves the list or the method as it was, wherever
the refused node stands, while nodes that are added one by one stay. A single node that is refused
comes back unchanged. -/
theorem range_is_added_like_single_nodes :
    (∀ (list : ChildList Node) (nodes : List Node),
      list.addRange nodes = nodes.foldlM ChildList.add list ∧
      (∀ error, list.addRange nodes = .error error ↔ FirstRefused list.owner nodes error) ∧
      outcome (InPlace.addRange nodes) list =
        allOrNothing list ((list.addRange nodes).map ((), ·))) ∧
    (∀ nodes : List Node,
      InPlace.addRange nodes = InPlace.atomically (nodes.forM InPlace.add)) ∧
    (∀ (list : ChildList Node) (before after : List Node) (node : Node) (error : TreeError),
      (∀ other ∈ before, other.id ≠ list.owner ∧ other.parent = none) →
      RefusedFor list.owner node error →
        outcome (InPlace.addRange (before ++ node :: after)) list = (.error error, list) ∧
        outcome ((before ++ node :: after).forM InPlace.add) list = (.error error,
          { list with items := list.items ++ before.map (Node.withParent list.owner) })) ∧
    (∀ (method : Node) (parameters : List Node), method.WellFormed →
      (method.addParameters parameters = parameters.foldlM Node.addParameter method ↔
        parameters ≠ [] ∨ method.Numbered) ∧
      outcome (InPlace.addParameters parameters) method =
        allOrNothing method ((method.addParameters parameters).map ((), ·)) ∧
      (outcome (InPlace.addParameters parameters) method =
          outcome (InPlace.atomically (parameters.forM InPlace.addParameter)) method ↔
        parameters ≠ [] ∨ method.Numbered)) ∧
    (∀ (method : Node) (list : ChildList Node), method.list? .parameters = some list →
      method.addParameters [] = .ok (method.withParameters list)) ∧
    (∀ (list list' : ChildList Node) (node item : Node) (error : TreeError),
      outcome (InPlace.tryAdd node) list = (.error (error, item), list') ↔
        item = node ∧ list' = list ∧ list.add node = .error error) ∧
    (∀ (slot slot' : ChildSlot Node) (node item : Node) (error : TreeError),
      outcome (InPlace.trySet node) slot = (.error (error, item), slot') ↔
        item = node ∧ slot' = slot ∧ slot.set node = .error error) ∧
    ∀ (bench bench' : Workbench) (error : TreeError), (∀ node ∈ bench.nodes, node.Shaped) →
      (∀ path names, Refuses (ListStep.addRange path names).run bench (.tree error) bench' →
        TakenOff names bench bench' ∧ ∃ kind list nodes, bench.listAt? path = some (kind, list) ∧
          bench'.listAt? path = some (kind, list) ∧ bench.Offers names nodes ∧
            list.addRange nodes = .error error) ∧
      (∀ path names, Refuses (ParameterStep.addAll path names).run bench (.tree error) bench' →
        TakenOff names bench bench' ∧ ∃ method nodes, bench.nodeAt? path = some method ∧
          bench'.nodeAt? path = some method ∧ bench.Offers names nodes ∧
            method.addParameters nodes = .error error) ∧
      (∀ path name, Refuses (ListStep.tryAdd path name).run bench (.tree error) bench' →
        Restored bench bench' ∧ ∃ kind list node, bench.listAt? path = some (kind, list) ∧
          bench.items.get? name = some (.node node) ∧ list.add node = .error error) ∧
      ∀ name itemName target,
        Refuses (SlotStep.trySet name itemName target).run bench (.tree error) bench' →
          Restored bench bench' ∧ ∃ kind slot node,
            bench.items.get? name = some (.slot kind slot) ∧
            bench.items.get? itemName = some (.node node) ∧ slot.set node = .error error := by
  refine ⟨fun list nodes => ⟨list.addRange_eq_foldlM nodes, fun error => ?_, ?_⟩, ?_, ?_, ?_, ?_,
    ?_, ?_, ?_⟩
  · exact ChildList.addRange_eq_error_iff
  · exact InPlace.outcome_addRange nodes list
  · exact InPlace.addRange_eq_atomically
  · intro list before after node error taken reason
    refine ⟨?_, InPlace.outcome_forM_add_refused taken reason⟩
    have refused : list.addRange (before ++ node :: after) = .error error :=
      ChildList.addRange_eq_error_iff.mpr ⟨before, node, after, rfl, taken, reason⟩
    rw [InPlace.outcome_addRange, refused]
    rfl
  · intro method parameters wellFormed
    exact ⟨Node.addParameters_eq_foldlM_iff wellFormed parameters,
      InPlace.outcome_addParameters wellFormed.shaped.nodup_places parameters,
      InPlace.outcome_addParameters_eq_atomically_iff wellFormed parameters⟩
  · exact fun method list found => Node.addParameters_nil found
  · exact fun list list' node item error => InPlace.outcome_tryAdd_refused_iff
  · exact fun slot slot' node item error => InPlace.outcome_trySet_refused_iff
  · intro bench bench' error shaped
    exact ⟨fun path names => ListStep.addRange_refused shaped,
      fun path names => ParameterStep.addAll_refused shaped,
      fun path name => ListStep.tryAdd_refused shaped,
      fun name itemName target => SlotStep.trySet_refused⟩

/-- A parameter outside of any list. -/
def sampleLoose (number : Nat) : Node :=
  Node.ofHeader { id := ⟨number⟩, name := "p", handle := .synthetic "parameter" } (.parameter {})

/-- A list, a slot and a method, all of which the second of two parameters owns, and the two. -/
def sampleTable : Workbench :=
  { items := ⟨[("list", .list .parameter (sampleMembers 1 [2])),
      ("slot", .slot .parameter ⟨⟨1⟩, some (sampleLoose 3)⟩),
      ("method", .node (sampleSignature 1 [4])), ("first", .node (sampleLoose 5)),
      ("second", .node (sampleLoose 1))]⟩ }

/-- The second node of a range has another owner and the third owns the list, so the second decides. If
a node owns the list, the one before it is left out of the range but stays if it was added alone. Two
parameters are numbered as they come. On the workbench the second parameter is refused by what it
owns, wherever it stands. -/
theorem range_is_added_like_single_nodes_of_samples :
    FirstRefused ⟨1⟩ [sampleLoose 5, (sampleLoose 6).withParent (some ⟨9⟩), sampleLoose 1]
      (.alreadyOwned ⟨6⟩ ⟨9⟩) ∧
    (outcome (InPlace.addRange [sampleLoose 5, sampleLoose 1]) (sampleMembers 1 [2]) =
        (.error (.selfOwnership ⟨1⟩), sampleMembers 1 [2]) ∧
      (outcome ([sampleLoose 5, sampleLoose 1].forM InPlace.add)
        (sampleMembers 1 [2])).2.items.map Node.id = [⟨2⟩, ⟨5⟩]) ∧
    (∃ method, [sampleLoose 5, sampleLoose 6].foldlM Node.addParameter (sampleSignature 1 [4]) =
      .ok method ∧ (method.itemsIn .parameters).map Node.ordinal? = [some 0, some 1, some 2]) ∧
    (∃ bench', Refuses (ListStep.addRange (.register "list") ["first", "second"]).run sampleTable
        (.tree (.selfOwnership ⟨1⟩)) bench' ∧ TakenOff ["first", "second"] sampleTable bench' ∧
      bench'.listAt? (.register "list") = sampleTable.listAt? (.register "list")) ∧
    (∃ bench', Refuses (ParameterStep.addAll ⟨"method", []⟩ ["first", "second"]).run sampleTable
        (.tree (.selfOwnership ⟨1⟩)) bench' ∧ TakenOff ["first", "second"] sampleTable bench' ∧
      bench'.nodeAt? ⟨"method", []⟩ = sampleTable.nodeAt? ⟨"method", []⟩) ∧
    (∃ bench', Refuses (ListStep.tryAdd (.register "list") "second").run sampleTable
      (.tree (.selfOwnership ⟨1⟩)) bench' ∧ Restored sampleTable bench') ∧
    ∃ bench', Refuses (SlotStep.trySet "slot" "second" none).run sampleTable
      (.tree (.selfOwnership ⟨1⟩)) bench' ∧ Restored sampleTable bench' := by
  obtain ⟨lists, -, refusals, methods, -, -, -, workbench⟩ := range_is_added_like_single_nodes
  have shaped : ∀ node ∈ sampleTable.nodes, node.Shaped := by decide +kernel
  refine ⟨?_, ?_, ?_, ?_, ?_, ?_, ?_⟩
  · exact ((lists (sampleMembers 1 [2]) _).2.1 _).mp rfl
  · obtain ⟨range, single⟩ := refusals (sampleMembers 1 [2]) [sampleLoose 5] [] (sampleLoose 1)
      (.selfOwnership ⟨1⟩) (by decide) (.inl ⟨rfl, rfl⟩)
    exact ⟨range, by rw [List.singleton_append] at single; rw [single]; decide⟩
  · have added := ((methods (sampleSignature 1 [4]) [sampleLoose 5, sampleLoose 6]
      (by decide +kernel)).1).mpr (.inl (List.cons_ne_nil _ _))
    exact ⟨_, added.symm.trans rfl, by decide +kernel⟩
  · have refused : Refuses (ListStep.addRange (.register "list") ["first", "second"]).run sampleTable
        (.tree (.selfOwnership ⟨1⟩)) _ := rfl
    obtain ⟨taken, _, _, _, before, after, -⟩ := (workbench _ _ _ shaped).1 _ _ refused
    exact ⟨_, refused, taken, after.trans before.symm⟩
  · have refused : Refuses (ParameterStep.addAll ⟨"method", []⟩ ["first", "second"]).run sampleTable
        (.tree (.selfOwnership ⟨1⟩)) _ := rfl
    obtain ⟨taken, _, _, before, after, -⟩ := (workbench _ _ _ shaped).2.1 _ _ refused
    exact ⟨_, refused, taken, after.trans before.symm⟩
  · have refused : Refuses (ListStep.tryAdd (.register "list") "second").run sampleTable
        (.tree (.selfOwnership ⟨1⟩)) _ := rfl
    exact ⟨_, refused, ((workbench _ _ _ shaped).2.2.1 _ _ refused).1⟩
  · have refused : Refuses (SlotStep.trySet "slot" "second" none).run sampleTable
        (.tree (.selfOwnership ⟨1⟩)) _ := rfl
    exact ⟨_, refused, ((workbench _ _ _ shaped).2.2.2 _ _ _ refused).1⟩

/-- A method with two parameters, the second of which is exchanged for another in place. -/
def sampleExchange : List Step :=
  [.node (.build (.method
      { header := { name := "F" }
        parameters := [{ header := { name := "a" } }, { header := { name := "b" } }] }) "method"),
    .node (.build (.parameter { header := { name := "c" } }) "other"),
    .node (.exchange ⟨"method", [.members .parameters, .index 1]⟩ "other")]

/-- After the exchange two parameters have ordinal zero. Adding none of a range one by one leaves it at
that, and adding the empty range does not. -/
theorem empty_range_numbers_exchanged_parameters :
    ∃ method, (({} : Workbench).run sampleExchange).2.nodeAt? ⟨"method", []⟩ = some method ∧
      method.Catalog ∧ method.kind = .method ∧
      (method.itemsIn .parameters).map Node.ordinal? = [some 0, some 0] ∧
      method.addParameters [] ≠ [].foldlM Node.addParameter method := by
  refine ⟨_, rfl, by decide +kernel, rfl, by decide +kernel, fun same => ?_⟩
  have ordinals := congrArg (fun result => result.toOption.map fun method =>
    (method.itemsIn .parameters).map Node.ordinal?) same
  revert ordinals
  decide +kernel

end DeclTree
