import DeclTree.Node.InPlace
import DeclTree.Proofs.Ordinals.Numbered

/-!
# All or nothing in place

An operation in place writes only once all its checks have passed. So it comes to a function that
gives a new collection or a refusal, and a refusal leaves the collection as it was.
-/

namespace DeclTree

variable {ε σ τ α : Type}

/-- How something ends that is done as a whole. Refused, it leaves the state as it was. -/
def allOrNothing (s : σ) : Except ε (α × σ) → Except ε α × σ
  | .ok (a, s') => (.ok a, s')
  | .error e => (.error e, s)

namespace InPlace

/-- How the operation ends if what it leaves behind when refused is of no interest. -/
def completed (run : InPlace ε σ α) (s : σ) : Except ε (α × σ) :=
  match outcome run s with
  | (.ok a, s') => .ok (a, s')
  | (.error e, _) => .error e

/-- The operation as a whole: what it has written is taken back if it is refused. -/
def atomically (run : InPlace ε σ α) : InPlace ε σ α := fun s => allOrNothing s (completed run s)

theorem outcome_atomically (run : InPlace ε σ α) (s : σ) :
    outcome (atomically run) s = allOrNothing s (completed run s) := rfl

theorem completed_of_outcome {run : InPlace ε σ α} {s : σ} {result : Except ε (α × σ)}
    (h : outcome run s = allOrNothing s result) : completed run s = result := by
  rw [completed, h]
  cases result <;> rfl

theorem completed_bind {β : Type} (run : InPlace ε σ α) (next : α → InPlace ε σ β) (s : σ) :
    completed (run >>= next) s =
      completed run s >>= fun result => completed (next result.1) result.2 := by
  rw [completed, outcome_bind, completed]
  rcases outcome run s with ⟨_ | a, s'⟩ <;> rfl

/-- Operations one after the other come to the functions one after the other, as long as each comes
to its function. -/
theorem completed_forM {β : Type} {step : β → InPlace ε σ Unit} {f : σ → β → Except ε σ}
    {P : σ → Prop}
    (steps : ∀ b s, P s → outcome (step b) s = allOrNothing s ((f s b).map ((), ·)))
    (keeps : ∀ b s s', P s → f s b = .ok s' → P s') (bs : List β) {s : σ} (h : P s) :
    completed (bs.forM step) s = (bs.foldlM f s).map ((), ·) := by
  induction bs generalizing s with
  | nil => rfl
  | cons b bs ih =>
      rw [List.forM, completed_bind, completed_of_outcome (steps b s h), List.foldlM_cons]
      cases changed : f s b with
      | error e => rfl
      | ok s' => exact ih (keeps b s s' h changed)

theorem outcome_get_bind (next : σ → InPlace ε σ α) (s : σ) :
    outcome (get >>= next) s = outcome (next s) s := rfl

theorem outcome_within (part : τ) (write : τ → σ → σ) (run : InPlace ε τ α) (s : σ) :
    outcome (within part write run) s =
      ((outcome run part).1, write (outcome run part).2 s) := rfl

theorem outcome_adapt {ε' : Type} (f : ε → ε') (run : InPlace ε σ α) (s : σ) :
    outcome (run.adapt f) s = ((outcome run s).1.mapError f, (outcome run s).2) := rfl

/-! ## Lists and slots -/

theorem outcome_tryAdd (node : Node) (list : ChildList Node) :
    outcome (tryAdd node) list = allOrNothing list ((list.tryAdd node).map ((), ·)) := by
  rw [tryAdd, outcome_get_bind, ChildList.tryAdd, ChildList.add]
  cases checkInsertable list.owner node <;> rfl

theorem outcome_add (node : Node) (list : ChildList Node) :
    outcome (add node) list = allOrNothing list ((list.add node).map ((), ·)) := by
  rw [add, outcome_adapt, outcome_tryAdd, ChildList.tryAdd]
  cases list.add node <;> rfl

theorem outcome_forM_check (nodes : List Node) (list : ChildList Node) :
    outcome (nodes.forM check) list = (nodes.forM (checkInsertable list.owner), list) := by
  induction nodes with
  | nil => rfl
  | cons node nodes ih =>
      have first : outcome (check node) list = (checkInsertable list.owner node, list) := rfl
      rw [List.forM, outcome_bind, first, List.forM]
      cases checkInsertable list.owner node with
      | error error => rfl
      | ok _ => exact ih

theorem outcome_forM_push (nodes : List Node) (list : ChildList Node) :
    outcome (nodes.forM push : InPlace ε (ChildList Node) Unit) list =
      (.ok (), { list with items := list.items ++ nodes.map (Node.withParent list.owner) }) := by
  induction nodes generalizing list with
  | nil =>
      rw [List.map_nil, List.append_nil]
      rfl
  | cons node nodes ih =>
      rw [List.forM, outcome_bind]
      refine (ih { list with items := list.items ++ [node.withParent list.owner] }).trans ?_
      rw [List.append_assoc, List.map_cons, List.singleton_append]

theorem outcome_addRange (nodes : List Node) (list : ChildList Node) :
    outcome (addRange nodes) list = allOrNothing list ((list.addRange nodes).map ((), ·)) := by
  rw [addRange, outcome_bind, outcome_forM_check, ChildList.addRange]
  cases nodes.forM (checkInsertable list.owner) with
  | error error => rfl
  | ok _ => exact outcome_forM_push nodes list

theorem outcome_remove (id : NodeId) (list : ChildList Node) :
    outcome (remove id : InPlace ε (ChildList Node) (Option Node)) list =
      (.ok ((list.remove? id).map Prod.fst), ((list.remove? id).map Prod.snd).getD list) := by
  rw [remove, outcome_get_bind, ChildList.remove?]
  cases list.find? id <;> rfl

theorem outcome_moveTo (id : NodeId) (source target : ChildList Node) :
    outcome (moveTo id) (source, target) =
      allOrNothing (source, target) ((source.moveTo target id).map ((), ·)) := by
  rw [moveTo, outcome_get_bind, ChildList.moveTo]
  cases source.find? id with
  | none => rfl
  | some node =>
      simp only
      rw [outcome_get_bind]
      by_cases self : id = target.owner
      · simp only [if_pos self]
        rfl
      · simp only [if_neg self]
        rfl

theorem outcome_take (slot : ChildSlot Node) :
    outcome (take : InPlace ε (ChildSlot Node) (Option Node)) slot =
      (.ok slot.take.1, slot.take.2) := rfl

theorem outcome_trySet (node : Node) (slot : ChildSlot Node) :
    outcome (trySet node) slot = allOrNothing slot (slot.trySet node) := by
  rw [trySet, outcome_get_bind, ChildSlot.trySet, ChildSlot.set]
  cases checkInsertable slot.owner node <;> rfl

theorem outcome_set (node : Node) (slot : ChildSlot Node) :
    outcome (set node) slot = allOrNothing slot (slot.set node) := by
  rw [set, outcome_adapt, outcome_trySet, ChildSlot.trySet]
  cases slot.set node <;> rfl

end InPlace

/-! ## Writing back -/

namespace Node

variable {node : Node}

theorem setList_setList (node : Node) (role : Role) (first second : ChildList Node) :
    (node.setList role first).setList role second = node.setList role second := by
  unfold setList
  rw [List.map_map]
  congr 2
  funext branch
  cases branch with
  | list r old => by_cases hr : r = role <;> simp [hr]
  | _ => rfl

theorem setList_self {role : Role} {list : ChildList Node} (nodup : node.places.Nodup)
    (found : node.list? role = some list) : node.setList role list = node := by
  have kept : (node.setList role list).branches = node.branches := by
    rw [setList_branches]
    refine (List.map_congr_left fun branch hbranch => ?_).trans (List.map_id _)
    by_cases here : branch.place = .list role
    · rw [if_pos here]
      exact (eq_of_place_eq nodup hbranch (mem_branches_of_list? found) here).symm
    · rw [if_neg here]
      rfl
  obtain ⟨header, body, branches⟩ := node
  exact congrArg (Node.mk header body) kept

/-- The method with other parameters, numbered by position. -/
def withParameters (method : Node) (list : ChildList Node) : Node :=
  method.setList .parameters (renumber list)

theorem numberParameters_setList {list : ChildList Node} (found : node.list? .parameters = some list)
    (list' : ChildList Node) :
    (node.setList .parameters list').numberParameters = node.withParameters list' := by
  rw [numberParameters, list?_setList list' found]
  exact setList_setList node .parameters list' (renumber list')

/-! Operations on parameters come to operations on their list. -/

section Found

variable {method source target : Node} {list into : ChildList Node}

theorem addParameter_eq (found : method.list? .parameters = some list) (parameter : Node) :
    method.addParameter parameter = (list.add parameter).map method.withParameters := by
  simp only [addParameter, editList, found]
  cases list.add parameter <;> rfl

theorem addParameters_eq (found : method.list? .parameters = some list) (parameters : List Node) :
    method.addParameters parameters = (list.addRange parameters).map method.withParameters := by
  simp only [addParameters, editList, found]
  cases list.addRange parameters <;> rfl

theorem removeParameter?_eq (found : method.list? .parameters = some list) (id : NodeId) :
    method.removeParameter? id =
      (list.remove? id).map (Prod.map (withOrdinal 0) method.withParameters) := by
  simp only [removeParameter?, found, Option.bind_eq_bind, Option.bind_some]
  cases list.remove? id <;> rfl

theorem moveParameter_eq (found : source.list? .parameters = some list)
    (found' : target.list? .parameters = some into) (id : NodeId) :
    source.moveParameter target id =
      (list.moveTo into id).map (Prod.map source.withParameters target.withParameters) := by
  simp only [moveParameter, found, found']
  cases list.moveTo into id <;> rfl

end Found

end Node

/-! ## Nodes -/

namespace InPlace

section Nodes

variable {node source target : Node} {list into : ChildList Node}

theorem outcome_onList {role : Role} {missing : α} {run : InPlace ε (ChildList Node) α}
    (found : node.list? role = some list) :
    outcome (onList role missing run) node =
      ((outcome run list).1, node.setList role (outcome run list).2) := by
  rw [onList, outcome_get_bind, found]
  rfl

theorem outcome_insertParameters {run : InPlace ε (ChildList Node) Unit}
    (found : node.list? .parameters = some list) :
    outcome (insertParameters run) node =
      match outcome run list with
      | (.ok _, list') => (.ok (), node.withParameters list')
      | (.error e, list') => (.error e, node.setList .parameters list') := by
  rw [insertParameters, outcome_bind, outcome_onList found]
  rcases outcome run list with ⟨_ | _, list'⟩
  · rfl
  · exact congrArg (Prod.mk _) (Node.numberParameters_setList found list')

theorem outcome_insertParameters_of_none {run : InPlace ε (ChildList Node) Unit}
    (missing : node.list? .parameters = none) :
    outcome (insertParameters run) node = (.ok (), node) := by
  rw [insertParameters, outcome_bind, onList, outcome_get_bind, missing]
  have numbered : node.numberParameters = node := by rw [Node.numberParameters, missing]
  exact congrArg (Prod.mk _) numbered

theorem outcome_removeParameter {id : NodeId} (found : node.list? .parameters = some list) :
    outcome (removeParameter id : InPlace ε Node (Option Node)) node =
      match list.remove? id with
      | none => (.ok none, node.setList .parameters list)
      | some (parameter, rest) => (.ok (some (parameter.withOrdinal 0)), node.withParameters rest) := by
  rw [removeParameter, outcome_bind, outcome_onList found, outcome_remove]
  cases list.remove? id with
  | none => rfl
  | some result => exact congrArg (Prod.mk _) (Node.numberParameters_setList found result.2)

theorem outcome_removeParameter_of_none {id : NodeId} (missing : node.list? .parameters = none) :
    outcome (removeParameter id : InPlace ε Node (Option Node)) node = (.ok none, node) := by
  rw [removeParameter, outcome_bind, onList, outcome_get_bind, missing]
  rfl

theorem outcome_moveParameter {id : NodeId} (found : source.list? .parameters = some list)
    (found' : target.list? .parameters = some into) :
    outcome (moveParameter id) (source, target) =
      match list.moveTo into id with
      | .ok (list', into') => (.ok (), source.withParameters list', target.withParameters into')
      | .error e =>
          (.error e, source.setList .parameters list, target.setList .parameters into) := by
  rw [moveParameter, outcome_get_bind]
  simp only [found, found']
  rw [outcome_bind, outcome_within, outcome_moveTo]
  cases list.moveTo into id with
  | error e => rfl
  | ok result =>
      exact congrArg (Prod.mk _) (congrArg₂ Prod.mk (Node.numberParameters_setList found result.1)
        (Node.numberParameters_setList found' result.2))

theorem outcome_moveParameter_of_none {id : NodeId}
    (missing : source.list? .parameters = none ∨ target.list? .parameters = none) :
    outcome (moveParameter id) (source, target) = (.error (.childNotFound id), source, target) := by
  rw [moveParameter, outcome_get_bind]
  rcases missing with missing | missing
  · simp only [missing]
    rfl
  · simp only [missing]
    cases source.list? .parameters <;> rfl

/-! For a node with at most one list of parameters, to write back what was read changes nothing. -/

theorem outcome_insertParameters_of_nodup {run : InPlace ε (ChildList Node) Unit}
    {insert : ChildList Node → Except ε (ChildList Node)} (nodup : node.places.Nodup)
    (whole : ∀ list, outcome run list = allOrNothing list ((insert list).map ((), ·)))
    (found : node.list? .parameters = some list) :
    outcome (insertParameters run) node =
      allOrNothing node (((insert list).map node.withParameters).map ((), ·)) := by
  rw [outcome_insertParameters found, whole]
  cases insert list with
  | error e => exact congrArg (Prod.mk _) (Node.setList_self nodup found)
  | ok list' => rfl

theorem outcome_addParameter (nodup : node.places.Nodup) (parameter : Node) :
    outcome (addParameter parameter) node =
      allOrNothing node ((node.addParameter parameter).map ((), ·)) := by
  cases found : node.list? .parameters with
  | none =>
      rw [addParameter, outcome_insertParameters_of_none found, Node.addParameter, Node.editList, found]
      rfl
  | some list =>
      rw [Node.addParameter_eq found]
      exact outcome_insertParameters_of_nodup nodup (outcome_add parameter) found

theorem outcome_addParameters (nodup : node.places.Nodup) (parameters : List Node) :
    outcome (addParameters parameters) node =
      allOrNothing node ((node.addParameters parameters).map ((), ·)) := by
  cases found : node.list? .parameters with
  | none =>
      rw [addParameters, outcome_insertParameters_of_none found, Node.addParameters, Node.editList,
        found]
      rfl
  | some list =>
      rw [Node.addParameters_eq found]
      exact outcome_insertParameters_of_nodup nodup (outcome_addRange parameters) found

theorem outcome_removeParameter_of_nodup (nodup : node.places.Nodup) (id : NodeId) :
    outcome (removeParameter id : InPlace ε Node (Option Node)) node =
      (.ok ((node.removeParameter? id).map Prod.fst),
        ((node.removeParameter? id).map Prod.snd).getD node) := by
  cases found : node.list? .parameters with
  | none =>
      rw [outcome_removeParameter_of_none found, Node.removeParameter?, found]
      rfl
  | some list =>
      rw [outcome_removeParameter found, Node.removeParameter?_eq found]
      cases list.remove? id with
      | none => exact congrArg (Prod.mk _) (Node.setList_self nodup found)
      | some result => rfl

theorem outcome_moveParameter_of_nodup (nodup : source.places.Nodup) (nodup' : target.places.Nodup)
    (id : NodeId) :
    outcome (moveParameter id) (source, target) =
      allOrNothing (source, target) ((source.moveParameter target id).map ((), ·)) := by
  cases found : source.list? .parameters with
  | none =>
      rw [outcome_moveParameter_of_none (.inl found), Node.moveParameter, found]
      rfl
  | some list =>
      cases found' : target.list? .parameters with
      | none =>
          rw [outcome_moveParameter_of_none (.inr found'), Node.moveParameter, found, found']
          rfl
      | some into =>
          rw [outcome_moveParameter found found', Node.moveParameter_eq found found']
          cases list.moveTo into id with
          | error e =>
              exact congrArg (Prod.mk _) (congrArg₂ Prod.mk (Node.setList_self nodup found)
                (Node.setList_self nodup' found'))
          | ok result => rfl

theorem outcome_setType {type : Node} {slot : ChildSlot Node} (found : node.slot? = some slot) :
    outcome (setType type) node =
      match slot.set type with
      | .ok (previous, slot') => (.ok previous, node.setSlot slot')
      | .error e => (.error e, node.setSlot slot) := by
  rw [setType, outcome_get_bind, found]
  simp only
  rw [outcome_within, outcome_set]
  cases slot.set type <;> rfl

theorem outcome_setType_of_none {type : Node} (missing : node.slot? = none) :
    outcome (setType type) node = (.ok (some type), node) := by
  rw [setType, outcome_get_bind, missing]
  rfl

end Nodes

end InPlace

end DeclTree
