import DeclTree.Proofs.Acts.Refusals

/-!
# Moving is removing and adding in one step

A move finds the node, asks the target, and only then changes anything. It does not ask whether the
node has an owner, as adding does. But a node that has been removed has none, so there is only one
reason left to refuse it: the target belongs to the node itself. This is what a move asks before. So
it ends as removing and adding would, except that nothing is lost if it is refused.

A parameter that is moved takes its ordinal along, and one that is removed does not. Either way it
is numbered with the parameters that it joins.
-/

namespace DeclTree

open BenchM Workbench

/-- The move of a node from one thing to another comes to removing and adding it. It is refused if
there is nothing to remove, or if the node would be added to itself. -/
structure RemovesThenAdds {σ : Type} (id : NodeId) (removed : Option (Node × σ))
    (add : Node → Except TreeError σ) (move : Except TreeError (σ × σ)) : Prop where
  ok_iff : ∀ source target, move = .ok (source, target) ↔
    ∃ node, removed = some (node, source) ∧ add node = .ok target
  error_iff : ∀ error, move = .error error ↔
    removed = none ∧ error = .childNotFound id ∨
      error = .selfOwnership id ∧ ∃ node source, removed = some (node, source) ∧
        add node = .error error

namespace RemovesThenAdds

variable {σ τ : Type} {id : NodeId} {removed : Option (Node × σ)}
  {add : Node → Except TreeError σ} {move : Except TreeError (σ × σ)}

theorem of_cases (missing : removed = none → move = .error (.childNotFound id))
    (found : ∀ node source, removed = some (node, source) →
      (∃ target, add node = .ok target ∧ move = .ok (source, target)) ∨
        add node = .error (.selfOwnership id) ∧ move = .error (.selfOwnership id)) :
    RemovesThenAdds id removed add move := by
  cases removed with
  | none => constructor <;> simp [missing rfl, eq_comm]
  | some pair =>
      obtain ⟨node, source⟩ := pair
      rcases found node source rfl with ⟨target, added, moved⟩ | ⟨refused, moved⟩
      · constructor <;> simp [added, moved]
      · constructor <;> simp [refused, moved, eq_comm]

theorem missing (h : RemovesThenAdds id removed add move) (absent : removed = none) :
    move = .error (.childNotFound id) :=
  (h.error_iff _).mpr (.inl ⟨absent, rfl⟩)

theorem found (h : RemovesThenAdds id removed add move) {node : Node} {source : σ}
    (present : removed = some (node, source)) :
    (∃ target, add node = .ok target ∧ move = .ok (source, target)) ∨
      add node = .error (.selfOwnership id) ∧ move = .error (.selfOwnership id) := by
  cases moved : move with
  | ok pair =>
      obtain ⟨_, removal, added⟩ := (h.ok_iff pair.1 pair.2).mp moved
      rw [present] at removal
      cases removal
      exact .inl ⟨pair.2, added, rfl⟩
  | error error =>
      rcases (h.error_iff error).mp moved with ⟨absent, -⟩ | ⟨rfl, _, _, removal, refused⟩
      · rw [present] at absent
        cases absent
      · rw [present] at removal
        cases removal
        exact .inr ⟨refused, rfl⟩

/-- What is true of parts is true of the wholes that they are put back into. -/
theorem map {inSource inTarget : σ → τ} {change : Node → Node} {addWhole : Node → Except TreeError τ}
    (h : RemovesThenAdds id removed add move)
    (adds : ∀ node, addWhole (change node) = (add node).map inTarget) :
    RemovesThenAdds id (removed.map (Prod.map change inSource)) addWhole
      (move.map (Prod.map inSource inTarget)) := by
  refine of_cases (fun absent => ?_) (fun node source present => ?_)
  · rw [h.missing (Option.map_eq_none_iff.mp absent)]
    rfl
  · obtain ⟨⟨part, rest⟩, hpart, result⟩ := Option.map_eq_some_iff.mp present
    obtain ⟨rfl, rfl⟩ := Prod.mk.inj result
    rcases h.found hpart with ⟨target, added, moved⟩ | ⟨refused, moved⟩
    · refine .inl ⟨inTarget target, ?_, ?_⟩
      · rw [adds, added]
        rfl
      · rw [moved]
        rfl
    · refine .inr ⟨?_, ?_⟩
      · rw [adds, refused]
        rfl
      · rw [moved]
        rfl

end RemovesThenAdds

/-! ## Lists -/

namespace ChildList

/-- A node without an owner is refused by its own list only. -/
theorem add_withParent_none (list : ChildList Node) (node : Node) :
    list.add (node.withParent none) =
      if node.id = list.owner then .error (.selfOwnership node.id)
      else .ok { list with items := list.items ++ [node.withParent list.owner] } := by
  by_cases self : node.id = list.owner
  · rw [if_pos self]
    have refused : checkInsertable list.owner (node.withParent none) =
        .error (.selfOwnership node.id) := if_pos self
    rw [add, refused]
    rfl
  · rw [if_neg self]
    have taken : checkInsertable list.owner (node.withParent none) = .ok () :=
      checkInsertable_eq_ok_iff.mpr ⟨self, rfl⟩
    rw [add, taken]
    rfl

theorem moveTo_removesThenAdds (source target : ChildList Node) (id : NodeId) :
    RemovesThenAdds id (source.remove? id) target.add (source.moveTo target id) := by
  refine .of_cases (fun missing => ?_) (fun node rest removed => ?_)
  · rw [moveTo, Option.map_eq_none_iff.mp missing]
  · obtain ⟨found, hfound, result⟩ := Option.map_eq_some_iff.mp removed
    obtain ⟨rfl, rfl⟩ := Prod.mk.inj result
    have hid : found.id = id := by simpa using List.find?_some hfound
    rw [add_withParent_none, moveTo, hfound, hid]
    by_cases self : id = target.owner
    · exact .inr (by simp [self])
    · exact .inl (by simp [self])

/-- The first node with the identity goes to the end of the target, and all else stays as it is. -/
structure Transfers (id : NodeId) (source target source' target' : ChildList Node) : Prop where
  exists_split : ∃ before node after, source.items = before ++ node :: after ∧ node.id = id ∧
    (∀ other ∈ before, other.id ≠ id) ∧ source' = { source with items := before ++ after } ∧
      target' = { target with items := target.items ++ [node.withParent target.owner] }
  /-- Parent links apart, there are the same nodes as before. -/
  perm : ((source'.items ++ target'.items).map (Node.withParent none)).Perm
    ((source.items ++ target.items).map (Node.withParent none))

theorem transfers_of_moveTo {source target source' target' : ChildList Node} {id : NodeId}
    (h : source.moveTo target id = .ok (source', target')) :
    Transfers id source target source' target' := by
  obtain ⟨node, removed, added⟩ := ((moveTo_removesThenAdds source target id).ok_iff _ _).mp h
  obtain ⟨found, hfound, result⟩ := Option.map_eq_some_iff.mp removed
  obtain ⟨rfl, rfl⟩ := Prod.mk.inj result
  obtain ⟨before, after, split, erased, hid, others⟩ := split_of_find? hfound
  have apart : found.id ≠ target.owner := by
    intro self
    simp [add_withParent_none, self] at added
  rw [add_withParent_none, if_neg apart] at added
  obtain rfl := Except.ok.inj added
  refine ⟨⟨before, found, after, split, hid, others, by rw [erased], rfl⟩, ?_⟩
  have moved : (found.withParent target.owner).withParent none = found.withParent none := rfl
  rw [erased, split]
  simp only [List.map_append, List.map_cons, List.map_nil, moved, List.append_assoc]
  refine List.Perm.append_left _ ?_
  rw [← List.append_assoc]
  exact List.perm_append_singleton _ _

end ChildList

/-! ## Parameters -/

namespace Node

/-- A method has a list of parameters. -/
theorem Shaped.exists_parameters {node : Node} (h : node.Shaped) (kind : node.kind = .method) :
    ∃ list, node.list? .parameters = some list := by
  have places : node.places = Kind.method.places := by
    rw [(shaped_iff_of_ne (by simp [kind])).mp h, kind]
  have there : Place.list .parameters ∈ node.places := by
    rw [places]
    decide
  obtain ⟨branch, hbranch, place⟩ := List.mem_map.mp there
  cases branch with
  | list role list =>
      cases place
      exact ⟨list, (list?_eq_some_iff h.nodup_places).mpr hbranch⟩
  | slot place' => cases place
  | heldAttributes items => cases place
  | heldType item => cases place

/-- The ordinal with which a parameter comes makes no difference. -/
theorem addParameter_withOrdinal (method parameter : Node) (ordinal : Nat) :
    method.addParameter (parameter.withOrdinal ordinal) = method.addParameter parameter := by
  have check : ∀ owner, checkInsertable owner (parameter.withOrdinal ordinal) =
      checkInsertable owner parameter := by
    intro owner
    obtain ⟨body, same, -⟩ := exists_setBody_withOrdinal ordinal parameter
    rw [same]
    rfl
  unfold addParameter
  congr 1
  funext list
  rw [ChildList.add, ChildList.add, check]
  cases checkInsertable list.owner parameter with
  | error error => rfl
  | ok _ =>
      refine congrArg Except.ok ?_
      rw [withParent_withOrdinal]
      exact renumber_append_withOrdinal list.owner list.items _ ordinal

theorem moveParameter_removesThenAdds {source target : Node} (shaped : target.Shaped)
    (kind : target.kind = .method) (id : NodeId) :
    RemovesThenAdds id (source.removeParameter? id) target.addParameter
      (source.moveParameter target id) := by
  obtain ⟨into, hinto⟩ := shaped.exists_parameters kind
  cases hlist : source.list? .parameters with
  | none =>
      refine .of_cases (fun _ => ?_) (fun node rest removed => ?_)
      · rw [moveParameter, hlist]
      · simp [removeParameter?, hlist] at removed
  | some list =>
      rw [removeParameter?_eq hlist, moveParameter_eq hlist hinto]
      refine (list.moveTo_removesThenAdds into id).map fun parameter => ?_
      rw [addParameter_withOrdinal, addParameter_eq hinto]

end Node

/-! ## Moves in place -/

namespace InPlace

variable {ε σ τ α : Type}

/-- Works on the first of two things. -/
def onFirst (run : InPlace ε σ α) : InPlace ε (σ × τ) α := do
  within (← get).1 (fun first both => (first, both.2)) run

/-- Works on the second of two things. -/
def onSecond (run : InPlace ε τ α) : InPlace ε (σ × τ) α := do
  within (← get).2 (fun second both => (both.1, second)) run

/-- Removes a node from one thing and then adds it to the other. If it is not taken there it is
lost. -/
def removeThenAdd (id : NodeId) (remove : InPlace TreeError σ (Option Node))
    (add : Node → InPlace TreeError τ Unit) : InPlace TreeError (σ × τ) Unit := do
  match ← onFirst remove with
  | none => throw (.childNotFound id)
  | some node => onSecond (add node)

theorem outcome_onFirst (run : InPlace ε σ α) (first : σ) (second : τ) :
    outcome (onFirst run) (first, second) =
      ((outcome run first).1, (outcome run first).2, second) := rfl

theorem outcome_onSecond (run : InPlace ε τ α) (first : σ) (second : τ) :
    outcome (onSecond run) (first, second) =
      ((outcome run second).1, first, (outcome run second).2) := rfl

end InPlace

/-- What is removed and added in place comes to the move in place, made as a whole. -/
theorem RemovesThenAdds.outcome_eq {σ : Type} {id : NodeId} {removed : Option (Node × σ)}
    {add : Node → Except TreeError σ} {move : Except TreeError (σ × σ)} {source target : σ}
    {removeIn : InPlace TreeError σ (Option Node)} {addIn : Node → InPlace TreeError σ Unit}
    {moveIn : InPlace TreeError (σ × σ) Unit} (h : RemovesThenAdds id removed add move)
    (moves : outcome moveIn (source, target) = allOrNothing (source, target) (move.map ((), ·)))
    (removes : outcome removeIn source =
      (.ok (removed.map Prod.fst), (removed.map Prod.snd).getD source))
    (adds : ∀ node, outcome (addIn node) target = allOrNothing target ((add node).map ((), ·))) :
    outcome moveIn (source, target) =
      outcome (InPlace.atomically (InPlace.removeThenAdd id removeIn addIn)) (source, target) := by
  rw [moves, InPlace.outcome_atomically]
  congr 1
  rw [InPlace.completed, InPlace.removeThenAdd, outcome_bind, InPlace.outcome_onFirst, removes]
  cases present : removed with
  | none =>
      rw [h.missing present]
      rfl
  | some pair =>
      obtain ⟨node, rest⟩ := pair
      simp only [Option.map_some, Option.getD_some, InPlace.outcome_onSecond, adds]
      rcases h.found present with ⟨target', added, moved⟩ | ⟨refused, moved⟩
      · rw [added, moved]
        rfl
      · rw [refused, moved]
        rfl

namespace InPlace

theorem moveTo_eq_atomically (id : NodeId) :
    moveTo id = atomically (removeThenAdd id (remove id) add) := by
  funext ⟨source, target⟩
  exact (source.moveTo_removesThenAdds target id).outcome_eq (outcome_moveTo id source target)
    (outcome_remove id source) fun node => outcome_add node target

theorem outcome_moveParameter_eq_atomically {source target : Node} (shaped : source.Shaped)
    (shaped' : target.Shaped) (kind : target.kind = .method) (id : NodeId) :
    outcome (moveParameter id) (source, target) =
      outcome (atomically (removeThenAdd id (removeParameter id) addParameter)) (source, target) :=
  (Node.moveParameter_removesThenAdds shaped' kind id).outcome_eq
    (outcome_moveParameter_of_nodup shaped.nodup_places shaped'.nodup_places id)
    (outcome_removeParameter_of_nodup shaped.nodup_places id)
    (outcome_addParameter shaped'.nodup_places)

end InPlace

/-! ## Moves on the workbench -/

/-- The step moves the node with an identity from one place to another, in one tree or in two. Trees
refuse it if they refuse the move, and then under every name there is what there was. -/
structure MovesBetween {π σ : Type} (look : Workbench → π → Option σ)
    (move : σ → σ → NodeId → Except TreeError (σ × σ)) (source dest : π) (ref : IdRef)
    (step : BenchM Answer) : Prop where
  returned : ∀ bench answer bench', (∀ node ∈ bench.nodes, node.Shaped) →
    Returns step bench answer bench' → ∃ id, (outcome (idOf ref) bench).1 = .ok id ∧
      Moved look (move · · id) source dest bench bench' (.ok ())
  refused : ∀ bench error bench', (∀ node ∈ bench.nodes, node.Shaped) →
    Refuses step bench (.tree error) bench' → ∃ id, (outcome (idOf ref) bench).1 = .ok id ∧
      Moved look (move · · id) source dest bench bench' (.error error)

theorem untouched_of_idOf {ref : IdRef} {bench bench' : Workbench} {id : NodeId}
    (h : Returns (idOf ref) bench id bench') : Untouched bench bench' := by
  have moved := idOf_moves ref bench
  rwa [h] at moved

theorem ListStep.moved_of_inBoth {source dest : ListPath} {id : NodeId} {bench bench' : Workbench}
    {result : Except TreeError Unit} (shaped : ∀ node ∈ bench.nodes, node.Shaped)
    (h : Returns (inBoth listAccess source dest (InPlace.moveTo id)) bench result bench') :
    Moved listIn? (ChildList.moveTo · · id) source dest bench bench' result := by
  refine DeclTree.moved_of_inBoth listAccess_lawful (fun shaped found wrote => ?_) shaped
    (fun first second _ _ => InPlace.outcome_moveTo id first second) h
  obtain ⟨⟨kind, _⟩, there, rfl⟩ := Option.map_eq_some_iff.mp found
  exact restored_of_replaceList shaped there wrote

theorem ParameterStep.moved_of_inBoth {source dest : Path} {id : NodeId} {bench bench' : Workbench}
    {result : Except TreeError Unit} (shaped : ∀ node ∈ bench.nodes, node.Shaped)
    (h : Returns (inBoth nodeAccess source dest (InPlace.moveParameter id)) bench result bench') :
    Moved nodeAt? (Node.moveParameter · · id) source dest bench bench' result := by
  refine DeclTree.moved_of_inBoth nodeAccess_lawful restored_of_replaceNode shaped
    (fun first second found found' => ?_) h
  exact InPlace.outcome_moveParameter_of_nodup
    (shaped first (mem_nodes_of_nodeAt? found)).nodup_places
    (shaped second (mem_nodes_of_nodeAt? found')).nodup_places id

/-- The step asks for the identity, moves, and then only looks. -/
theorem movesBetween_of_moved {π σ : Type} {look : Workbench → π → Option σ}
    {move : σ → σ → NodeId → Except TreeError (σ × σ)} {source dest : π}
    {run : NodeId → BenchM (Except TreeError Unit)} {next : BenchM Answer}
    {answer? : Workbench → Option Answer}
    (looks : ∀ {bench bench'}, Untouched bench bench' → ∀ path, look bench' path = look bench path)
    (allowed : ∀ id, TreesAllow (run id)) (reads : Reads next answer?)
    (moved : ∀ {id bench result bench'}, (∀ node ∈ bench.nodes, node.Shaped) →
      Returns (run id) bench result bench' →
        Moved look (move · · id) source dest bench bench' result) (ref : IdRef) :
    MovesBetween look move source dest ref
      (do let id ← idOf ref; let result ← run id; ofTree result; next) where
  returned bench answer bench' shaped h := by
    obtain ⟨id, bench₁, asked, h⟩ := returns_bind.mp h
    obtain ⟨result, bench₂, ran, h⟩ := returns_bind.mp h
    obtain ⟨_, _, accepted, h⟩ := returns_bind.mp h
    obtain ⟨rfl, rfl⟩ := returned_ofTree accepted
    obtain ⟨rfl, -⟩ := reads.returned h
    have same := untouched_of_idOf asked
    refine ⟨id, by rw [asked], (moved (same.restored.shaped shaped) ran).of_untouched same ?_⟩
    exact looks same
  refused bench error bench' shaped h := by
    obtain ⟨id, bench₁, asked, h⟩ := (TreesAllow.idOf ref).refused_bind h
    obtain ⟨result, bench₂, ran, h⟩ := (allowed id).refused_bind h
    obtain ⟨rfl, rfl⟩ := ofTree_refused_bind (fun _ => .of_reads reads) h
    have same := untouched_of_idOf asked
    refine ⟨id, by rw [asked], (moved (same.restored.shaped shaped) ran).of_untouched same ?_⟩
    exact looks same

theorem ListStep.move_movesBetween (source : ListPath) (ref : IdRef) (dest : ListPath) :
    MovesBetween listIn? ChildList.moveTo source dest ref (ListStep.move source ref dest).run := by
  have split : (ListStep.move source ref dest).run = (do
      let id ← idOf ref
      let result ← (do
        requireThat ((← listAt source).1 = (← listAt dest).1)
        inBoth listAccess source dest (InPlace.moveTo id))
      ofTree result
      return .moved (← listAt source).2 (← listAt dest).2) := by
    simp only [ListStep.run, bind_assoc]
  rw [split]
  have reads := (reads_listAt source).bind fun first => (reads_listAt dest).bind fun second =>
    reads_pure (Answer.moved first.2 second.2)
  refine movesBetween_of_moved (fun same path => ?_) (fun id => ?_) reads (fun shaped h => ?_) ref
  · exact congrArg (Option.map Prod.snd) (listAt?_congr (by rw [same.items]))
  · exact .bind (.of_reads (reads_listAt source)) fun _ => .bind (.of_reads (reads_listAt dest))
      fun _ => .bind (.requireThat _) fun _ => .inBoth listAccess_lawful .replaceList source dest _
  · obtain ⟨_, -, h⟩ := (reads_listAt source).returned_bind h
    obtain ⟨_, -, h⟩ := (reads_listAt dest).returned_bind h
    exact moved_of_inBoth shaped (requireThat_returned_bind h).2

theorem ParameterStep.move_movesBetween (source : Path) (ref : IdRef) (dest : Path) :
    MovesBetween nodeAt? Node.moveParameter source dest ref
      (ParameterStep.move source ref dest).run := by
  have reads := (reads_parametersAt source).bind fun first =>
    (reads_parametersAt dest).bind fun second => reads_pure (Answer.movedParameter first second)
  refine movesBetween_of_moved (fun same path => ?_) (fun id => ?_) reads moved_of_inBoth ref
  · exact nodeAt?_congr (by rw [same.items])
  · exact .inBoth nodeAccess_lawful .replaceNode source dest _

/-- Moving a node between lists, or a parameter between methods, is removing and adding it, made as a
whole. Nothing is lost or doubled, and if the move is refused both are as they were, parent links and
ordinals included. -/
theorem move_is_remove_then_add :
    (∀ (source target : ChildList Node) (id : NodeId),
      RemovesThenAdds id (source.remove? id) target.add (source.moveTo target id) ∧
      (∀ source' target', source.moveTo target id = .ok (source', target') →
        ChildList.Transfers id source target source' target') ∧
      outcome (InPlace.moveTo id) (source, target) =
        allOrNothing (source, target) ((source.moveTo target id).map ((), ·))) ∧
    (∀ id : NodeId, InPlace.moveTo id =
      InPlace.atomically (InPlace.removeThenAdd id (InPlace.remove id) InPlace.add)) ∧
    (∀ (source target : Node) (id : NodeId), target.Shaped → target.kind = .method →
      RemovesThenAdds id (source.removeParameter? id) target.addParameter
        (source.moveParameter target id) ∧
      (source.Shaped →
        outcome (InPlace.moveParameter id) (source, target) =
          allOrNothing (source, target) ((source.moveParameter target id).map ((), ·)) ∧
        outcome (InPlace.moveParameter id) (source, target) =
          outcome (InPlace.atomically
            (InPlace.removeThenAdd id (InPlace.removeParameter id) InPlace.addParameter))
            (source, target))) ∧
    (∀ (source dest : ListPath) (ref : IdRef),
      MovesBetween listIn? ChildList.moveTo source dest ref (ListStep.move source ref dest).run) ∧
    ∀ (source dest : Path) (ref : IdRef),
      MovesBetween nodeAt? Node.moveParameter source dest ref
        (ParameterStep.move source ref dest).run := by
  refine ⟨fun source target id => ⟨?_, fun source' target' => ?_, ?_⟩, ?_, ?_, ?_, ?_⟩
  · exact source.moveTo_removesThenAdds target id
  · exact ChildList.transfers_of_moveTo
  · exact InPlace.outcome_moveTo id source target
  · exact InPlace.moveTo_eq_atomically
  · intro source target id shaped kind
    refine ⟨Node.moveParameter_removesThenAdds shaped kind id, fun shaped' => ⟨?_, ?_⟩⟩
    · exact InPlace.outcome_moveParameter_of_nodup shaped'.nodup_places shaped.nodup_places id
    · exact InPlace.outcome_moveParameter_eq_atomically shaped' shaped kind id
  · exact fun source dest ref => ListStep.move_movesBetween source ref dest
  · exact fun source dest ref => ParameterStep.move_movesBetween source ref dest

/-- A list of parameters with these identities. -/
def sampleMembers (owner : Nat) (ids : List Nat) : ChildList Node :=
  ⟨⟨owner⟩, ids.map fun id =>
    Node.ofHeader
      { id := ⟨id⟩, name := "p", handle := .synthetic "parameter", parent := some ⟨owner⟩ }
      (.parameter {})⟩

/-- A method with these parameters. -/
def sampleSignature (number : Nat) (ids : List Nat) : Node :=
  (Node.ofHeader { id := ⟨number⟩, name := "f", handle := .synthetic "method" }
    (.method {})).withParameters (sampleMembers number ids)

/-- Two lists, the second of which belongs to a node of the first, and a list of two methods. -/
def sampleShelf : Workbench :=
  { items := ⟨[("a", .list .parameter (sampleMembers 1 [2, 3])),
      ("b", .list .parameter (sampleMembers 2 [])),
      ("methods", .list .method ⟨⟨9⟩, [sampleSignature 6 [7, 8], sampleSignature 4 [5]]⟩)]⟩ }

/-- Of two nodes with the identity the first is moved. A parameter gets a new ordinal. A node is not
moved to a list of its own: then it stays where it is, while it is lost if it is removed first. A
parameter can be moved between two methods of one list. -/
theorem move_is_remove_then_add_of_samples :
    (∃ node source' target', (sampleMembers 1 [2, 3, 2]).remove? ⟨2⟩ = some (node, source') ∧
      (sampleMembers 4 [5]).add node = .ok target' ∧
      source'.items.map Node.id = [⟨3⟩, ⟨2⟩] ∧
      target'.items.map Node.parent = [some ⟨4⟩, some ⟨4⟩]) ∧
    (∃ parameter source' target',
      (sampleSignature 1 [2, 3]).removeParameter? ⟨2⟩ = some (parameter, source') ∧
      (sampleSignature 4 [5]).addParameter parameter = .ok target' ∧
      (source'.itemsIn .parameters).map Node.ordinal? = [some 0] ∧
      (target'.itemsIn .parameters).map Node.ordinal? = [some 0, some 1] ∧
      outcome (InPlace.moveParameter ⟨2⟩) (sampleSignature 1 [2, 3], sampleSignature 4 [5]) =
        (.ok (), source', target')) ∧
    (outcome (InPlace.moveTo ⟨2⟩) (sampleMembers 1 [2, 3], sampleMembers 2 []) =
        (.error (.selfOwnership ⟨2⟩), sampleMembers 1 [2, 3], sampleMembers 2 []) ∧
      (outcome (InPlace.removeThenAdd ⟨2⟩ (InPlace.remove ⟨2⟩) InPlace.add)
        (sampleMembers 1 [2, 3], sampleMembers 2 [])).2.1.items.map Node.id = [⟨3⟩]) ∧
    (∃ bench', Refuses (ListStep.move (.register "a") (.given ⟨2⟩) (.register "b")).run sampleShelf
      (.tree (.selfOwnership ⟨2⟩)) bench' ∧ Restored sampleShelf bench') ∧
    ∃ answer bench', Returns
      (ParameterStep.move ⟨"methods", [.index 0]⟩ (.given ⟨7⟩) ⟨"methods", [.index 1]⟩).run
        sampleShelf answer bench' ∧
      Moved nodeAt? (Node.moveParameter · · ⟨7⟩) ⟨"methods", [.index 0]⟩ ⟨"methods", [.index 1]⟩
        sampleShelf bench' (.ok ()) := by
  obtain ⟨lists, -, methods, listSteps, parameterSteps⟩ := move_is_remove_then_add
  have shaped : ∀ node ∈ sampleShelf.nodes, node.Shaped := by decide +kernel
  refine ⟨?_, ?_, ⟨?_, by decide⟩, ?_, ?_⟩
  · obtain ⟨node, removed, added⟩ :=
      ((lists (sampleMembers 1 [2, 3, 2]) (sampleMembers 4 [5]) ⟨2⟩).1.ok_iff _ _).mp rfl
    exact ⟨node, _, _, removed, added, by decide, by decide⟩
  · obtain ⟨comes, inPlace⟩ :=
      methods (sampleSignature 1 [2, 3]) (sampleSignature 4 [5]) ⟨2⟩ (by decide) (by decide)
    obtain ⟨parameter, removed, added⟩ := (comes.ok_iff _ _).mp rfl
    exact ⟨parameter, _, _, removed, added, by decide, by decide, (inPlace (by decide)).1⟩
  · exact (lists (sampleMembers 1 [2, 3]) (sampleMembers 2 []) ⟨2⟩).2.2
  · have refused : Refuses (ListStep.move (.register "a") (.given ⟨2⟩) (.register "b")).run
        sampleShelf (.tree (.selfOwnership ⟨2⟩)) _ := rfl
    obtain ⟨_, -, _, _, -, -, -, restored⟩ := (listSteps _ _ _).refused _ _ _ shaped refused
    exact ⟨_, refused, restored⟩
  · have returned : Returns
        (ParameterStep.move ⟨"methods", [.index 0]⟩ (.given ⟨7⟩) ⟨"methods", [.index 1]⟩).run
          sampleShelf _ _ := rfl
    obtain ⟨_, asked, moved⟩ := (parameterSteps _ _ _).returned _ _ _ shaped returned
    obtain rfl := Except.ok.inj asked
    exact ⟨_, _, returned, moved⟩

end DeclTree
