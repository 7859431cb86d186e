import DeclTree.Proofs.Acts.InPlace

/-!
# Refusals that come from trees

A step is refused because it does not fit the workbench, or because an operation on trees is
refused. What an operation has written by then is put back all the same. So if trees refuse a step,
what it leaves depends on what the operation leaves. If that is what it found, then the step has
written back what it had read, and under every name there is what there was.
-/

namespace DeclTree

open BenchM Workbench

variable {α β : Type}

/-! ## Runs -/

/-- Trees have no reason to refuse the run. -/
def TreesAllow (run : BenchM α) : Prop :=
  ∀ bench error bench', ¬ Refuses run bench (.tree error) bench'

namespace TreesAllow

theorem pure (a : α) : TreesAllow (Pure.pure a : BenchM α) := fun _ _ _ => not_refuses_pure

theorem bind {run : BenchM α} {next : α → BenchM β} (first : TreesAllow run)
    (rest : ∀ a, TreesAllow (next a)) : TreesAllow (run >>= next) := by
  intro bench error bench' refused
  rcases refuses_bind.mp refused with refused | ⟨a, _, -, refused⟩
  · exact first _ _ _ refused
  · exact rest a _ _ _ refused

/-- What refuses after such a run does so in the state that the run has led to. -/
theorem refused_bind {run : BenchM α} {next : α → BenchM β} (first : TreesAllow run)
    {bench bench' : Workbench} {error : TreeError}
    (h : Refuses (run >>= next) bench (.tree error) bench') :
    ∃ a bench₁, Returns run bench a bench₁ ∧ Refuses (next a) bench₁ (.tree error) bench' :=
  (refuses_bind.mp h).resolve_left (first _ _ _)

theorem mapM {run : α → BenchM β} (h : ∀ a, TreesAllow (run a)) (as : List α) :
    TreesAllow (as.mapM run) := by
  induction as with
  | nil => exact pure []
  | cons a as ih =>
      rw [List.mapM_cons]
      exact bind (h a) fun _ => bind ih fun _ => pure _

theorem of_reads {run : BenchM α} {look : Workbench → Option α} (h : Reads run look) :
    TreesAllow run := by
  intro bench error bench' refused
  rw [Refuses, h] at refused
  cases found : look bench <;> simp [found] at refused

theorem ofExcept {result : Except Refusal α} (h : ∀ error, result ≠ .error (.tree error)) :
    TreesAllow (BenchM.ofExcept result) :=
  fun _ error _ refused => h error (Prod.mk.inj refused).1

theorem requireThat (condition : Bool) : TreesAllow (BenchM.requireThat condition) := by
  refine ofExcept fun error => ?_
  cases condition <;> simp

theorem put (name : String) (item : Item) : TreesAllow (BenchM.put name item) := by
  intro bench error bench' refused
  cases refused

theorem putNode? (name? : Option String) (node? : Option Node) :
    TreesAllow (BenchM.putNode? name? node?) := by
  match name?, node? with
  | some name, some node => exact put name (.node node)
  | some _, none => exact pure ()
  | none, some _ => exact pure ()
  | none, none => exact pure ()

theorem takeNode (name : String) : TreesAllow (BenchM.takeNode name) := by
  refine bind (of_reads (reads_item name)) fun item => ?_
  cases item <;>
    · intro bench error bench' refused
      cases refused

theorem takeOfKind {kind : BenchM Kind} (h : TreesAllow kind) (name : String) :
    TreesAllow (BenchM.takeOfKind kind name) :=
  bind (takeNode name) fun _ => bind h fun _ => bind (requireThat _) fun _ => pure _

theorem idOf (ref : IdRef) : TreesAllow (BenchM.idOf ref) := by
  cases ref with
  | given id => exact pure id
  | fresh =>
      intro bench error bench' refused
      cases refused
  | node path => exact bind (of_reads (reads_nodeAt path)) fun _ => pure _

theorem parametersAt (path : Path) : TreesAllow (BenchM.parametersAt path) :=
  bind (of_reads (reads_nodeAt path)) fun _ => of_reads (reads_require _)

theorem answerList (path : ListPath) : TreesAllow (BenchM.answerList path) :=
  bind (of_reads (reads_listAt path)) fun _ => pure _

end TreesAllow

section Refused

variable {bench bench' : Workbench} {error : TreeError}

/-- An operation was refused, and the step with it. -/
theorem ofTree_refused_bind {result : Except TreeError α} {next : α → BenchM β}
    (allowed : ∀ a, TreesAllow (next a))
    (h : Refuses (ofTree result >>= next) bench (.tree error) bench') :
    bench' = bench ∧ result = .error error := by
  rcases refuses_bind.mp h with refused | ⟨a, _, -, refused⟩
  · obtain ⟨failed, rfl⟩ := Prod.mk.inj refused
    cases result with
    | ok a => cases failed
    | error reason =>
        obtain rfl := Refusal.tree.inj (Except.error.inj failed)
        exact ⟨rfl, rfl⟩
  · exact absurd refused (allowed a _ _ _)

end Refused

/-! ## Changes in place -/

section Changes

variable {change : Change Node α} {error : TreeError}

theorem changeIndex_ne_tree (allowed : ∀ node, change node ≠ .error (.tree error)) (index : Nat)
    (nodes : List Node) : changeIndex change index nodes ≠ .error (.tree error) := by
  unfold changeIndex
  intro h
  split at h
  next node found =>
    rcases except_bind_eq_error.mp h with refused | ⟨_, -, refused⟩
    · exact allowed node refused
    · cases refused
  next => cases h

/-- Trees refuse a change at the end of a path only if they refuse the change. -/
theorem Node.changeAt_ne_tree (allowed : ∀ node, change node ≠ .error (.tree error))
    (segments : List Segment) (node : Node) :
    changeAt change segments node ≠ .error (.tree error) := by
  induction segments using List.twoStepInduction generalizing node with
  | nil => exact allowed node
  | singleton segment => simp [changeAt]
  | cons_cons first second rest ih _ =>
      intro h
      obtain ⟨role, index, rfl, rfl⟩ := members_index_of_changeAt (by rw [h]; simp)
      rw [changeAt] at h
      split at h
      next list hlist =>
        rcases except_bind_eq_error.mp h with refused | ⟨_, -, refused⟩
        · exact changeIndex_ne_tree ih index list.items refused
        · cases refused
      next => cases h

theorem Item.changeAt_ne_tree (allowed : ∀ node, change node ≠ .error (.tree error))
    (segments : List Segment) (item : Item) :
    changeAt change segments item ≠ .error (.tree error) := by
  unfold changeAt
  intro h
  split at h
  next segments root =>
    rcases except_bind_eq_error.mp h with refused | ⟨_, -, refused⟩
    · exact Node.changeAt_ne_tree allowed _ _ refused
    · cases refused
  next index rest kind members =>
    rcases except_bind_eq_error.mp h with refused | ⟨_, -, refused⟩
    · exact changeIndex_ne_tree (Node.changeAt_ne_tree allowed rest) index _ refused
    · cases refused
  next segments kind place =>
    split at h
    next root hroot =>
      rcases except_bind_eq_error.mp h with refused | ⟨_, -, refused⟩
      · exact Node.changeAt_ne_tree allowed _ _ refused
      · cases refused
    next => cases h
  next => cases h

end Changes

namespace TreesAllow

theorem changeNode {change : Change Node α}
    (allowed : ∀ node error, change node ≠ .error (.tree error)) (path : Path) :
    TreesAllow (BenchM.changeNode path change) := by
  refine bind (of_reads (reads_item _)) fun item => bind (ofExcept fun error => ?_) fun _ => ?_
  · exact Item.changeAt_ne_tree (fun node => allowed node error) path.segments item
  · exact bind (put _ _) fun _ => pure _

theorem changeList {change : Change (ChildList Node) α}
    (allowed : ∀ list error, change list ≠ .error (.tree error)) (path : ListPath) :
    TreesAllow (BenchM.changeList path change) := by
  cases path with
  | register name =>
      refine bind (of_reads (reads_item name)) fun item => ?_
      cases item with
      | list kind list => exact bind (ofExcept (allowed list)) fun _ => bind (put _ _) fun _ => pure _
      | _ =>
          intro bench error bench' refused
          cases refused
  | branch path role =>
      refine bind (requireThat _) fun _ => changeNode (fun node error refused => ?_) path
      cases found : node.list? role with
      | none => simp [found] at refused
      | some list =>
          simp only [found] at refused
          rcases except_bind_eq_error.mp refused with refused | ⟨_, -, refused⟩
          · exact allowed list error refused
          · cases refused

variable {ε : Type}

theorem inNode (path : Path) (run : InPlace ε Node α) : TreesAllow (BenchM.inNode path run) :=
  changeNode (fun _ _ refused => by cases refused) path

theorem inList (path : ListPath) (run : InPlace ε (ChildList Node) α) :
    TreesAllow (BenchM.inList path run) :=
  changeList (fun _ _ refused => by cases refused) path

theorem inSlot (name : String) (run : InPlace ε (ChildSlot Node) α) :
    TreesAllow (BenchM.inSlot name run) :=
  bind (of_reads (reads_slotNamed name)) fun _ => bind (put _ _) fun _ => pure _

theorem replaceList (path : ListPath) (list : ChildList Node) :
    TreesAllow (BenchM.changeList path fun _ => .ok ((), list)) :=
  changeList (fun _ _ refused => by cases refused) path

theorem replaceNode (path : Path) (node : Node) : TreesAllow (modifyNode path fun _ => node) :=
  changeNode (fun _ _ refused => by cases refused) path

end TreesAllow

/-! ## What is left -/

namespace Workbench

/-- Nothing is under these names any more, and all else is as it was. Identities may have been
taken. -/
structure TakenOff (names : List String) (bench bench' : Workbench) : Prop where
  items : ∀ name, bench'.items.get? name = if name ∈ names then none else bench.items.get? name
  trees : bench'.items.trees ⊆ bench.items.trees
  resolution : bench'.world.resolution = bench.world.resolution
  supply : bench.world.supply.Forward bench'.world.supply

/-- Under every name there is what there was. -/
abbrev Restored (bench bench' : Workbench) : Prop := TakenOff [] bench bench'

/-- The nodes are under these names, one under each. -/
def Offers (bench : Workbench) : List String → List Node → Prop :=
  List.Forall₂ fun name node => bench.items.get? name = some (.node node)

variable {bench bench₁ bench' : Workbench} {names : List String}

theorem Untouched.restored (h : Untouched bench bench') : Restored bench bench' where
  items name := by rw [h.items, if_neg List.not_mem_nil]
  trees := by rw [h.items]; exact List.Subset.refl _
  resolution := h.resolution
  supply := h.supply

namespace TakenOff

theorem refl (bench : Workbench) : Restored bench bench :=
  (Std.Refl.refl bench : Untouched bench bench).restored

theorem trans {others : List String} (first : TakenOff names bench bench₁)
    (second : TakenOff others bench₁ bench') : TakenOff (names ++ others) bench bench' where
  items name := by
    rw [second.items, first.items]
    by_cases hname : name ∈ names <;> by_cases hother : name ∈ others <;> simp [hname, hother]
  trees := List.Subset.trans second.trees first.trees
  resolution := second.resolution.trans first.resolution
  supply := Nat.le_trans first.supply second.supply

/-- What is written back afterwards makes no difference. -/
theorem written (first : TakenOff names bench bench₁) (second : Restored bench₁ bench') :
    TakenOff names bench bench' := by
  have both := first.trans second
  rwa [List.append_nil] at both

theorem not_mem {name : String} {item : Item} (h : TakenOff names bench bench')
    (found : bench'.items.get? name = some item) : name ∉ names := by
  intro hname
  rw [h.items, if_pos hname] at found
  cases found

theorem get?_eq {name : String} (h : TakenOff names bench bench') (other : name ∉ names) :
    bench'.items.get? name = bench.items.get? name := by
  rw [h.items, if_neg other]

/-- A list that can still be found is the one that was there before. -/
theorem listAt?_eq {path : ListPath} {found : Kind × ChildList Node}
    (h : TakenOff names bench bench') (there : bench'.listAt? path = some found) :
    bench.listAt? path = some found := by
  obtain ⟨item, hitem⟩ : ∃ item, bench'.items.get? path.root = some item := by
    cases path with
    | register name =>
        obtain ⟨item, hitem, -⟩ := Option.bind_eq_some_iff.mp there
        exact ⟨item, hitem⟩
    | branch path role =>
        obtain ⟨_, hnode, -⟩ := Option.bind_eq_some_iff.mp there
        obtain ⟨item, hitem, -⟩ := Option.bind_eq_some_iff.mp hnode
        exact ⟨item, hitem⟩
  rw [← there]
  exact (listAt?_congr (h.get?_eq (h.not_mem hitem))).symm

theorem nodeAt?_eq {path : Path} {node : Node} (h : TakenOff names bench bench')
    (there : bench'.nodeAt? path = some node) : bench.nodeAt? path = some node := by
  obtain ⟨item, hitem, -⟩ := Option.bind_eq_some_iff.mp there
  rw [← there]
  exact (nodeAt?_congr (h.get?_eq (h.not_mem hitem))).symm

theorem shaped (h : TakenOff names bench bench') (shaped : ∀ node ∈ bench.nodes, node.Shaped) :
    ∀ node ∈ bench'.nodes, node.Shaped := by
  intro node hnode
  obtain ⟨tree, htree, hnode⟩ := List.mem_flatMap.mp hnode
  exact shaped node (List.mem_flatMap.mpr ⟨tree, h.trees htree, hnode⟩)

/-- What was taken off is put back under its name. -/
theorem restored {name : String} {item : Item} (h : TakenOff names bench bench')
    (only : ∀ other ∈ names, other = name) (found : bench.items.get? name = some item) :
    Restored bench (bench'.place name item) where
  items other := by
    rw [if_neg List.not_mem_nil]
    by_cases same : other = name
    · rw [same, found]
      exact Table.get?_insert_self _ _ _
    · rw [← h.get?_eq fun hother => same (only other hother)]
      exact Table.get?_insert_ne _ same _
  trees tree htree := by
    cases Table.mem_trees_of_insert htree with
    | inl here => exact Table.mem_trees_of_get? found here
    | inr other => exact h.trees other
  resolution := h.resolution
  supply := h.supply

end TakenOff

namespace Restored

theorem get?_eq (h : Restored bench bench') (name : String) :
    bench'.items.get? name = bench.items.get? name :=
  TakenOff.get?_eq h List.not_mem_nil

theorem listAt?_eq (h : Restored bench bench') (path : ListPath) :
    bench'.listAt? path = bench.listAt? path := listAt?_congr (h.get?_eq path.root)

end Restored

theorem takenOff_erase (bench : Workbench) (name : String) :
    TakenOff [name] bench { bench with items := bench.items.erase name } where
  items other := by
    by_cases same : other = name
    · rw [if_pos (List.mem_singleton.mpr same), same]
      exact Table.get?_erase_self _ _
    · rw [if_neg fun hother => same (List.mem_singleton.mp hother)]
      exact Table.get?_erase_ne _ same
  trees _ htree := Table.mem_trees_of_erase htree
  resolution := rfl
  supply := Nat.le_refl _

/-- A thing is put down where it already is. -/
theorem restored_place {name : String} {item : Item} (found : bench.items.get? name = some item) :
    Restored bench (bench.place name item) :=
  (TakenOff.refl bench).restored (List.forall_mem_nil _) found

end Workbench

/-! ## Writing back -/

theorem Node.Rewrites.eq_of_same {old node node' : Node} (h : Rewrites old old node node')
    (shaped : ∀ other ∈ node.nodes, other.Shaped) : node' = node := by
  induction h with
  | here => rfl
  | deeper found _ ih =>
      have hpart := mem_parts_of_list? found (List.mem_append_right _ List.mem_cons_self)
      rw [ih fun other hother => shaped other (mem_nodes_of_mem_parts hpart hother)]
      exact setList_self (shaped _ (self_mem_nodes _)).nodup_places found

theorem Item.Rewrites.eq_of_same {old : Node} {item item' : Item} (h : Rewrites old old item item')
    (shaped : ∀ tree ∈ item.trees, ∀ other ∈ tree.nodes, other.Shaped) : item' = item := by
  cases h with
  | root inner => rw [inner.eq_of_same (shaped _ (List.mem_singleton.mpr rfl))]
  | member kind inner =>
      rw [inner.eq_of_same (shaped _ (List.mem_append_right _ List.mem_cons_self))]
  | occupant kind inner => rw [inner.eq_of_same (shaped _ (List.mem_singleton.mpr rfl))]

namespace Workbench

variable {bench bench' : Workbench}

theorem Rewrites.restored {path : Path} {node : Node} (h : Rewrites path node node bench bench')
    (shaped : ∀ node ∈ bench.nodes, node.Shaped) : Restored bench bench' := by
  obtain ⟨item, item', found, rewrites, rfl⟩ := h.placed
  rw [rewrites.eq_of_same fun tree htree other hother =>
    shaped other (mem_nodes_of_get? found htree hother)]
  exact restored_place found

theorem RewritesList.restored {path : ListPath} {list : ChildList Node}
    (h : RewritesList bench path list list bench') (shaped : ∀ node ∈ bench.nodes, node.Shaped) :
    Restored bench bench' := by
  cases h with
  | register new found => exact restored_place found
  | branch role_ne found inner =>
      have hnode := shaped _ (mem_nodes_of_nodeAt? inner.found)
      rw [Node.setList_self hnode.nodup_places found] at inner
      exact inner.restored shaped

/-- A list is replaced by itself. -/
theorem restored_of_replaceList {path : ListPath} {kind : Kind} {list : ChildList Node}
    (shaped : ∀ node ∈ bench.nodes, node.Shaped) (found : bench.listAt? path = some (kind, list))
    (h : Returns (changeList path fun _ => .ok ((), list)) bench () bench') :
    Restored bench bench' := by
  obtain ⟨_, old, _, found', changed, rewrites⟩ := exists_of_changeList h
  obtain ⟨-, rfl⟩ := Prod.mk.inj (Except.ok.inj changed)
  rw [found] at found'
  cases found'
  exact rewrites.restored shaped

/-- A node is replaced by itself. -/
theorem restored_of_replaceNode {path : Path} {node : Node}
    (shaped : ∀ node ∈ bench.nodes, node.Shaped) (found : bench.nodeAt? path = some node)
    (h : Returns (modifyNode path fun _ => node) bench () bench') : Restored bench bench' := by
  obtain ⟨old, _, changed, rewrites⟩ := exists_of_changeNode h
  obtain ⟨-, rfl⟩ := Prod.mk.inj (Except.ok.inj changed)
  obtain rfl := Option.some.inj (found.symm.trans rewrites.found)
  exact rewrites.restored shaped

end Workbench

/-! ## Two things at once -/

section Both

variable {ε π σ : Type} {access : Access π σ} {look : Workbench → π → Option σ}
  {locate : Workbench → π → Option Site} {source dest : π} {run : InPlace ε (σ × σ) α}

theorem TreesAllow.inBoth (lawful : access.Lawful look locate)
    (writes : ∀ path value, TreesAllow (access.write path value)) (source dest : π)
    (run : InPlace ε (σ × σ) α) : TreesAllow (BenchM.inBoth access source dest run) :=
  .bind (.of_reads (lawful.reads_site source)) fun _ =>
    .bind (.of_reads (lawful.reads_site dest)) fun _ => .bind (.requireThat _) fun _ =>
      .bind (.of_reads (lawful.reads source)) fun _ => .bind (.of_reads (lawful.reads dest)) fun _ =>
        .bind (writes source _) fun _ => .bind (writes dest _) fun _ => .pure _

/-- What a move between two places has come to. If it is not refused, what is found at the two
places is what the move makes of what was found there. If it is refused, all is as it was. -/
def Workbench.Moved (look : Workbench → π → Option σ) (move : σ → σ → Except ε (σ × σ))
    (source dest : π) (bench bench' : Workbench) (result : Except ε Unit) : Prop :=
  ∃ first second, look bench source = some first ∧ look bench dest = some second ∧
    match result with
    | .ok _ => ∃ left joined, move first second = .ok (left, joined) ∧
        look bench' source = some left ∧ look bench' dest = some joined
    | .error e => move first second = .error e ∧ Restored bench bench'

variable {bench bench₁ bench' : Workbench} {move : σ → σ → Except ε (σ × σ)}
  {result : Except ε Unit}

theorem Workbench.Moved.of_untouched (same : Untouched bench bench₁)
    (looks : ∀ path, look bench₁ path = look bench path)
    (h : Moved look move source dest bench₁ bench' result) :
    Moved look move source dest bench bench' result := by
  obtain ⟨first, second, found, found', ended⟩ := h
  rw [looks] at found found'
  refine ⟨first, second, found, found', ?_⟩
  cases result with
  | ok _ => exact ended
  | error e => exact ⟨ended.1, same.restored.trans ended.2⟩

/-- An operation on two things that is done as a whole moves between them. -/
theorem moved_of_inBoth {run : InPlace ε (σ × σ) Unit} (lawful : access.Lawful look locate)
    (rewrites : ∀ {path value bench bench'}, (∀ node ∈ bench.nodes, node.Shaped) →
      look bench path = some value → Returns (access.write path value) bench () bench' →
        Restored bench bench')
    (shaped : ∀ node ∈ bench.nodes, node.Shaped)
    (whole : ∀ first second, look bench source = some first → look bench dest = some second →
      outcome run (first, second) = allOrNothing (first, second) ((move first second).map ((), ·)))
    (h : Returns (inBoth access source dest run) bench result bench') :
    Moved look move source dest bench bench' result := by
  obtain ⟨first, second, between, found, found', ended, wrote, wrote', there, left, joined⟩ :=
    lawful.returned_inBoth h
  rw [whole first second found found'] at ended wrote wrote' left joined
  refine ⟨first, second, found, found', ?_⟩
  cases moving : move first second with
  | ok pair =>
      rw [moving] at ended left joined
      obtain rfl := ended
      exact ⟨pair.1, pair.2, rfl, left, joined⟩
  | error e =>
      rw [moving] at ended wrote wrote'
      obtain rfl := ended
      have once := rewrites shaped found wrote
      exact ⟨rfl, once.trans (rewrites (once.shaped shaped) there wrote')⟩

end Both

end DeclTree
