import DeclTree.Proofs.Ordinals.Run
import DeclTree.Proofs.Ordinals.Unplaced
import DeclTree.Proofs.Ownership.Run

/-!
# Parameters outside methods

In a run that builds and copies nodes and arranges the parameters of methods, a parameter without an
owner has no position: its ordinal is zero. The exception is the copy of a parameter that was copied
by itself. It takes the ordinal of its original along and keeps it until it is added to a method.

Each step is followed from the trees on the workbench to the trees it leaves there. A tree either
was there before, with the same identity, owner and position, or has no position, or is the copy
that the step has made.
-/

namespace DeclTree

open BenchM Node

/-- Whether the step builds or copies a node, arranges the parameters of methods, throws something
away or only asks. -/
def Step.arranges : Step → Bool
  | .node (.build _ _) | .node (.copy _ _) | .node (.query _ _) | .compare _ | .parameter _
  | .drop _ => true
  | _ => false

theorem Step.admissible_of_arranges {bench : Workbench} {step : Step} (h : step.arranges) :
    step.admissible bench := by
  unfold Step.arranges at h
  split at h <;> first | rfl | cases h

theorem Node.ordinal?_eq_some {node : Node} (h : node.kind = .parameter) :
    node.ordinal? = some node.body.ordinal := by
  obtain ⟨header, body, branches⟩ := node
  cases body <;> first | rfl | cases h

theorem Node.kind_of_ordinal?_eq {node other : Node} (h : node.ordinal? = other.ordinal?)
    (kind : node.kind = .parameter) : other.kind = .parameter := by
  rw [ordinal?_eq_some kind] at h
  exact kind_of_ordinal? h.symm

theorem Node.eq_or_exists_mem_parts {tree node : Node} (h : node ∈ tree.nodes) :
    node = tree ∨ ∃ other ∈ tree.nodes, node ∈ other.parts := by
  induction tree using Node.induction with
  | step tree ih =>
      rcases mem_nodes.mp h with same | ⟨part, hpart, hnode⟩
      · exact .inl same
      · rcases ih part hpart hnode with rfl | ⟨other, hother, hnode⟩
        · exact .inr ⟨tree, tree.self_mem_nodes, hpart⟩
        · exact .inr ⟨other, mem_nodes_of_mem_parts hpart hother, hnode⟩

namespace Workbench

variable {α β : Type} {bench bench' start : Workbench} {P : Node → Prop}

/-! ## Computations that lose trees -/

namespace Every

theorem moves (h : bench.Every P) {run : BenchM α} (moves : Moves Fewer run) :
    (outcome run bench).2.Every P :=
  h.fewer (moves bench)

theorem bind_moves {run : BenchM α} {next : α → BenchM β} (h : bench.Every P)
    (moves : Moves Fewer run)
    (rest : ∀ a bench', Returns run bench a bench' → bench'.Every P →
      (outcome (next a) bench').2.Every P) : (outcome (run >>= next) bench).2.Every P := by
  have moved := moves bench
  refine h.bind (fun refused => ?_) fun a bench' returned => rest a bench' returned ?_
  · rwa [refused] at moved
  · rw [returned] at moved
    exact h.fewer moved

/-- A node is put down at the end. -/
theorem bind_putNode? {next : Unit → BenchM β} (h : bench.Every P) {node? : Option Node}
    (new : ∀ node ∈ node?, P node) (name? : Option String) (rest : Moves Fewer (next ())) :
    (outcome (putNode? name? node? >>= next) bench).2.Every P := by
  cases name? with
  | none => exact h.moves rest
  | some name =>
      cases node? with
      | none => exact h.moves rest
      | some node =>
          have placed : (bench.place name (.node node)).Every P :=
            h.place (List.forall_mem_singleton.mpr (new node rfl))
          exact placed.moves rest

end Every

theorem takeNode_moves (name : String) : Moves Fewer (takeNode name) := by
  intro bench
  rcases ended : outcome (takeNode name) bench with ⟨reason | node, bench'⟩
  · exact (takeNode_cautious ended).fewer
  · obtain ⟨-, rfl⟩ := returned_takeNode ended
    exact fun tree htree => Table.mem_trees_of_erase htree

theorem takeParameter_moves (name : String) : Moves Fewer (takeParameter name) :=
  moves_bind (takeNode_moves name) fun _ => moves_bind (moves_pure _) fun _ =>
    moves_bind (requireThat_moves _) fun _ => moves_pure _

theorem mem_trees_of_takeParameter {name : String} {node : Node}
    (h : Returns (takeParameter name) bench node bench') : node ∈ bench.items.trees :=
  Table.mem_trees_of_get? (returned_takeOfKind (reads_pure _) h).1.1 (List.mem_singleton.mpr rfl)

theorem subset_trees_of_takeParameters {names : List String} {nodes : List Node}
    (h : Returns (names.mapM takeParameter) bench nodes bench') : nodes ⊆ bench.items.trees := by
  have threads := returns_mapM.mp h
  clear h
  induction threads with
  | nil => exact List.nil_subset _
  | @cons name _ node _ bench bench₁ _ first _ ih =>
      have fewer := takeParameter_moves name bench
      rw [first] at fewer
      exact List.cons_subset.mpr ⟨mem_trees_of_takeParameter first, List.Subset.trans ih fewer⟩

/-! ## Changes at the end of a path -/

/-- The tree is in order below its root. The root has no position, or it was on the workbench before
and nothing has changed about its standing. -/
structure Settled (start : Workbench) (tree : Node) : Prop where
  below : tree.All PlacesParameters
  root : tree.body.ordinal = 0 ∨ ∃ root ∈ start.items.trees, root.SameStanding tree

theorem settled_self (h : bench.Every (All PlacesParameters)) : bench.Every bench.Settled :=
  fun tree htree => ⟨h tree htree, .inr ⟨tree, htree, .refl tree⟩⟩

theorem settled_of_unplaced {tree : Node} (h : tree.Unplaced) : start.Settled tree :=
  ⟨h.below, .inl h.root⟩

theorem Every.below (h : bench.Every start.Settled) {node : Node} (there : node ∈ bench.nodes) :
    node.All PlacesParameters := by
  obtain ⟨tree, htree, hnode⟩ := List.mem_flatMap.mp there
  exact fun other hother => (h tree htree).below other ((nodes_sublist_nodes hnode).subset hother)

theorem Every.rewrites {path : Path} {old new : Node} (h : bench.Every start.Settled)
    (rewrites : Rewrites path old new bench bench') (same : old.SameStanding new)
    (changed : new.All PlacesParameters) : bench'.Every start.Settled := by
  obtain ⟨item, item', found, inner, rfl⟩ := rewrites.placed
  have before := fun tree htree => h tree (Table.mem_trees_of_get? found htree)
  refine h.place fun tree' htree' => ⟨?_, ?_⟩
  · exact inner.all keptByMembers_placesParameters same.ordinal changed
      (fun tree htree => (before tree htree).below) tree' htree'
  · obtain ⟨tree, htree, standing⟩ := inner.exists_standing same tree' htree'
    rcases (before tree htree).root with unplaced | ⟨root, hroot, earlier⟩
    · rw [ordinal_body_congr standing.ordinal]
      exact .inl unplaced
    · exact .inr ⟨root, hroot, earlier.trans standing⟩

/-- An operation in place that keeps the standing of a node and the order below it. -/
theorem Every.inNode {ε : Type} {path : Path} {run : InPlace ε Node α}
    {next : Except ε α → BenchM β} (h : bench.Every start.Settled) (numbered : bench.Numbered)
    (back : Except ε α → Prop)
    (keeps : ∀ old : Node, old.Numbered → old.All PlacesParameters →
      old.SameStanding (outcome run old).2 ∧ (outcome run old).2.All PlacesParameters ∧
        back (outcome run old).1)
    (rest : ∀ result bench', bench'.Every start.Settled → back result →
      (outcome (next result) bench').2.Every start.Settled) :
    (outcome (BenchM.inNode path run >>= next) bench).2.Every start.Settled := by
  refine h.bind (fun refused => (changeNode_cautious refused).fewer) fun result bench' returned => ?_
  obtain ⟨old, rfl, rewrites⟩ := returned_inNode returned
  have there := mem_nodes_of_nodeAt? rewrites.found
  obtain ⟨same, below, hback⟩ := keeps old (numbered old there) (h.below there)
  exact rest _ bench' (h.rewrites rewrites same below) hback

/-- Things are only lost after a computation. -/
theorem Every.then_moves {run : BenchM α} {next : α → BenchM β}
    (h : (outcome run bench).2.Every P) (rest : ∀ a, Moves Fewer (next a)) :
    (outcome (run >>= next) bench).2.Every P := by
  rw [outcome_bind]
  rcases ended : outcome run bench with ⟨reason | a, bench'⟩
  · rwa [ended] at h
  · rw [ended] at h
    exact h.moves (rest a)

/-- A node is replaced by what a change has made of it. -/
theorem Every.replaceNode {path : Path} {old new : Node} {next : Unit → BenchM β}
    {ins outs : List Node} (h : bench.Every start.Settled) (found : bench.nodeAt? path = some old)
    (change : NodeChange ins outs old new) (below : new.All PlacesParameters)
    (rest : ∀ bench', Returns (nodeAccess.write path new) bench () bench' →
      bench'.Every start.Settled → (outcome (next ()) bench').2.Every start.Settled) :
    (outcome (nodeAccess.write path new >>= next) bench).2.Every start.Settled := by
  refine h.bind (fun refused => (changeNode_cautious refused).fewer) fun _ bench' returned => ?_
  obtain ⟨_, _, changed, rewrites⟩ := exists_of_changeNode returned
  obtain ⟨-, rfl⟩ := Prod.mk.inj (Except.ok.inj changed)
  obtain rfl := Option.some.inj (found.symm.trans rewrites.found)
  exact rest bench' returned (h.rewrites rewrites change.standing below)

/-- Nodes that go from one node to another have no position in between. -/
theorem Every.inBoth {ε : Type} {run : InPlace ε (Node × Node) α} (h : bench.Every start.Settled)
    (numbered : bench.Numbered)
    (changes : ∀ first second : Node, first.Numbered → second.Numbered →
      ∃ moved, NodeChange [] moved first (outcome run (first, second)).2.1 ∧
        NodeChange moved [] second (outcome run (first, second)).2.2) (source dest : Path) :
    (outcome (BenchM.inBoth nodeAccess source dest run) bench).2.Every start.Settled := by
  refine h.bind_moves (reads_siteOf source).moves fun site _ returned _ => ?_
  obtain ⟨rfl, here⟩ := (reads_siteOf source).returned returned
  refine h.bind_moves (reads_siteOf dest).moves fun other _ returned _ => ?_
  obtain ⟨rfl, there⟩ := (reads_siteOf dest).returned returned
  refine h.bind_moves (requireThat_moves _) fun _ _ returned _ => ?_
  obtain ⟨rfl, apart⟩ := returned_requireThat returned
  refine h.bind_moves (reads_nodeAt source).moves fun first _ returned _ => ?_
  obtain ⟨rfl, found⟩ := (reads_nodeAt source).returned returned
  refine h.bind_moves (reads_nodeAt dest).moves fun second _ returned _ => ?_
  obtain ⟨rfl, found'⟩ := (reads_nodeAt dest).returned returned
  have inside := mem_nodes_of_nodeAt? found
  have inside' := mem_nodes_of_nodeAt? found'
  obtain ⟨moved, out, into⟩ :=
    changes first second (numbered first inside) (numbered second inside')
  obtain ⟨unplaced, below⟩ := out.unplaced (List.forall_mem_nil _) (h.below inside)
  obtain ⟨-, below'⟩ := into.unplaced unplaced (h.below inside')
  refine h.replaceNode found out below fun bench₁ wrote settled => ?_
  have found' := (nodeAt?_of_apart wrote here there apart).trans found'
  exact settled.replaceNode found' into below' fun bench₂ _ settled => settled.moves (moves_pure _)

/-! ## Steps on parameters -/

/-- Parameters may come with any position, for they are numbered anew. -/
theorem settled_of_insertParameters {ε : Type} {node : Node} {ins : List Node}
    {run : InPlace ε (ChildList Node) Unit}
    {insert : ChildList Node → Except ε (ChildList Node)}
    (whole : ∀ list, outcome run list = allOrNothing list ((insert list).map ((), ·)))
    (change : ∀ {list list'}, insert list = .ok list' → ListChange ins [] list list')
    (given : ∀ tree ∈ ins, tree.All PlacesParameters) (numbered : node.Numbered)
    (below : node.All PlacesParameters) :
    node.SameStanding (outcome (InPlace.insertParameters run) node).2 ∧
      (outcome (InPlace.insertParameters run) node).2.All PlacesParameters := by
  cases found : node.list? .parameters with
  | none =>
      rw [InPlace.outcome_insertParameters_of_none found]
      exact ⟨.refl node, below⟩
  | some list =>
      rw [InPlace.outcome_insertParameters found, whole]
      cases inserted : insert list with
      | error e =>
          refine ⟨⟨rfl, rfl, rfl⟩, ?_⟩
          change (node.setList .parameters list).All PlacesParameters
          rw [InPlace.setList_eq_withParameters numbered found]
          exact (below.setParameters found (.keep ins list) given).2
      | ok list' =>
          exact ⟨⟨rfl, rfl, rfl⟩, (below.setParameters found (change inserted) given).2⟩

theorem Every.insertParameters {ins : List Node} {run : InPlace TreeError (ChildList Node) Unit}
    {insert : ChildList Node → Except TreeError (ChildList Node)} (h : bench.Every start.Settled)
    (numbered : bench.Numbered) (given : ∀ tree ∈ ins, tree.All PlacesParameters)
    (whole : ∀ list, outcome run list = allOrNothing list ((insert list).map ((), ·)))
    (change : ∀ {list list'}, insert list = .ok list' → ListChange ins [] list list') (path : Path) :
    (outcome (do
      ofTree (← BenchM.inNode path (InPlace.insertParameters run))
      return Answer.parameters (← parametersAt path)) bench).2.Every start.Settled := by
  refine h.inNode numbered (fun _ => True) (fun node numbered below => ?_)
    fun result bench' settled _ => settled.moves ?_
  · obtain ⟨same, below⟩ := settled_of_insertParameters whole change given numbered below
    exact ⟨same, below, trivial⟩
  · exact moves_bind (ofTree_moves _) fun _ => moves_bind (parametersAt_moves path) fun _ =>
      moves_pure _

theorem settled_addParameter (numbered : bench.Numbered) (h : bench.Every (All PlacesParameters))
    (path : Path) (name : String) :
    (outcome (ParameterStep.add path name).run bench).2.Every bench.Settled := by
  refine (settled_self h).bind_moves (takeParameter_moves name) fun node bench₁ taken settled => ?_
  have given := h node (mem_trees_of_takeParameter taken)
  have fewer := takeParameter_moves name bench
  rw [taken] at fewer
  exact settled.insertParameters (numbered.fewer fewer) (List.forall_mem_singleton.mpr given)
    (InPlace.outcome_add node) ChildList.change_of_add path

theorem settled_addParameters (numbered : bench.Numbered) (h : bench.Every (All PlacesParameters))
    (path : Path) (names : List String) :
    (outcome (ParameterStep.addAll path names).run bench).2.Every bench.Settled := by
  have moves : Moves Fewer (names.mapM takeParameter) :=
    moves_mapM fun name _ => takeParameter_moves name
  refine (settled_self h).bind_moves moves fun nodes bench₁ taken settled => ?_
  have given := fun tree htree => h tree (subset_trees_of_takeParameters taken htree)
  have fewer := moves bench
  rw [taken] at fewer
  exact settled.insertParameters (numbered.fewer fewer) given (InPlace.outcome_addRange nodes)
    ChildList.change_of_addRange path

theorem settled_removeParameter (numbered : bench.Numbered) (h : bench.Every (All PlacesParameters))
    (path : Path) (id : IdRef) (target : Option String) :
    (outcome (ParameterStep.remove path id target).run bench).2.Every bench.Settled := by
  have asked : Moves Fewer (idOf id) := (idOf_moves id).mono Untouched.fewer
  refine (settled_self h).bind_moves asked fun id bench₁ returned settled => ?_
  have fewer := asked bench
  rw [returned] at fewer
  refine settled.inNode (numbered.fewer fewer)
    (fun result => ∀ node ∈ handedOut Option.toList result, node.Unplaced)
    (fun method numbered below => ?_) fun result bench₂ settled unplaced => ?_
  · obtain ⟨left, change⟩ := InPlace.removeParameter_changes numbered
    obtain ⟨back, below⟩ := change.unplaced (List.forall_mem_nil _) below
    exact ⟨change.standing, below, fun node hnode => back node (List.mem_append_right _ hnode)⟩
  · refine settled.bind_moves (ofTree_moves result) fun removed bench₃ returned settled => ?_
    obtain ⟨rfl, rfl⟩ := returned_ofTree returned
    refine settled.bind_moves (parametersAt_moves path) fun rest bench₄ _ settled => ?_
    refine settled.bind_putNode? (fun node hnode => ?_) target (moves_pure _)
    exact settled_of_unplaced (unplaced node (Option.mem_toList.mpr hnode))

theorem settled_moveParameter (numbered : bench.Numbered) (h : bench.Every (All PlacesParameters))
    (source : Path) (id : IdRef) (dest : Path) :
    (outcome (ParameterStep.move source id dest).run bench).2.Every bench.Settled := by
  have asked : Moves Fewer (idOf id) := (idOf_moves id).mono Untouched.fewer
  refine (settled_self h).bind_moves asked fun id bench₁ returned settled => ?_
  have fewer := asked bench
  rw [returned] at fewer
  refine (settled.inBoth (numbered.fewer fewer)
    (fun _ _ => InPlace.exists_changes_moveParameter id) source dest).then_moves fun _ => ?_
  exact moves_bind (ofTree_moves _) fun _ => moves_bind (parametersAt_moves source) fun _ =>
    moves_bind (parametersAt_moves dest) fun _ => moves_pure _

/-! ## Steps -/

/-- The tree is the copy that the step makes of the node it finds. -/
def CopiedBy (bench : Workbench) (step : Step) (tree : Node) : Prop :=
  ∃ path target original, step = .node (.copy path target) ∧ bench.nodeAt? path = some original ∧
    tree.id = ⟨bench.world.supply.nextNode⟩ ∧ tree.ordinal? = original.ordinal?

/-- Like a settled tree, except that a copy may bring a position along. -/
structure Follows (bench : Workbench) (step : Step) (tree : Node) : Prop where
  below : tree.All PlacesParameters
  root : tree.body.ordinal = 0 ∨ (∃ root ∈ bench.items.trees, root.SameStanding tree) ∨
    bench.CopiedBy step tree

theorem Every.follows {step : Step} (h : bench'.Every bench.Settled) :
    bench'.Every (bench.Follows step) :=
  fun tree htree => ⟨(h tree htree).below, (h tree htree).root.imp_right Or.inl⟩

theorem settled_build (h : bench.Every (All PlacesParameters)) (plan : Blueprint)
    (target : String) :
    (outcome (NodeStep.build plan target).run bench).2.Every bench.Settled := by
  have moves : Moves Fewer (building plan.build) :=
    moves_bind (fun bench => fewer_of_items rfl) fun result => ofTree_moves result
  refine (settled_self h).bind_moves moves fun node bench₁ returned settled => ?_
  obtain ⟨world, built, rfl⟩ := exists_of_building returned
  have unplaced := plan.build_builds.unplaced _ _ _ built node (List.mem_singleton.mpr rfl)
  have new : ∀ other ∈ some node, bench.Settled other := by
    simpa using settled_of_unplaced unplaced
  exact settled.bind_putNode? new (some target) (answerTree_moves node)

theorem follows_copy (h : bench.Every (All PlacesParameters)) (path : Path) (target : String) :
    (outcome (NodeStep.copy path target).run bench).2.Every
      (bench.Follows (.node (.copy path target))) := by
  refine (settled_self h).follows.bind_moves (reads_nodeAt path).moves
    fun original bench₁ returned follows => ?_
  obtain ⟨same, found⟩ := (reads_nodeAt path).returned returned
  rw [same] at follows ⊢
  have moves : Moves Fewer (copying original.copy) :=
    (copying_moves original.copy_moves).mono Untouched.fewer
  refine follows.bind_moves moves fun copy bench₂ returned follows => ?_
  obtain ⟨supply, copied, rfl⟩ := exists_of_copying returned
  have new : ∀ other ∈ some copy, bench.Follows (.node (.copy path target)) other := by
    have copyOf := CopyOf.of_returns copied
    have below := ((settled_self h).below (mem_nodes_of_nodeAt? found)).copy copyOf
    have id : copy.id = ⟨bench.world.supply.nextNode⟩ := by
      rw [Node.id, (copy_returns copied).2.1]
      rfl
    rintro _ ⟨⟩
    exact ⟨below, .inr (.inr ⟨path, target, original, rfl, found, id, copyOf.repeats.ordinal?⟩)⟩
  exact follows.bind_putNode? new (some target) (answerTree_moves copy)

theorem follows_step {step : Step} (numbered : bench.Numbered)
    (h : bench.Every (All PlacesParameters)) (arranges : step.arranges) :
    (bench.step step).2.Every (bench.Follows step) := by
  cases asks : step.asks with
  | true => exact (settled_self h).follows.fewer (fewer_of_items (reading_of_asks asks).items)
  | false =>
      unfold Step.arranges at arranges
      split at arranges
      next plan target => exact (settled_build h plan target).follows
      next path target => exact follows_copy h path target
      next => cases asks
      next => cases asks
      next step =>
        cases step with
        | add path name => exact (settled_addParameter numbered h path name).follows
        | addAll path names => exact (settled_addParameters numbered h path names).follows
        | remove path id target => exact (settled_removeParameter numbered h path id target).follows
        | move source id dest => exact (settled_moveParameter numbered h source id dest).follows
      next name => exact (settled_self h).follows.fewer (fewer_erase bench name)
      next => cases arranges

/-! ## Runs -/

/-- The node is the copy of a parameter that was copied by itself during the steps. Ever since, it
has been without an owner, and its ordinal has been that of the original when it was copied. -/
inductive Stray (bench : Workbench) (steps : List Step) (copy : Node) : Prop where
  | intro (earlier later : List Step) (path : Path) (target : String) (original : Node)
      (split : steps = earlier ++ .node (.copy path target) :: later)
      (found : (bench.run earlier).2.nodeAt? path = some original)
      (kind : original.kind = .parameter)
      (id : copy.id = ⟨(bench.run earlier).2.world.supply.nextNode⟩)
      (ordinal : copy.ordinal? = original.ordinal?)
      (since : ∀ middle, middle <+: later →
        ∃ node ∈ (bench.run (earlier ++ .node (.copy path target) :: middle)).2.nodes,
          node.id = copy.id ∧ node.parent = none ∧ node.ordinal? = original.ordinal?)

theorem run_snoc (steps : List Step) (step : Step) :
    (bench.run (steps ++ [step])).2 = ((bench.run steps).2.step step).2 := by
  rw [run_append]
  rfl

theorem self_mem_nodes {tree : Node} (h : tree ∈ bench.items.trees) : tree ∈ bench.nodes :=
  List.mem_flatMap.mpr ⟨tree, h, tree.self_mem_nodes⟩

section Run

variable {steps : List Step} {step : Step} {root tree : Node}

/-- Another step leaves the copy alone. -/
theorem Stray.snoc (h : bench.Stray steps root) (same : root.SameStanding tree)
    (there : tree ∈ (bench.run (steps ++ [step])).2.nodes) (free : tree.parent = none) :
    bench.Stray (steps ++ [step]) tree := by
  obtain ⟨earlier, later, path, target, original, rfl, found, kind, id, ordinal, since⟩ := h
  have ordinal : tree.ordinal? = original.ordinal? := same.ordinal.trans ordinal
  have split : earlier ++ .node (.copy path target) :: later ++ [step] =
      earlier ++ .node (.copy path target) :: (later ++ [step]) := by simp
  refine ⟨earlier, later ++ [step], path, target, original, split, found, kind, same.id.trans id,
    ordinal, fun middle hmiddle => ?_⟩
  rcases List.prefix_concat_iff.mp hmiddle with rfl | hmiddle
  · rw [← split]
    exact ⟨tree, there, rfl, free, ordinal⟩
  · rw [same.id]
    exact since middle hmiddle

/-- A parameter has just been copied by itself. -/
theorem CopiedBy.stray (h : (bench.run steps).2.CopiedBy step tree) (kind : tree.kind = .parameter)
    (there : tree ∈ (bench.run (steps ++ [step])).2.nodes) (free : tree.parent = none) :
    bench.Stray (steps ++ [step]) tree := by
  obtain ⟨path, target, original, rfl, found, id, ordinal⟩ := h
  refine ⟨steps, [], path, target, original, rfl, found, kind_of_ordinal?_eq ordinal kind, id,
    ordinal, fun middle empty => ?_⟩
  rw [List.prefix_nil.mp empty]
  exact ⟨tree, there, rfl, free, ordinal⟩

/-- What holds in every state of a run. -/
structure Arranged (bench : Workbench) (steps : List Step) : Prop where
  sound : (bench.run steps).2.Sound
  below : (bench.run steps).2.Every (All PlacesParameters)
  roots : ∀ root ∈ (bench.run steps).2.items.trees, root.kind = .parameter → root.parent = none →
    root.ordinal? = some 0 ∨ bench.Stray steps root

theorem arranged_nil (empty : bench.items.trees = []) : bench.Arranged [] where
  sound := sound_of_no_trees empty
  below tree htree := by
    rw [run, empty] at htree
    cases htree
  roots root hroot := by
    rw [run, empty] at hroot
    cases hroot

theorem Arranged.snoc (h : bench.Arranged steps) (arranges : step.arranges) :
    bench.Arranged (steps ++ [step]) := by
  have follows := follows_step h.sound.numbered h.below arranges
  rw [← run_snoc] at follows
  refine ⟨?_, fun tree htree => (follows tree htree).below, fun tree htree kind free => ?_⟩
  · rw [run_snoc]
    exact h.sound.step (Step.admissible_of_arranges arranges)
  · have there := self_mem_nodes htree
    rcases (follows tree htree).root with unplaced | ⟨root, hroot, same⟩ | copied
    · rw [ordinal?_eq_some kind, unplaced]
      exact .inl rfl
    · have kind := kind_of_ordinal?_eq same.ordinal kind
      rcases h.roots root hroot kind (same.parent.symm.trans free) with zero | stray
      · exact .inl (same.ordinal.trans zero)
      · exact .inr (stray.snoc same there free)
    · exact .inr (copied.stray kind there free)

theorem arranged_run (empty : bench.items.trees = []) (arranges : ∀ step ∈ steps, step.arranges) :
    bench.Arranged steps := by
  induction steps using List.reverseRecOn with
  | nil => exact arranged_nil empty
  | append_singleton steps step ih =>
      obtain ⟨before, last⟩ := List.forall_mem_append.mp arranges
      exact (ih before).snoc (last step (List.mem_singleton.mpr rfl))

end Run

/-- After every run of such steps, from a workbench without nodes on, a parameter without an owner
has the ordinal zero, unless it was copied by itself and has been without an owner since. -/
theorem detached_parameters_have_no_position_unless_copied {steps : List Step}
    (empty : bench.items.trees = []) (arranges : ∀ step ∈ steps, step.arranges) :
    ∀ parameter ∈ (bench.run steps).2.nodes, parameter.kind = .parameter →
      parameter.parent = none → parameter.ordinal? = some 0 ∨ bench.Stray steps parameter := by
  intro parameter there kind free
  have arranged := arranged_run empty arranges
  obtain ⟨tree, htree, hparameter⟩ := List.mem_flatMap.mp there
  rcases eq_or_exists_mem_parts hparameter with rfl | ⟨node, hnode, hpart⟩
  · exact arranged.roots parameter htree kind free
  · -- Lists own what is in them, so the parameter is held by a probe.
    obtain ⟨branch, hbranch, hitem⟩ := List.mem_flatMap.mp hpart
    have unlisted : branch.place ≠ .list .parameters := by
      intro place
      match branch, place with
      | .list _ list, _ =>
          have owned := arranged.sound.ownership.innerList node
            (List.mem_flatMap.mpr ⟨tree, htree, hnode⟩) hbranch
          have parent := (owned.2 parameter hitem).1
          rw [free] at parent
          cases parent
    rw [ordinal?_eq_some kind, arranged.below tree htree node hnode branch hbranch unlisted _ hitem]
    exact .inl rfl

/-- The ordinals of all parameters without an owner. -/
def detachedOrdinals (bench : Workbench) : List (Option Nat) :=
  (bench.nodes.filter fun node => node.kind = .parameter ∧ node.parent = none).map Node.ordinal?

/-- A parameter is copied by itself and the copy is copied again. Two methods trade parameters and
one of them is copied. A parameter leaves the copy of the method, and the second of the copied
parameters goes into a method and out again. The last step is refused. -/
def sampleArrangement : List Step :=
  let sell : Path := ⟨"sell", []⟩
  let buy : Path := ⟨"buy", []⟩
  let trade : Path := ⟨"trade", []⟩
  let parameter (method : Path) (index : Nat) : Path :=
    ⟨method.register, [.members .parameters, .index index]⟩
  let named (name : String) : ParameterPlan := { header := { name } }
  [.node (.build (.method
      { header := { name := "Sell" }, parameters := [named "a", named "b", named "c"] }) "sell"),
    .node (.build (.method { header := { name := "Buy" }, parameters := [named "d"] }) "buy"),
    .node (.copy (parameter sell 1) "alone"),
    .node (.copy ⟨"alone", []⟩ "again"),
    .parameter (.move sell (.node (parameter sell 0)) buy),
    .node (.copy buy "trade"),
    .parameter (.remove trade (.node (parameter trade 1)) (some "left")),
    .parameter (.add buy "again"),
    .parameter (.remove buy (.node (parameter buy 2)) (some "again")),
    .parameter (.add buy "gone")]

theorem detached_parameters_have_no_position_unless_copied_of_sampleArrangement :
    ({} : Workbench).items.trees = [] ∧ (∀ step ∈ sampleArrangement, step.arranges) ∧
      (({} : Workbench).run sampleArrangement).1.map Except.toBool =
        [true, true, true, true, true, true, true, true, true, false] ∧
      (({} : Workbench).run sampleArrangement).2.detachedOrdinals = [some 0, some 0, some 1] ∧
      ∀ parameter ∈ (({} : Workbench).run sampleArrangement).2.nodes, parameter.kind = .parameter →
        parameter.parent = none →
          parameter.ordinal? = some 0 ∨ ({} : Workbench).Stray sampleArrangement parameter :=
  ⟨rfl, by decide, by decide +kernel, by decide +kernel,
    detached_parameters_have_no_position_unless_copied rfl (by decide)⟩

/-- The second parameter of a method is copied by itself: the copy has no owner and the ordinal
one. -/
def sampleCopy : List Step :=
  [.node (.build (.method
      { header := { name := "F" }
        parameters := [{ header := { name := "a" } }, { header := { name := "b" } }] }) "m"),
    .node (.copy ⟨"m", [.members .parameters, .index 1]⟩ "c")]

theorem copied_parameter_has_position_without_owner :
    ({} : Workbench).items.trees = [] ∧ (∀ step ∈ sampleCopy, step.arranges) ∧
      ¬ ∀ parameter ∈ (({} : Workbench).run sampleCopy).2.nodes, parameter.kind = .parameter →
        parameter.parent = none → parameter.ordinal? = some 0 :=
  ⟨rfl, by decide, by decide +kernel⟩

end Workbench

end DeclTree
