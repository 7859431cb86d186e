import DeclTree.Proofs.Ownership.Run
import DeclTree.Proofs.Resolution.Binding
import Mathlib.Data.Nat.Init

/-!
# Symbols in every state of a run

A run starts from a workbench without nodes on which no symbol is kept. Nodes are bound, copied,
renamed and given resolvers, resolvers change and fail for a while, and symbols are read, all in any
order. Whatever the steps and whichever of them are refused, a node that has a symbol keeps it and
never asks again, a node without one asks its resolver of the moment once for each read, and what it
keeps is what it was answered.
-/

namespace DeclTree

open BenchM Node

/-- The answer to a question that needs the symbol of a node, once that has been read. -/
def NodeQuery.answer? (header : Header) (read : Except ResolutionError Symbol) :
    NodeQuery → Option (Except Refusal Answer)
  | .resolve => some (read.mapError .resolution |>.map fun symbol => .symbol (some symbol))
  | .symbol => some (.ok (.symbol read.toOption))
  | .outerName =>
      some (.ok (.text (read.toOption.map fun symbol => symbol.outerName header.name)))
  | .namespaceName => some (.ok (.text (read.toOption.map Symbol.namespaceName)))
  | .qualifiedName =>
      some (.ok (.text (read.toOption.map fun symbol => symbol.qualifiedName header.name)))
  | _ => none

theorem Step.builds_of_asks {step : Step} (asks : step.asks) : step.builds = false := by
  unfold Step.asks at asks
  split at asks <;> first | rfl | cases asks

namespace Workbench

/-- The symbol that is kept for a node. -/
def kept? (bench : Workbench) (id : NodeId) : Option Symbol := bench.world.resolution.cache.get? id

/-- The workbench in another state of resolution. -/
def withResolution (bench : Workbench) (resolution : Resolution) : Workbench :=
  bench.withWorld { bench.world with resolution }

/-- The requests that a step makes. Only steps that ask and steps that build make any: the former
for nodes on the workbench, the latter for new nodes and at most once for each. -/
structure Requests (bench : Workbench) (step : Step) (requests : List Header) : Prop where
  passes : bench.world.resolution.Passes requests (bench.step step).2.world.resolution
  calls : ∀ id, (bench.step step).2.world.resolution.calls id =
    bench.world.resolution.calls id + requests.countP fun header => header.resolver = some id
  asking : step.asks → ∀ header ∈ requests, ∃ node ∈ bench.nodes, node.header = header
  building : step.builds → (requests.map Header.id).Nodup ∧
    ∀ header ∈ requests, bench.world.supply.nextNode ≤ header.id.number
  quiet : step.asks = false → step.builds = false → requests = []
  follows : ∀ header ∈ requests, ∀ node ∈ (bench.step step).2.nodes, node.id = header.id →
    header.Follows node.header

/-! ## One step -/

section Step

variable {bench : Workbench} {step : Step} {path : Path} {node : Node}

theorem step_query {query : NodeQuery} {answer : Except Refusal Answer}
    (found : bench.nodeAt? path = some node)
    (needs : query.answer? node.header (node.header.resolve bench.world.resolution).1 = some answer) :
    bench.step (.node (.query path query)) =
      (answer, bench.withResolution (node.header.resolve bench.world.resolution).2) := by
  have reads : ∀ {next : Node → BenchM Answer},
      outcome (nodeAt path >>= next) bench = outcome (next node) bench := by
    intro next
    rw [outcome_bind, (reads_nodeAt path).returns found]
  cases query with
  | resolve =>
      obtain rfl := Option.some.inj needs
      refine reads.trans ?_
      have asked : outcome (resolving node.header.resolve) bench =
          (.ok (node.header.resolve bench.world.resolution).1,
            bench.withResolution (node.header.resolve bench.world.resolution).2) := rfl
      rw [outcome_bind, asked]
      cases (node.header.resolve bench.world.resolution).1 <;> rfl
  | symbol =>
      obtain rfl := Option.some.inj needs
      exact reads
  | outerName =>
      obtain rfl := Option.some.inj needs
      exact reads
  | namespaceName =>
      obtain rfl := Option.some.inj needs
      exact reads
  | qualifiedName =>
      obtain rfl := Option.some.inj needs
      exact reads
  | _ => cases needs

theorem Sound.eq_of_id_eq (h : bench.Sound) {node other : Node} (hnode : node ∈ bench.nodes)
    (hother : other ∈ bench.nodes) (same : node.id = other.id) : node = other :=
  List.inj_on_of_nodup_map h.ownership.distinct hnode hother same

theorem Sound.exists_requests (h : bench.Sound) (unkept : bench.world.Unkept)
    (admissible : step.admissible bench) : ∃ requests, bench.Requests step requests := by
  cases asks : step.asks with
  | true =>
      have reading : Reading bench (bench.step step).2 := reading_of_asks asks
      obtain ⟨reads, there, after⟩ := reading.reads
      have passes := bench.world.resolution.passes_readAll reads
      rw [← after] at passes
      have origin : ∀ header ∈ (bench.world.resolution.asked reads).map Node.header,
          ∃ node ∈ bench.nodes, node.header = header := by
        intro header asked
        obtain ⟨node, hnode, rfl⟩ := List.mem_map.mp asked
        exact ⟨node, there (Resolution.asked_subset _ reads hnode), rfl⟩
      refine ⟨_, passes, passes.calls, fun _ => origin, fun builds => ?_, fun acts => ?_, ?_⟩
      · simp [Step.builds_of_asks asks] at builds
      · simp [asks] at acts
      · intro header asked node hnode same
        obtain ⟨old, hold, rfl⟩ := origin header asked
        rw [reading.nodes] at hnode
        rw [h.eq_of_id_eq hnode hold same]
        exact .refl _
  | false =>
      have acts := h.acts asks admissible
      obtain ⟨requests, traces, quiet⟩ := acts.traces trivial h.toAccount unkept
      refine ⟨requests, traces.passes, traces.passes.calls, fun asking => ?_, fun _ => ?_, ?_, ?_⟩
      · simp [asks] at asking
      · exact ⟨traces.once, fun header asked => (traces.fresh header asked).1⟩
      · intro _ builds
        exact quiet (by simp [builds])
      · intro header asked node hnode
        obtain ⟨tree, htree, hnode⟩ := List.mem_flatMap.mp hnode
        exact traces.follows header asked tree htree node hnode

/-- Every node was there before with an earlier header, or is new. -/
theorem Sound.continues (h : bench.Sound) (admissible : step.admissible bench) :
    ∀ node ∈ (bench.step step).2.nodes, (∃ old ∈ bench.nodes, old.header.Follows node.header) ∨
      bench.world.supply.nextNode ≤ node.id.number := by
  cases asks : step.asks with
  | true =>
      intro node hnode
      rw [(reading_of_asks asks).nodes] at hnode
      exact .inl ⟨node, hnode, .refl _⟩
  | false =>
      intro node hnode
      obtain ⟨tree, htree, hnode⟩ := List.mem_flatMap.mp hnode
      have stable := stable_continues bench.nodes bench.world.supply.nextNode
      refine (h.acts asks admissible).all stable (Nat.le_refl _) ?_ tree htree node hnode
      intro tree htree node hnode
      exact .inl ⟨node, List.mem_flatMap.mpr ⟨tree, htree, hnode⟩, .refl _⟩

theorem Sound.next_le (h : bench.Sound) (admissible : step.admissible bench) :
    bench.world.supply.nextNode ≤ (bench.step step).2.world.supply.nextNode := by
  cases asks : step.asks with
  | true => exact (reading_of_asks asks).supply
  | false => exact Acts.next_le (h.acts asks admissible)

theorem Sound.unkept_step (h : bench.Sound) (unkept : bench.world.Unkept)
    (admissible : step.admissible bench) : (bench.step step).2.world.Unkept := by
  cases asks : step.asks with
  | true =>
      intro id late
      have low := h.next_le admissible
      obtain ⟨requests, made⟩ := h.exists_requests unkept admissible
      cases after : (bench.step step).2.world.resolution.cache.get? id with
      | none => rfl
      | some symbol =>
          rcases made.passes.origin after with before | ⟨header, asked, same, -⟩
          · have absent := unkept id (Nat.le_trans low late)
            exact absurd (absent.symm.trans before) (by simp)
          · obtain ⟨node, hnode, rfl⟩ := made.asking asks header asked
            have early := h.ownership.allocated node hnode
            have own : node.id = id := same
            rw [own] at early
            omega
  | false => exact (h.acts asks admissible).unkept unkept

end Step

/-- A node that keeps a symbol has a resolver. New identities keep none. -/
structure Consistent (bench : Workbench) : Prop extends Sound bench where
  unkept : bench.world.Unkept
  bound : ∀ node ∈ bench.nodes, (bench.kept? node.id).isSome → node.header.resolver.isSome

theorem Consistent.step {bench : Workbench} {step : Step} (h : bench.Consistent)
    (admissible : step.admissible bench) : (bench.step step).2.Consistent where
  toSound := h.toSound.step admissible
  unkept := h.toSound.unkept_step h.unkept admissible
  bound node hnode kept := by
    obtain ⟨requests, made⟩ := h.toSound.exists_requests h.unkept admissible
    obtain ⟨symbol, kept⟩ := Option.isSome_iff_exists.mp kept
    rcases made.passes.origin kept with before | ⟨header, asked, same, -⟩
    · rcases h.toSound.continues admissible node hnode with ⟨old, hold, follows⟩ | late
      · have own : old.id = node.id := follows.id.symm
        refine follows.resolver (h.bound old hold ?_)
        rw [own, kept?, before]
        rfl
      · exact absurd ((h.unkept node.id late).symm.trans before) (by simp)
    · exact (made.follows header asked node hnode same.symm).resolver (made.passes.of_mem asked).2

/-! ## States of a run -/

/-- The workbench after the first steps. -/
def after (bench : Workbench) (steps : List Step) (n : Nat) : Workbench :=
  (bench.run (steps.take n)).2

section Run

variable {bench : Workbench} {steps : List Step} {n i j : Nat}

theorem after_succ {step : Step} (h : steps[n]? = some step) :
    bench.after steps (n + 1) = ((bench.after steps n).step step).2 := by
  rw [after, List.take_add_one, h, Option.toList_some, run_append]
  rfl

theorem after_succ_of_none (h : steps[n]? = none) :
    bench.after steps (n + 1) = bench.after steps n := by
  rw [after, List.take_add_one, h, Option.toList_none, List.append_nil, after]

theorem admissible_of_admits {step : Step} (admitted : bench.admits steps)
    (h : steps[n]? = some step) : step.admissible (bench.after steps n) := by
  induction steps generalizing bench n with
  | nil => cases h
  | cons first steps ih =>
      obtain ⟨admissible, rest⟩ := Bool.and_eq_true_iff.mp admitted
      cases n with
      | zero =>
          obtain rfl := Option.some.inj h
          exact admissible
      | succ n => exact ih rest h

theorem Consistent.after (h : bench.Consistent) (admitted : bench.admits steps) (n : Nat) :
    (bench.after steps n).Consistent := by
  induction n with
  | zero => exact h
  | succ n ih =>
      cases next : steps[n]? with
      | none =>
          rw [after_succ_of_none next]
          exact ih
      | some step =>
          rw [after_succ next]
          exact ih.step (admissible_of_admits admitted next)

/-- A symbol that is kept is kept for good. -/
theorem Consistent.kept (h : bench.Consistent) (admitted : bench.admits steps) {id : NodeId}
    {symbol : Symbol} (le : i ≤ j) (before : (bench.after steps i).kept? id = some symbol) :
    (bench.after steps j).kept? id = some symbol := by
  induction j, le using Nat.le_induction with
  | base => exact before
  | succ j _ ih =>
      cases next : steps[j]? with
      | none =>
          rw [after_succ_of_none next]
          exact ih
      | some step =>
          have now := h.after admitted j
          obtain ⟨requests, made⟩ :=
            now.toSound.exists_requests now.unkept (admissible_of_admits admitted next)
          rw [after_succ next]
          exact made.passes.kept ih

/-- A node was there at an earlier moment, with an earlier header, or its identity was not. -/
theorem Consistent.continues (h : bench.Consistent) (admitted : bench.admits steps) (le : i ≤ j) :
    (bench.after steps i).world.supply.nextNode ≤ (bench.after steps j).world.supply.nextNode ∧
      ∀ node ∈ (bench.after steps j).nodes,
        (∃ old ∈ (bench.after steps i).nodes, old.header.Follows node.header) ∨
          (bench.after steps i).world.supply.nextNode ≤ node.id.number := by
  induction j, le using Nat.le_induction with
  | base => exact ⟨Nat.le_refl _, fun node hnode => .inl ⟨node, hnode, .refl _⟩⟩
  | succ j _ ih =>
      obtain ⟨low, earlier⟩ := ih
      cases next : steps[j]? with
      | none =>
          rw [after_succ_of_none next]
          exact ⟨low, earlier⟩
      | some step =>
          have now := h.after admitted j
          have admissible := admissible_of_admits admitted next
          rw [after_succ next]
          refine ⟨Nat.le_trans low (now.toSound.next_le admissible), fun node hnode => ?_⟩
          rcases now.toSound.continues admissible node hnode with ⟨mid, hmid, follows⟩ | late
          · rcases earlier mid hmid with ⟨old, hold, before⟩ | late
            · exact .inl ⟨old, hold, before.trans follows⟩
            · have same : node.id = mid.id := follows.id
              exact .inr (same ▸ late)
          · exact .inr (Nat.le_trans low late)

/-- Two headers of one node. -/
theorem Consistent.follows (h : bench.Consistent) (admitted : bench.admits steps) (le : i ≤ j)
    {old node : Node} (hold : old ∈ (bench.after steps i).nodes)
    (hnode : node ∈ (bench.after steps j).nodes) (same : old.id = node.id) :
    old.header.Follows node.header := by
  have before := (h.after admitted i).toSound
  rcases (h.continues admitted le).2 node hnode with ⟨first, hfirst, follows⟩ | late
  · have own : first.id = node.id := follows.id.symm
    rw [before.eq_of_id_eq hold hfirst (same.trans own.symm)]
    exact follows
  · have early := before.ownership.allocated old hold
    rw [same] at early
    omega

/-- Every symbol that is kept was once the answer to the node that keeps it. -/
theorem Consistent.origin (h : bench.Consistent) (unkept : ∀ id, bench.kept? id = none)
    (admitted : bench.admits steps) {id : NodeId} {symbol : Symbol}
    (kept : (bench.after steps n).kept? id = some symbol) :
    ∃ i < n, ∃ header : Header, header.id = id ∧
      (bench.after steps i).world.resolution.Answered header symbol
        (bench.after steps (i + 1)).world.resolution ∧
      ((∃ node ∈ (bench.after steps i).nodes, node.header = header) ∨
        (bench.after steps i).world.supply.nextNode ≤ id.number) ∧
      ∀ node ∈ (bench.after steps n).nodes, node.id = id → node.header.handle = header.handle := by
  induction n with
  | zero => exact absurd ((unkept id).symm.trans kept) (by simp)
  | succ n ih =>
      cases next : steps[n]? with
      | none =>
          rw [after_succ_of_none next] at kept ⊢
          obtain ⟨i, early, rest⟩ := ih kept
          exact ⟨i, Nat.lt_succ_of_lt early, rest⟩
      | some step =>
          have now := h.after admitted n
          have admissible := admissible_of_admits admitted next
          obtain ⟨requests, made⟩ := now.toSound.exists_requests now.unkept admissible
          have later : bench.after steps (n + 1) = _ := after_succ next
          rw [later] at kept ⊢
          rcases made.passes.origin kept with before | ⟨header, asked, same, answered⟩
          · obtain ⟨i, early, header, own, answered, owner, handles⟩ := ih before
            refine ⟨i, Nat.lt_succ_of_lt early, header, own, answered, owner, fun node hnode same => ?_⟩
            rcases now.toSound.continues admissible node hnode with ⟨old, hold, follows⟩ | late
            · have was : old.id = id := follows.id.symm.trans same
              rw [follows.handle]
              exact handles old hold was
            · rw [same] at late
              exact absurd ((now.unkept id late).symm.trans before) (by simp)
          · refine ⟨n, Nat.lt_succ_self n, header, same, later ▸ answered, ?_, fun node hnode own => ?_⟩
            · cases asks : step.asks with
              | true => exact .inl (made.asking asks header asked)
              | false =>
                  cases builds : step.builds with
                  | true => exact .inr (same ▸ (made.building builds).2 header asked)
                  | false =>
                      rw [made.quiet asks builds] at asked
                      cases asked
            · exact (made.follows header asked node hnode (own.trans same.symm)).handle

end Run

/-! ## Resolving once -/

/-- How symbols are resolved in a run, state by state. -/
structure ResolvesOnce (bench : Workbench) (steps : List Step) : Prop where
  /-- A symbol that is kept is kept for good. -/
  permanent : ∀ {i j id symbol}, i ≤ j → (bench.after steps i).kept? id = some symbol →
    (bench.after steps j).kept? id = some symbol
  /-- No step asks for a node that has had a symbol before. -/
  requests : ∀ {n step}, steps[n]? = some step → ∃ requests,
    (bench.after steps n).Requests step requests ∧
      ∀ header ∈ requests, ∀ i ≤ n, (bench.after steps i).kept? header.id = none
  /-- A node with a symbol answers from it and changes nothing. -/
  keeping : ∀ {n path node symbol query answer},
    (bench.after steps n).nodeAt? path = some node →
    (bench.after steps n).kept? node.id = some symbol →
    query.answer? node.header (.ok symbol) = some answer →
      (bench.after steps n).step (.node (.query path query)) = (answer, bench.after steps n)
  /-- A node with a resolver and no symbol asks once and keeps what it is answered. -/
  asking : ∀ {n path node id query answer},
    (bench.after steps n).nodeAt? path = some node →
    node.header.resolver = some id → (bench.after steps n).kept? node.id = none →
    let state := (bench.after steps n).world.resolution
    let handle := node.header.handle
    query.answer? node.header ((state.answer id handle).elim (.error (.notFound handle.id)) .ok) =
      some answer →
      (bench.after steps n).step (.node (.query path query)) =
          (answer, (bench.after steps n).withResolution (state.request id node.header)) ∧
        (∀ asked, (state.request id node.header).calls asked =
          state.calls asked + if asked = id then 1 else 0) ∧
        ∀ other, (state.request id node.header).cache.get? other =
          if other = node.id then state.answer id handle else state.cache.get? other
  /-- To bind a node, of whatever kind, is to ask once, for the new node. -/
  binding : ∀ {n header blueprint plan target}, Blueprint.Single header blueprint →
    header.binding = some plan →
    ∃ made, plan.Asks (bench.after steps n).world made
      ((bench.after steps n).step (.node (.build blueprint target))).2.world.resolution
  /-- To look whether there is a symbol changes nothing. -/
  looking : ∀ {n path node}, (bench.after steps n).nodeAt? path = some node →
    (bench.after steps n).step (.node (.query path .cached)) =
      (.ok (.cached ((bench.after steps n).kept? node.id)), bench.after steps n)
  bound : ∀ {n node}, node ∈ (bench.after steps n).nodes →
    ((bench.after steps n).kept? node.id).isSome → node.header.resolver.isSome
  /-- A node is reported as unbound if and only if it never had a resolver. -/
  unbound : ∀ {n path node}, (bench.after steps n).nodeAt? path = some node →
    (((bench.after steps n).step (.node (.query path .resolve))).1 =
        .error (.resolution (.unbound node.header.handle.id)) ↔
      ∀ i ≤ n, ∀ old ∈ (bench.after steps i).nodes, old.id = node.id → old.header.resolver = none)
  /-- A symbol that is kept was the answer to the node, when it asked for its construct as one of
  the nodes there or while it was bound. -/
  origin : ∀ {n id symbol}, (bench.after steps n).kept? id = some symbol →
    ∃ i < n, ∃ header : Header, header.id = id ∧
      (bench.after steps i).world.resolution.Answered header symbol
        (bench.after steps (i + 1)).world.resolution ∧
      ((∃ node ∈ (bench.after steps i).nodes, node.header = header) ∨
        (bench.after steps i).world.supply.nextNode ≤ id.number) ∧
      ∀ node ∈ (bench.after steps n).nodes, node.id = id → node.header.handle = header.handle

section Once

variable {bench : Workbench} {steps : List Step} {n : Nat} {path : Path} {node : Node}
  {query : NodeQuery} {answer : Except Refusal Answer}

theorem consistent_of_no_trees (empty : bench.items.trees = [])
    (unkept : ∀ id, bench.kept? id = none) : bench.Consistent where
  toSound := sound_of_no_trees empty
  unkept id _ := unkept id
  bound node hnode := by
    rw [nodes, empty] at hnode
    cases hnode

namespace Consistent

theorem requests (h : bench.Consistent) (admitted : bench.admits steps) {step : Step}
    (next : steps[n]? = some step) :
    ∃ requests, (bench.after steps n).Requests step requests ∧
      ∀ header ∈ requests, ∀ i ≤ n, (bench.after steps i).kept? header.id = none := by
  have now := h.after admitted n
  obtain ⟨requests, made⟩ :=
    now.toSound.exists_requests now.unkept (admissible_of_admits admitted next)
  refine ⟨requests, made, fun header asked i le => ?_⟩
  cases kept : (bench.after steps i).kept? header.id with
  | none => rfl
  | some symbol =>
      have still := h.kept admitted le kept
      exact absurd ((made.passes.of_mem asked).1.symm.trans still) (by simp)

theorem step_of_kept (h : bench.Consistent) {symbol : Symbol}
    (found : bench.nodeAt? path = some node) (kept : bench.kept? node.id = some symbol)
    (needs : query.answer? node.header (.ok symbol) = some answer) :
    bench.step (.node (.query path query)) = (answer, bench) := by
  have bound := h.bound node (mem_nodes_of_nodeAt? found) (by simp [kept])
  obtain ⟨id, resolver⟩ := Option.isSome_iff_exists.mp bound
  have read := Header.resolve_of_cached resolver kept
  rw [step_query found (by rw [read]; exact needs), read]
  rfl

theorem unbound_iff (h : bench.Consistent) (admitted : bench.admits steps)
    (found : (bench.after steps n).nodeAt? path = some node) :
    ((bench.after steps n).step (.node (.query path .resolve))).1 =
        .error (.resolution (.unbound node.header.handle.id)) ↔
      ∀ i ≤ n, ∀ old ∈ (bench.after steps i).nodes, old.id = node.id → old.header.resolver = none := by
  have there := mem_nodes_of_nodeAt? found
  constructor
  · intro reported i le old hold same
    rw [step_query found rfl] at reported
    have unbound : node.header.resolver = none := by
      cases read : (node.header.resolve (bench.after steps n).world.resolution).1 with
      | ok symbol => simp [read, Except.map, Except.mapError] at reported
      | error error =>
          simp only [read, Except.map, Except.mapError, Except.error.injEq,
            Refusal.resolution.injEq] at reported
          exact Header.fst_resolve_eq_unbound_iff.mp (read.trans (congrArg Except.error reported))
    cases resolver : old.header.resolver with
    | none => rfl
    | some id =>
        have later := (h.follows admitted le hold there same).resolver (by simp [resolver])
        simp [unbound] at later
  · intro never
    have resolver := never n (Nat.le_refl n) node there rfl
    rw [step_query found rfl, Header.resolve_of_unbound resolver]
    rfl

end Consistent

theorem step_of_absent {id : ResolverId} (found : bench.nodeAt? path = some node)
    (resolver : node.header.resolver = some id) (absent : bench.kept? node.id = none)
    (needs : query.answer? node.header
      ((bench.world.resolution.answer id node.header.handle).elim
        (.error (.notFound node.header.handle.id)) .ok) = some answer) :
    bench.step (.node (.query path query)) =
      (answer, bench.withResolution (bench.world.resolution.request id node.header)) := by
  have read := Header.resolve_of_absent resolver absent
  rw [step_query found (by rw [read]; exact needs), read]

theorem step_cached (found : bench.nodeAt? path = some node) :
    bench.step (.node (.query path .cached)) = (.ok (.cached (bench.kept? node.id)), bench) := by
  change outcome (nodeAt path >>= _) bench = _
  rw [outcome_bind, (reads_nodeAt path).returns found]
  rfl

end Once

/-- In every run from a workbench without nodes, on which no symbol is kept, symbols are resolved
once. -/
theorem run_resolves_once {bench : Workbench} {steps : List Step}
    (empty : bench.items.trees = []) (unkept : ∀ id, bench.kept? id = none)
    (admitted : bench.admits steps) : bench.ResolvesOnce steps := by
  have start := consistent_of_no_trees empty unkept
  have now := start.after admitted
  exact {
    permanent := start.kept admitted
    requests := start.requests admitted
    keeping := (now _).step_of_kept
    asking := fun found resolver absent needs =>
      ⟨step_of_absent found resolver absent needs, Resolution.calls_request,
        Resolution.get?_cache_request absent⟩
    binding := fun {n _ _ _ _} single bound => by
      rw [resolution_step_build]
      exact single.asks bound (now n).unkept
    looking := step_cached
    bound := fun {n} => (now n).bound _
    unbound := start.unbound_iff admitted
    origin := start.origin unkept admitted }

def sampleReads : List Step :=
  let stock : ResolverId := .named "stock"
  let spare : ResolverId := .named "spare"
  let shop : Path := ⟨"shop", []⟩
  let sell : Path := ⟨"sell", []⟩
  let count : Path := ⟨"count", []⟩
  let handle (number : Nat) : Handle := .parsed ⟨number⟩ "Declaration" {}
  let bound (number : Nat) : HeaderPlan := { binding := some ⟨.given (handle number), stock⟩ }
  [.resolver (.register stock ⟨1⟩ { name := "Shop", namespaceName := "Trade" }),
    .node (.build (.typeDecl { header := bound 1 }) "shop"),
    .resolver (.register stock ⟨2⟩ { name := "Sell" }),
    .resolver (.failNext "stock" 2),
    .node (.build (.method { header := bound 2 }) "sell"),
    .node (.query sell .resolve),
    .node (.query sell .cached),
    .resolver (.unregister stock ⟨1⟩),
    .node (.query shop .resolve),
    .node (.setName shop "Store"),
    .node (.setResolver shop spare),
    .node (.query shop .qualifiedName),
    .node (.query sell .symbol),
    .node (.query sell .resolve),
    .node (.build (.property { header := { name := "Count" } }) "count"),
    .node (.query count .resolve),
    .node (.setResolver count spare),
    .node (.query count .resolve),
    .node (.copy sell "copy"),
    .node (.query ⟨"copy", []⟩ .resolve)]

theorem run_resolves_once_of_sampleReads :
    ({} : Workbench).items.trees = [] ∧ (∀ id, ({} : Workbench).kept? id = none) ∧
      ({} : Workbench).admits sampleReads ∧
      (({} : Workbench).run sampleReads).1.map Except.toBool =
        [true, true, true, true, true, false, true, true, true, true, true, true, true, true, true,
          false, true, false, true, true] ∧
      ((({} : Workbench).after sampleReads 20).world.resolution.calls (.named "stock"),
        (({} : Workbench).after sampleReads 20).world.resolution.calls (.named "spare")) = (5, 1) ∧
      ({} : Workbench).ResolvesOnce sampleReads :=
  ⟨rfl, fun _ => rfl, by decide +kernel, by decide +kernel, by decide +kernel,
    run_resolves_once rfl (fun _ => rfl) (by decide +kernel)⟩

end Workbench

end DeclTree
