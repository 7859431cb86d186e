import DeclTree.Proofs.Acts.Reading

/-!
# Requests to resolvers

Whatever happens to the state of resolution is a matter of two things: resolvers change, and nodes
without a symbol ask theirs. `Passes` lists the requests that lead from one state to another, each
by the header of the node it is made for, as it is at that moment. What is kept, what was asked for
and how often each resolver was asked can be read off the list.
-/

namespace DeclTree

open Node

/-! ## Traces -/

namespace Resolution

/-- A node asks a resolver. The answer is kept, if there is one. -/
def request (state : Resolution) (id : ResolverId) (header : Header) : Resolution :=
  (state.ask id header.handle).2.keep header.id (state.answer id header.handle)

/-- Resolvers change, and these nodes ask theirs, one after the other. -/
inductive Passes : Resolution → List Header → Resolution → Prop where
  | refl (state : Resolution) : Passes state [] state
  | change {state state₁ state' : Resolution} {requests : List Header}
      (change : ResolverChange state state₁) (rest : Passes state₁ requests state') :
      Passes state requests state'
  | request {state state' : Resolution} {header : Header} {requests : List Header}
      {id : ResolverId} (resolver : header.resolver = some id)
      (absent : header.cached? state = none)
      (rest : Passes (state.request id header) requests state') :
      Passes state (header :: requests) state'

/-- At some moment between the two states the node had a resolver but no symbol, asked, and was
answered. -/
def Answered (state : Resolution) (header : Header) (symbol : Symbol) (state' : Resolution) : Prop :=
  ∃ earlier moment id later, state.Passes earlier moment ∧ header.resolver = some id ∧
    header.cached? moment = none ∧ moment.answer id header.handle = some symbol ∧
    (moment.request id header).Passes later state'

/-- How often a resolver has been asked. -/
def calls (state : Resolution) : ResolverId → Nat
  | .source => state.source.registry.lookups
  | .named name => (state.resolver name).log.length

end Resolution

namespace ResolverChange

variable {state state' : Resolution}

theorem cache (h : ResolverChange state state') : state'.cache = state.cache := by
  cases h with
  | handle plan => cases plan <;> rfl
  | declare id => cases id <;> rfl
  | register id => cases id <;> rfl
  | unregister id => cases id <;> rfl
  | failNext name => rfl
  | skipLines count => rfl

theorem calls (h : ResolverChange state state') (id : ResolverId) :
    state'.calls id = state.calls id := by
  -- A named resolver is replaced by one with the same log.
  have replaced : ∀ {name : String} {resolver : Resolver},
      resolver.log = (state.resolver name).log →
      (state.setResolver name resolver).calls id = state.calls id := by
    intro name resolver log
    cases id with
    | source => rfl
    | named other =>
        by_cases same : other = name
        · subst same
          simp only [Resolution.calls, Resolution.resolver_setResolver_self, log]
        · simp only [Resolution.calls, Resolution.resolver_setResolver_ne state same]
  cases h with
  | handle plan => cases plan <;> cases id <;> rfl
  | declare changed =>
      cases changed with
      | source => rfl
      | named name => exact replaced rfl
  | register changed =>
      cases changed with
      | source => cases id <;> rfl
      | named name => exact replaced rfl
  | unregister changed =>
      cases changed with
      | source => cases id <;> rfl
      | named name => exact replaced rfl
  | failNext name => exact replaced rfl
  | skipLines count => cases id <;> rfl

end ResolverChange

namespace Resolution

variable {state state₁ state' : Resolution} {header : Header} {requests : List Header}
  {id : ResolverId} {node : NodeId} {symbol : Symbol}

theorem get?_cache_request (absent : header.cached? state = none) (node : NodeId) :
    (state.request id header).cache.get? node =
      if node = header.id then state.answer id header.handle else state.cache.get? node := by
  have none : state.cache.get? header.id = none := absent
  unfold request
  cases state.answer id header.handle with
  | none =>
      by_cases same : node = header.id
      · simp [keep, cache_ask, same, none]
      · simp [keep, cache_ask, same]
  | some symbol =>
      by_cases same : node = header.id
      · simp [keep, same]
      · simp [keep, cache_ask, same, Table.get?_insert_ne _ same]

theorem calls_request (asked : ResolverId) :
    (state.request id header).calls asked = state.calls asked + if asked = id then 1 else 0 := by
  have kept : ∀ symbol? : Option Symbol,
      ((state.ask id header.handle).2.keep header.id symbol?).calls asked =
        (state.ask id header.handle).2.calls asked := by
    intro symbol?
    cases symbol? <;> cases asked <;> rfl
  rw [request, kept]
  cases id with
  | source => cases asked <;> simp [calls, ask, Registry.lookup, resolver]
  | named name =>
      cases asked with
      | source => simp [calls, ask, setResolver]
      | named other =>
          by_cases same : other = name
          · subst same
            have log : ((state.resolver other).ask header.handle).2.log =
                (state.resolver other).log ++ [header.handle] := by
              unfold Resolver.ask
              cases (state.resolver other).failures <;> rfl
            simp [calls, ask, resolver_setResolver_self, log]
          · simp [calls, ask, resolver_setResolver_ne state same, same]

namespace Passes

theorem trans {more : List Header} (h : state.Passes requests state₁)
    (rest : state₁.Passes more state') : state.Passes (requests ++ more) state' := by
  induction h with
  | refl => exact rest
  | change change _ ih => exact .change change (ih rest)
  | request resolver absent _ ih => exact .request resolver absent (ih rest)

/-- What is kept stays kept. -/
theorem kept (h : state.Passes requests state') (before : state.cache.get? node = some symbol) :
    state'.cache.get? node = some symbol := by
  induction h with
  | refl => exact before
  | change change _ ih => exact ih (change.cache ▸ before)
  | @request state _ header _ id resolver absent _ ih =>
      refine ih ?_
      have other : node ≠ header.id := by
        intro same
        rw [same] at before
        exact Option.some_ne_none _ (before.symm.trans absent)
      rw [get?_cache_request absent, if_neg other]
      exact before

theorem absent_of_absent (h : state.Passes requests state')
    (after : state'.cache.get? node = none) : state.cache.get? node = none := by
  cases before : state.cache.get? node with
  | none => rfl
  | some symbol => exact absurd (h.kept before) (by simp [after])

/-- Only nodes without a symbol ask, and only if they have a resolver. -/
theorem of_mem (h : state.Passes requests state') (asked : header ∈ requests) :
    state.cache.get? header.id = none ∧ header.resolver.isSome := by
  induction h with
  | refl => cases asked
  | change change _ ih => exact change.cache ▸ ih asked
  | @request state _ first _ id resolver absent rest ih =>
      rcases List.mem_cons.mp asked with rfl | asked
      · exact ⟨absent, by simp [resolver]⟩
      · obtain ⟨later, bound⟩ := ih asked
        refine ⟨?_, bound⟩
        have step : state.Passes [first] (state.request id first) :=
          .request resolver absent (.refl _)
        exact step.absent_of_absent later

/-- A symbol that is kept was kept before, or one of the requests was answered with it. -/
theorem origin (h : state.Passes requests state')
    (after : state'.cache.get? node = some symbol) :
    state.cache.get? node = some symbol ∨
      ∃ header ∈ requests, header.id = node ∧ state.Answered header symbol state' := by
  induction h with
  | refl => exact .inl after
  | change change _ ih =>
      rcases ih after with before | ⟨header, asked, same, earlier, moment, id, later, first, rest⟩
      · exact .inl (change.cache ▸ before)
      · exact .inr ⟨header, asked, same, earlier, moment, id, later, .change change first, rest⟩
  | @request state state' header requests id resolver absent rest ih =>
      rcases ih after with before | ⟨other, asked, same, earlier, moment, id', later, first, final⟩
      · rw [get?_cache_request absent] at before
        by_cases same : node = header.id
        · rw [if_pos same] at before
          refine .inr ⟨header, List.mem_cons_self, same.symm, ?_⟩
          exact ⟨[], state, id, requests, .refl state, resolver, absent, before, rest⟩
        · rw [if_neg same] at before
          exact .inl before
      · refine .inr ⟨other, List.mem_cons_of_mem header asked, same, ?_⟩
        exact ⟨header :: earlier, moment, id', later, .request resolver absent first, final⟩

/-- Each resolver is asked as often as it is listed. -/
theorem calls (h : state.Passes requests state') (id : ResolverId) :
    state'.calls id =
      state.calls id + requests.countP fun header => header.resolver = some id := by
  induction h with
  | refl => rfl
  | change change _ ih => rw [ih, change.calls]
  | @request state _ header _ asked resolver absent _ ih =>
      rw [ih, calls_request, List.countP_cons, resolver]
      by_cases same : id = asked
      · simp only [same, if_true, decide_true]
        omega
      · simp [same, Ne.symm same]

/-- Nothing is kept that was not asked for. -/
theorem cache_of_nil (h : state.Passes [] state') (node : NodeId) :
    state'.cache.get? node = state.cache.get? node := by
  cases after : state'.cache.get? node with
  | none => exact (h.absent_of_absent after).symm
  | some symbol =>
      rcases h.origin after with before | ⟨header, asked, -⟩
      · exact before.symm
      · cases asked

end Passes

/-- A read of a symbol is one request, or nothing at all. -/
theorem passes_read (state : Resolution) (node : Node) :
    state.Passes (if node.header.asks state then [node.header] else []) (state.read node) := by
  cases asks : node.header.asks state with
  | false =>
      rw [read_of_not_asks asks]
      exact .refl state
  | true =>
      obtain ⟨id, resolver, hread⟩ := read_of_asks asks
      have absent : node.header.cached? state = none := get?_cache_of_asks asks
      have answer : node.header.effectiveSymbol state = state.answer id node.header.handle := by
        rw [Header.effectiveSymbol_of_asks asks, Header.answer?, resolver, Option.bind_some]
      rw [hread, answer]
      exact .request resolver absent (.refl _)

theorem passes_readAll (state : Resolution) (reads : List Node) :
    state.Passes ((state.asked reads).map Node.header) (state.readAll reads) := by
  induction reads generalizing state with
  | nil => exact .refl state
  | cons node reads ih =>
      have first := (state.passes_read node).trans (ih (state.read node))
      rw [asked, List.map_append]
      cases asks : node.header.asks state with
      | false => simpa [asks] using first
      | true => simpa [asks] using first

end Resolution

namespace Header

variable {header : Header} {state : Resolution} {id : ResolverId}

/-- A read without a symbol at hand is one request, and reports how it was answered. -/
theorem resolve_of_absent (resolver : header.resolver = some id)
    (absent : header.cached? state = none) :
    header.resolve state =
      ((state.answer id header.handle).elim (.error (.notFound header.handle.id)) .ok,
        state.request id header) := by
  unfold Resolution.request
  cases answered : state.answer id header.handle with
  | none =>
      rw [resolve_of_no_answer resolver absent answered]
      rfl
  | some symbol =>
      rw [resolve_of_answer resolver absent answered]
      simp [Resolution.keep, Resolution.cache_ask]

theorem fst_resolve_eq_unbound_iff :
    (header.resolve state).1 = .error (.unbound header.handle.id) ↔ header.resolver = none := by
  cases resolver : header.resolver with
  | none => simp [resolve_of_unbound resolver]
  | some id =>
      cases kept : header.cached? state with
      | none =>
          rw [resolve_of_absent resolver kept]
          cases state.answer id header.handle <;> simp
      | some symbol => simp [resolve_of_cached resolver kept]

end Header

/-! ## Requests made by acts -/

/-- No symbol is kept under an identity still to come. -/
def World.Unkept (world : World) : Prop :=
  ∀ id : NodeId, world.supply.nextNode ≤ id.number → world.resolution.cache.get? id = none

theorem World.Unkept.cached? {world : World} (h : world.Unkept) {header : Header}
    (late : world.supply.nextNode ≤ header.id.number) : header.cached? world.resolution = none :=
  h header.id late

/-- A node that is bound asks its resolver once. -/
theorem Node.request_of_bind {body : Body} {handle : Handle} {resolver : ResolverId}
    {world world' : World} {node : Node} (unkept : world.Unkept)
    (h : Node.bind body handle resolver world = (node, world')) :
    node.header.handle = handle ∧ node.header.resolver = some resolver ∧
      world'.resolution = world.resolution.request resolver node.header := by
  obtain ⟨name, body', -, rfl, rfl⟩ := exists_of_bind h
  have absent := unkept.cached? (Nat.le_refl (Header.unnamed handle resolver world).id.number)
  have asks : (Header.unnamed handle resolver world).asks world.resolution = true := by
    rw [Header.asks, absent]
    rfl
  have symbol : (Header.unnamed handle resolver world).effectiveSymbol world.resolution =
      world.resolution.answer resolver handle := Header.effectiveSymbol_of_asks asks
  refine ⟨rfl, rfl, ?_⟩
  rw [Header.symbol?_of_asks asks rfl, symbol]
  rfl

/-- The requests that acts have made since the start. They are for nodes that were not there yet,
and each of these asked once. -/
structure Stage.Traces (start : Stage) (requests : List Header) (stage : Stage) : Prop where
  passes : start.bench.world.resolution.Passes requests stage.bench.world.resolution
  fresh : ∀ header ∈ requests, start.next ≤ header.id.number ∧ header.id.number < stage.next
  once : (requests.map Header.id).Nodup
  follows : ∀ header ∈ requests, ∀ tree ∈ stage.trees,
    tree.All fun node => node.id = header.id → header.Follows node.header

/-- Later headers of one node. -/
theorem stable_follows (header : Header) :
    Stable (header.id.number + 1) fun node => node.id = header.id → header.Follows node.header where
  header follows h same := (h (follows.id.symm.trans same)).trans follows
  body _ h := h
  list _ _ h := h
  slot _ h := h
  parameters _ _ _ h := h
  member _ _ h := h
  hold _ _ h := h
  fresh other body late same := by
    have id : other.id = header.id := same
    rw [id] at late
    omega
  copy _ late _ same := by
    rw [same] at late
    omega

/-- Nodes that were there before, and new ones. -/
theorem stable_continues (nodes : List Node) (next : Nat) :
    Stable next fun node =>
      (∃ old ∈ nodes, old.header.Follows node.header) ∨ next ≤ node.id.number where
  header {node header} follows h := by
    cases h with
    | inl h =>
        obtain ⟨old, hold, before⟩ := h
        exact .inl ⟨old, hold, before.trans follows⟩
    | inr late =>
        have id : header.id = node.id := follows.id
        rw [← id] at late
        exact .inr late
  body _ h := h
  list _ _ h := h
  slot _ h := h
  parameters _ _ _ h := h
  member _ _ h := h
  hold _ _ h := h
  fresh _ _ late := .inr late
  copy _ late _ := .inr late

section Acts

variable {rules : Rules} {start stage stage' : Stage} {requests : List Header}

/-- An act asks nobody, unless it binds a node. -/
theorem Act.passes (h : Act rules stage stage') :
    stage.bench.world.resolution.Passes [] stage'.bench.world.resolution ∨
      rules.binding ∧ ∃ body handle resolver node world,
        Node.bind body handle resolver stage.bench.world = (node, world) ∧
        stage' = ⟨node :: stage.hand, stage.bench.withWorld world⟩ := by
  cases h with
  | resolvers change => exact .inl (.change change (.refl _))
  | create _ made =>
      obtain ⟨-, rfl⟩ := Prod.mk.inj made
      exact .inl (.refl _)
  | bind allowed _ made => exact .inr ⟨allowed, _, _, _, _, _, made, rfl⟩
  | _ => exact .inl (.refl _)

theorem Act.unkept (h : Act rules stage stage') (unkept : stage.bench.world.Unkept) :
    stage'.bench.world.Unkept := by
  intro id late
  have low : stage.bench.world.supply.nextNode ≤ stage'.bench.world.supply.nextNode := h.next_le
  rcases h.passes with quiet | ⟨-, body, handle, resolver, node, world, made, rfl⟩
  · rw [quiet.cache_of_nil]
    exact unkept id (Nat.le_trans low late)
  · have isNew := isNew_bind made
    have own : node.header.id = ⟨stage.bench.world.supply.nextNode⟩ := isNew.id
    obtain ⟨-, -, after⟩ := request_of_bind unkept made
    change world.supply.nextNode ≤ id.number at late
    change world.resolution.cache.get? id = none
    rw [isNew.next] at late
    have other : id ≠ node.header.id := by
      intro same
      rw [same, own] at late
      exact absurd late (Nat.not_succ_le_self _)
    have absent := unkept.cached? (Nat.le_of_eq (congrArg NodeId.number own).symm)
    rw [after, Resolution.get?_cache_request absent, if_neg other]
    exact unkept id (Nat.le_of_succ_le late)

theorem Acts.unkept (h : Acts rules start stage) (unkept : start.bench.world.Unkept) :
    stage.bench.world.Unkept := by
  induction h with
  | refl => exact unkept
  | tail _ act ih => exact act.unkept ih

/-- A binding act adds a request for the node it makes. All identities in use are earlier. -/
theorem Stage.Traces.act (h : start.Traces requests stage) (act : Act rules stage stage')
    (account : stage.bench.Account stage.hand) (unkept : stage.bench.world.Unkept)
    (low : start.next ≤ stage.next) :
    start.Traces requests stage' ∨
      rules.binding ∧ ∃ header, start.Traces (requests ++ [header]) stage' := by
  have grows := act.next_le
  have follows : ∀ header ∈ requests, ∀ tree ∈ stage'.trees,
      tree.All fun node => node.id = header.id → header.Follows node.header := by
    intro header asked
    exact act.all (stable_follows header) (h.fresh header asked).2 (h.follows header asked)
  have fresh : ∀ header ∈ requests,
      start.next ≤ header.id.number ∧ header.id.number < stage'.next := by
    intro header asked
    obtain ⟨late, early⟩ := h.fresh header asked
    omega
  rcases act.passes with quiet | ⟨allowed, body, handle, resolver, made, world, binding, rfl⟩
  · have passes := h.passes.trans quiet
    rw [List.append_nil] at passes
    exact .inl ⟨passes, fresh, h.once, follows⟩
  · have isNew := isNew_bind binding
    have own : made.header.id = ⟨stage.next⟩ := isNew.id
    obtain ⟨-, bound, after⟩ := request_of_bind unkept binding
    have absent := unkept.cached? (Nat.le_of_eq (congrArg NodeId.number own).symm)
    refine .inr ⟨allowed, made.header, ?_, ?_, ?_, ?_⟩
    · refine h.passes.trans (.request bound absent ?_)
      rw [← after]
      exact .refl _
    · intro header asked
      rcases List.mem_append.mp asked with asked | asked
      · exact fresh header asked
      · rw [List.mem_singleton.mp asked, own]
        have next : world.supply.nextNode = stage.next + 1 := isNew.next
        exact ⟨low, by simp only [Stage.next, Workbench.withWorld, next]; omega⟩
    · rw [List.map_append, List.map_singleton, List.nodup_append_comm]
      refine List.nodup_cons.mpr ⟨fun repeated => ?_, h.once⟩
      obtain ⟨header, asked, same⟩ := List.mem_map.mp repeated
      have early := (h.fresh header asked).2
      rw [same, own] at early
      exact absurd early (Nat.lt_irrefl _)
    · intro header asked
      rcases List.mem_append.mp asked with asked | asked
      · exact follows header asked
      · rw [List.mem_singleton.mp asked]
        intro tree htree node hnode same
        rcases List.mem_cons.mp htree with rfl | old
        · exact isNew.eq_of_mem_nodes hnode ▸ Header.Follows.refl _
        · have early := account.ledger.allocated (List.mem_flatMap.mpr ⟨tree, old, id_mem_ids hnode⟩)
          rw [same, own] at early
          exact absurd early (Nat.lt_irrefl _)

/-- A sequence of orderly acts makes requests for nodes that it binds, and for no others. -/
theorem Acts.traces (h : Acts rules start stage) (orderly : rules.orderly)
    (account : start.bench.Account start.hand) (unkept : start.bench.world.Unkept) :
    ∃ requests, start.Traces requests stage ∧ (¬ rules.binding → requests = []) := by
  induction h with
  | refl => exact ⟨[], ⟨.refl _, by simp, List.nodup_nil, by simp⟩, fun _ => rfl⟩
  | tail acts act ih =>
      obtain ⟨requests, traces, quiet⟩ := ih
      have account := Acts.account acts orderly account
      have step := traces.act act account (Acts.unkept acts unkept) (Acts.next_le acts)
      rcases step with traces | ⟨allowed, header, traces⟩
      · exact ⟨requests, traces, quiet⟩
      · exact ⟨requests ++ [header], traces, fun none => absurd allowed none⟩

end Acts

end DeclTree
