import DeclTree.Proofs.Shape

/-!
# Reading symbols one after the other

All that a comparison or a look at a field does to the state of resolution is to read symbols, one
after the other. A single read either finds the symbol without asking anyone and changes nothing,
or asks the node's resolver once and keeps the answer, if there is one. So a whole sequence of
reads comes to the requests it makes, apart from the symbols kept, and what is kept can be read off
the state before it as long as the answers stay the same.
-/

namespace DeclTree

/-! ## Requests -/

/-- The symbol that a resolver has for a handle, whether or not it would be given out. -/
def Resolver.known? (resolver : Resolver) (handle : Handle) : Option Symbol :=
  (resolver.registry.symbols.get? handle.id).or (resolver.fallback handle)

theorem Resolver.fst_ask (resolver : Resolver) (handle : Handle) :
    (resolver.ask handle).1 = if resolver.failures = 0 then resolver.known? handle else none := by
  obtain ⟨registry, fallback, failures, log⟩ := resolver
  cases failures <;> rfl

namespace Resolution

/-- The state after requests made one after the other. -/
def askAll (state : Resolution) (requests : List (ResolverId × Handle)) : Resolution :=
  requests.foldl (fun state request => (state.ask request.1 request.2).2) state

/-- The symbol that there is for a handle, whether or not it would be given out. -/
def known? (state : Resolution) (id : ResolverId) (handle : Handle) : Option Symbol :=
  match id with
  | .source => state.source.registry.symbols.get? handle.id
  | .named name => (state.resolver name).known? handle

/-- How many of the next requests to a resolver are refused. -/
def refusals (state : Resolution) : ResolverId → Nat
  | .source => 0
  | .named name => (state.resolver name).failures

theorem answer_eq (state : Resolution) (id : ResolverId) (handle : Handle) :
    state.answer id handle =
      if state.refusals id = 0 then state.known? id handle else none := by
  cases id with
  | source => rfl
  | named name => exact (state.resolver name).fst_ask handle

theorem resolver_setResolver_self (state : Resolution) (name : String) (resolver : Resolver) :
    (state.setResolver name resolver).resolver name = resolver := by
  simp [setResolver, Resolution.resolver]

theorem resolver_setResolver_ne (state : Resolution) {name other : String} (h : other ≠ name)
    (resolver : Resolver) :
    (state.setResolver name resolver).resolver other = state.resolver other := by
  simp [setResolver, Resolution.resolver, Table.get?_insert_ne _ h]

/-- A request changes nothing that resolvers know, and uses up at most one refusal of the one
asked. -/
theorem ask_frame (state : Resolution) (asked : ResolverId) (request : Handle) (id : ResolverId)
    (handle : Handle) :
    (state.ask asked request).2.known? id handle = state.known? id handle ∧
      (state.ask asked request).2.refusals id ≤ state.refusals id := by
  cases asked with
  | source => cases id <;> exact ⟨rfl, Nat.le_refl _⟩
  | named name =>
      cases id with
      | source => exact ⟨rfl, Nat.le_refl _⟩
      | named other =>
          by_cases h : other = name
          · subst h
            simp only [ask, known?, Resolver.known?, refusals, resolver_setResolver_self, Resolver.ask,
              Registry.lookup]
            cases (state.resolver other).failures with
            | zero => simp
            | succ failures => simp
          · simp [ask, known?, refusals, resolver_setResolver_ne _ h]

theorem askAll_frame (state : Resolution) (requests : List (ResolverId × Handle))
    (id : ResolverId) (handle : Handle) :
    (state.askAll requests).known? id handle = state.known? id handle ∧
      (state.askAll requests).refusals id ≤ state.refusals id := by
  induction requests generalizing state with
  | nil => exact ⟨rfl, Nat.le_refl _⟩
  | cons request requests ih =>
      have head := state.ask_frame request.1 request.2 id handle
      have tail := ih (state.ask request.1 request.2).2
      exact ⟨tail.1.trans head.1, Nat.le_trans tail.2 head.2⟩

/-- A resolver that refuses nothing keeps to its answers. -/
theorem answer_askAll_of_refusals_eq_zero {state : Resolution} {id : ResolverId}
    (h : state.refusals id = 0) (requests : List (ResolverId × Handle)) (handle : Handle) :
    (state.askAll requests).answer id handle = state.answer id handle := by
  obtain ⟨same, fewer⟩ := state.askAll_frame requests id handle
  have none : (state.askAll requests).refusals id = 0 := by omega
  rw [answer_eq, answer_eq, if_pos none, if_pos h, same]

/-! The kept symbols have no part in requests. -/

theorem ask_withCache (state : Resolution) (cache : Table NodeId Symbol) (id : ResolverId)
    (handle : Handle) :
    Resolution.ask { state with cache } id handle =
      ((state.ask id handle).1, { (state.ask id handle).2 with cache }) := by
  cases id <;> rfl

theorem askAll_withCache (state : Resolution) (cache : Table NodeId Symbol)
    (requests : List (ResolverId × Handle)) :
    Resolution.askAll { state with cache } requests =
      { state.askAll requests with cache } := by
  induction requests generalizing state with
  | nil => rfl
  | cons request requests ih =>
      simp only [askAll, List.foldl_cons, ask_withCache] at ih ⊢
      exact ih (state.ask request.1 request.2).2

theorem answer_withCache (state : Resolution) (cache : Table NodeId Symbol) (id : ResolverId)
    (handle : Handle) :
    Resolution.answer { state with cache } id handle = state.answer id handle := by
  rw [answer, ask_withCache, answer]

theorem cache_ask (state : Resolution) (id : ResolverId) (handle : Handle) :
    (state.ask id handle).2.cache = state.cache := by
  cases id <;> rfl

end Resolution

/-! ## The four situations of a read -/

namespace Header

variable {header : Header} {state : Resolution}

theorem resolve_of_unbound (hresolver : header.resolver = none) :
    header.resolve state = (.error (.unbound header.handle.id), state) := by
  simp [resolve, hresolver]

theorem resolve_of_cached {id : ResolverId} {symbol : Symbol} (hresolver : header.resolver = some id)
    (kept : header.cached? state = some symbol) : header.resolve state = (.ok symbol, state) := by
  rw [cached?] at kept
  simp [resolve, hresolver, kept]

theorem resolve_of_answer {id : ResolverId} {symbol : Symbol} (hresolver : header.resolver = some id)
    (absent : header.cached? state = none)
    (answered : state.answer id header.handle = some symbol) :
    header.resolve state =
      (.ok symbol,
        { (state.ask id header.handle).2 with
          cache := state.cache.insert header.id symbol }) := by
  rw [cached?] at absent
  have cache := state.cache_ask id header.handle
  rw [Resolution.answer] at answered
  cases hask : state.ask id header.handle
  simp_all [resolve]

theorem resolve_of_no_answer {id : ResolverId} (hresolver : header.resolver = some id)
    (absent : header.cached? state = none)
    (refused : state.answer id header.handle = none) :
    header.resolve state =
      (.error (.notFound header.handle.id), (state.ask id header.handle).2) := by
  rw [cached?] at absent
  rw [Resolution.answer] at refused
  cases hask : state.ask id header.handle
  simp_all [resolve]

theorem symbol?_eq_resolve (header : Header) (state : Resolution) :
    header.symbol? state = ((header.resolve state).1.toOption, (header.resolve state).2) :=
  rfl

end Header

/-! ## Identities -/

/-- Identities tell nodes apart: nodes with one identity stand for one construct and ask one
resolver. -/
def Node.Identified (nodes : List Node) : Prop :=
  ∀ a ∈ nodes, ∀ b ∈ nodes, a.id = b.id →
    a.header.handle = b.header.handle ∧ a.header.resolver = b.header.resolver

instance (nodes : List Node) : Decidable (Node.Identified nodes) :=
  inferInstanceAs (Decidable (∀ a ∈ nodes, ∀ b ∈ nodes, a.id = b.id →
    a.header.handle = b.header.handle ∧ a.header.resolver = b.header.resolver))

/-! ## One read -/

namespace Header

/-- What the node's resolver would answer now. -/
def answer? (header : Header) (state : Resolution) : Option Symbol :=
  header.resolver.bind fun id => state.answer id header.handle

/-- Whether a read of the symbol asks the resolver. -/
def asks (header : Header) (state : Resolution) : Bool :=
  header.resolver.isSome && (header.cached? state).isNone

/-- The request that such a read makes. -/
def request? (header : Header) : Option (ResolverId × Handle) :=
  header.resolver.map fun id => (id, header.handle)

/-- A symbol is only ever kept for a node with a resolver, and then the symbol of a node is the one
kept, or else the answer. -/
theorem effectiveSymbol_eq_or {header : Header} {state : Resolution}
    (kept : (header.cached? state).isSome → header.resolver.isSome) :
    header.effectiveSymbol state = (header.cached? state).or (header.answer? state) := by
  unfold effectiveSymbol answer?
  cases hresolver : header.resolver with
  | none =>
      cases hcached : header.cached? state with
      | none => rfl
      | some symbol => simp [hcached, hresolver] at kept
  | some id => rfl

theorem effectiveSymbol_of_asks {header : Header} {state : Resolution}
    (h : header.asks state = true) : header.effectiveSymbol state = header.answer? state := by
  simp only [asks, Bool.and_eq_true, Option.isNone_iff_eq_none] at h
  rw [effectiveSymbol_eq_or fun _ => h.1, h.2, Option.none_or]

theorem effectiveSymbol_congr {a b : Header} (id : a.id = b.id) (handle : a.handle = b.handle)
    (resolver : a.resolver = b.resolver) (state : Resolution) :
    a.effectiveSymbol state = b.effectiveSymbol state := by
  simp only [effectiveSymbol, cached?, id, handle, resolver]

end Header

namespace Resolution

/-- The state with a symbol kept for a node, if there is one to keep. -/
def keep (state : Resolution) (id : NodeId) : Option Symbol → Resolution
  | none => state
  | some symbol => { state with cache := state.cache.insert id symbol }

theorem keep_withCache (state : Resolution) (id : NodeId) (symbol : Option Symbol)
    (cache : Table NodeId Symbol) : { state.keep id symbol with cache } = { state with cache } := by
  cases symbol <;> rfl

end Resolution

namespace Header

variable {header : Header} {state : Resolution}

theorem symbol?_of_not_asks (h : header.asks state = false) :
    header.symbol? state = (header.effectiveSymbol state, state) := by
  rw [symbol?_eq_resolve]
  cases hresolver : header.resolver with
  | none => simp [resolve_of_unbound hresolver, effectiveSymbol, hresolver, Except.toOption]
  | some id =>
      cases hcached : header.cached? state with
      | none => simp [asks, hresolver, hcached] at h
      | some symbol =>
          simp [resolve_of_cached hresolver hcached, effectiveSymbol, hresolver, hcached,
            Except.toOption]

theorem symbol?_of_asks {id : ResolverId} (h : header.asks state = true)
    (hresolver : header.resolver = some id) :
    header.symbol? state =
      (header.effectiveSymbol state,
        (state.ask id header.handle).2.keep header.id (header.effectiveSymbol state)) := by
  have answer : header.effectiveSymbol state = state.answer id header.handle := by
    rw [effectiveSymbol_of_asks h, answer?, hresolver, Option.bind_some]
  have absent : header.cached? state = none := by
    simpa [asks, hresolver] using h
  rw [symbol?_eq_resolve, answer]
  cases answered : state.answer id header.handle with
  | none =>
      rw [resolve_of_no_answer hresolver absent answered]
      rfl
  | some symbol =>
      rw [resolve_of_answer hresolver absent answered]
      simp [Except.toOption, Resolution.keep, Resolution.cache_ask]

/-- A read gives the symbol that the node has at that moment. -/
theorem fst_symbol? (header : Header) (state : Resolution) :
    (header.symbol? state).1 = header.effectiveSymbol state := by
  cases h : header.asks state with
  | false => rw [symbol?_of_not_asks h]
  | true =>
      obtain ⟨id, hresolver⟩ := Option.isSome_iff_exists.mp (Bool.and_eq_true_iff.mp h).1
      rw [symbol?_of_asks h hresolver]

end Header

namespace Resolution

/-- The state after the symbol of a node was read. -/
def read (state : Resolution) (node : Node) : Resolution := (node.header.symbol? state).2

/-- The state after the symbols of some nodes were read in turn. -/
def readAll (state : Resolution) (reads : List Node) : Resolution := reads.foldl read state

/-- Those of the reads that ask a resolver. -/
def asked (state : Resolution) : List Node → List Node
  | [] => []
  | node :: reads =>
      (if node.header.asks state then [node] else []) ++ (state.read node).asked reads

theorem read_of_not_asks {state : Resolution} {node : Node} (h : node.header.asks state = false) :
    state.read node = state := by
  rw [read, Header.symbol?_of_not_asks h]

theorem read_of_asks {state : Resolution} {node : Node} (h : node.header.asks state = true) :
    ∃ id, node.header.resolver = some id ∧
      state.read node =
        (state.ask id node.header.handle).2.keep node.id (node.header.effectiveSymbol state) := by
  obtain ⟨id, hresolver⟩ := Option.isSome_iff_exists.mp (Bool.and_eq_true_iff.mp h).1
  refine ⟨id, hresolver, ?_⟩
  rw [read, Header.symbol?_of_asks h hresolver]
  rfl

theorem get?_cache_of_asks {state : Resolution} {node : Node}
    (h : node.header.asks state = true) : state.cache.get? node.id = none :=
  Option.isNone_iff_eq_none.mp (Bool.and_eq_true_iff.mp h).2

/-- What is kept after a read: under the identity of a node that asked, its symbol. -/
theorem get?_cache_read (state : Resolution) (node : Node) (id : NodeId) :
    (state.read node).cache.get? id =
      if node.header.asks state = true ∧ id = node.id then node.header.effectiveSymbol state
      else state.cache.get? id := by
  cases h : node.header.asks state with
  | false => simp [read_of_not_asks h]
  | true =>
      obtain ⟨resolver, -, hread⟩ := read_of_asks h
      rw [hread]
      cases symbol : node.header.effectiveSymbol state with
      | none =>
          by_cases same : id = node.id
          · simp [keep, cache_ask, same, get?_cache_of_asks h]
          · simp [keep, cache_ask, same]
      | some symbol =>
          by_cases same : id = node.id
          · simp [keep, cache_ask, same]
          · simp [keep, cache_ask, same, Table.get?_insert_ne _ same]

/-! ## Sequences of reads -/

@[simp] theorem readAll_nil (state : Resolution) : state.readAll [] = state := rfl

@[simp] theorem readAll_cons (state : Resolution) (node : Node) (reads : List Node) :
    state.readAll (node :: reads) = (state.read node).readAll reads := rfl

theorem readAll_append (state : Resolution) (first second : List Node) :
    state.readAll (first ++ second) = (state.readAll first).readAll second :=
  List.foldl_append

theorem asked_append (state : Resolution) (first second : List Node) :
    state.asked (first ++ second) = state.asked first ++ (state.readAll first).asked second := by
  induction first generalizing state with
  | nil => rfl
  | cons node first ih => simp [asked, ih]

theorem askAll_append (state : Resolution) (first second : List (ResolverId × Handle)) :
    state.askAll (first ++ second) = (state.askAll first).askAll second :=
  List.foldl_append

theorem asked_subset (state : Resolution) (reads : List Node) : state.asked reads ⊆ reads := by
  induction reads generalizing state with
  | nil => exact List.Subset.refl _
  | cons node reads ih =>
      intro other hother
      rw [asked, List.mem_append] at hother
      rcases hother with hother | hother
      · by_cases h : node.header.asks state = true
        · simp only [h, if_true, List.mem_singleton] at hother
          simp [hother]
        · simp [h] at hother
      · exact List.mem_cons_of_mem node (ih _ hother)

/-- Apart from the symbols kept, a sequence of reads comes to the requests it makes. -/
theorem readAll_eq_askAll (state : Resolution) (reads : List Node) :
    { state.readAll reads with cache := state.cache } =
      state.askAll ((state.asked reads).filterMap fun node => node.header.request?) := by
  induction reads generalizing state with
  | nil => rfl
  | cons node reads ih =>
      have first : { state.read node with cache := state.cache } =
          state.askAll ((if node.header.asks state then [node] else []).filterMap
            fun node => node.header.request?) := by
        by_cases h : node.header.asks state = true
        · obtain ⟨id, hresolver, hread⟩ := read_of_asks h
          rw [hread, keep_withCache]
          simp [h, Header.request?, hresolver, askAll, ← cache_ask state id node.header.handle]
        · simp [h, read_of_not_asks, askAll]
      have rest := congrArg (fun after : Resolution => { after with cache := state.cache })
        (ih (state.read node))
      simp only [readAll_cons, asked, List.filterMap_append, askAll_append, ← first,
        askAll_withCache]
      exact rest

/-- Reads change nothing that resolvers know and use up refusals at most. -/
theorem readAll_frame (state : Resolution) (reads : List Node) (id : ResolverId)
    (handle : Handle) :
    (state.readAll reads).known? id handle = state.known? id handle ∧
      (state.readAll reads).refusals id ≤ state.refusals id := by
  have frame := state.askAll_frame
    ((state.asked reads).filterMap fun node => node.header.request?) id handle
  rw [← readAll_eq_askAll] at frame
  cases id <;> exact frame

/-- An answer that is the same before and after a sequence of reads was the same all the time. -/
theorem answer?_readAll_of_append {state : Resolution} {header : Header} (first second : List Node)
    (same : header.answer? (state.readAll (first ++ second)) = header.answer? state) :
    header.answer? (state.readAll first) = header.answer? state := by
  unfold Header.answer? at same ⊢
  cases hresolver : header.resolver with
  | none => rfl
  | some id =>
      rw [hresolver, Option.bind_some, Option.bind_some, readAll_append] at same
      rw [Option.bind_some, Option.bind_some]
      have before := state.readAll_frame first id header.handle
      have after := (state.readAll first).readAll_frame second id header.handle
      rw [answer_eq, answer_eq state] at same ⊢
      rw [after.1, before.1] at same
      rw [before.1]
      -- Refusals only run out, so an answer can change at most once, from none to what is
      -- registered.
      by_cases refused : state.refusals id = 0
      · rw [if_pos (by omega), if_pos refused]
      · by_cases out : (state.readAll first).refusals id = 0
        · rw [if_pos (by omega)] at same
          rw [if_pos out]
          exact same
        · rw [if_neg out, if_neg refused]

/-- What is answered after some reads is what is answered after the requests they make. -/
theorem answer?_askAll_readAll (state : Resolution) (reads : List Node)
    (requests : List (ResolverId × Handle)) (header : Header) :
    header.answer? ((state.readAll reads).askAll requests) =
      header.answer? (state.askAll
        ((state.asked reads).filterMap (fun node => node.header.request?) ++ requests)) := by
  have cache : ∀ after : Resolution,
      header.answer? { after with cache := state.cache } = header.answer? after := by
    intro after
    simp only [Header.answer?, answer_withCache]
  rw [askAll_append, ← readAll_eq_askAll]
  exact ((congrArg header.answer? (askAll_withCache _ state.cache requests)).trans (cache _)).symm

/-- The nodes' resolvers answer after as they did before. -/
def Unchanged (nodes : List Node) (before after : Resolution) : Prop :=
  ∀ node ∈ nodes, node.header.answer? after = node.header.answer? before

instance (nodes : List Node) (before after : Resolution) :
    Decidable (Unchanged nodes before after) :=
  inferInstanceAs (Decidable (∀ node ∈ nodes,
    node.header.answer? after = node.header.answer? before))

theorem Unchanged.mono {nodes others : List Node} {before after : Resolution}
    (h : Unchanged nodes before after) (sub : others ⊆ nodes) : Unchanged others before after :=
  fun node hnode => h node (sub hnode)

theorem Unchanged.split {nodes : List Node} {state : Resolution} (first second : List Node)
    (h : Unchanged nodes state (state.readAll (first ++ second))) :
    Unchanged nodes state (state.readAll first) ∧
      Unchanged nodes (state.readAll first) ((state.readAll first).readAll second) := by
  have early : Unchanged nodes state (state.readAll first) :=
    fun node hnode => answer?_readAll_of_append first second (h node hnode)
  refine ⟨early, fun node hnode => ?_⟩
  rw [early node hnode, ← readAll_append]
  exact h node hnode

theorem Unchanged.cons {nodes reads : List Node} {state : Resolution} {node : Node}
    (h : Unchanged nodes state (state.readAll (node :: reads))) :
    Unchanged nodes state (state.read node) ∧
      Unchanged nodes (state.read node) ((state.read node).readAll reads) :=
  split [node] reads h

/-- A node whose symbol is kept asks nobody. -/
theorem id_not_mem_asked {state : Resolution} {id : NodeId} (kept : state.cache.get? id ≠ none)
    (reads : List Node) : id ∉ (state.asked reads).map Node.id := by
  induction reads generalizing state with
  | nil => simp [asked]
  | cons node reads ih =>
      have apart : node.header.asks state = true → id ≠ node.id := by
        intro h same
        exact kept (same ▸ get?_cache_of_asks h)
      have later : (state.read node).cache.get? id ≠ none := by
        rw [get?_cache_read, if_neg fun h => apart h.1 h.2]
        exact kept
      have rest := ih later
      by_cases h : node.header.asks state = true
      · simpa [asked, h, apart h] using rest
      · simpa [asked, h] using rest

section Identified

variable {nodes reads : List Node} {state : Resolution} (identified : Node.Identified nodes)

include identified

/-- A read changes nobody's symbol, as long as the answer for the node stays the same. -/
theorem effectiveSymbol_read {node other : Node} (hnode : node ∈ nodes) (hother : other ∈ nodes)
    (same : other.header.answer? (state.read node) = other.header.answer? state) :
    other.header.effectiveSymbol (state.read node) = other.header.effectiveSymbol state := by
  have kept := get?_cache_read state node other.id
  by_cases asking : node.header.asks state = true ∧ other.id = node.id
  · -- The node itself: its symbol was the answer, and if there was one it is kept now.
    obtain ⟨handle, resolver⟩ := identified other hother node hnode asking.2
    have symbol := Header.effectiveSymbol_congr asking.2 handle resolver state
    have answer : other.header.answer? state = other.header.effectiveSymbol state := by
      rw [symbol, Header.effectiveSymbol_of_asks asking.1, Header.answer?, Header.answer?, handle,
        resolver]
    have bound : other.header.resolver.isSome := resolver ▸ (Bool.and_eq_true_iff.mp asking.1).1
    rw [if_pos asking, ← symbol] at kept
    rw [Header.effectiveSymbol_eq_or fun _ => bound, same, answer, Header.cached?]
    show ((state.read node).cache.get? other.id).or _ = _
    rw [kept, Option.or_self]
  · rw [if_neg asking] at kept
    unfold Header.effectiveSymbol
    cases hresolver : other.header.resolver with
    | none => rfl
    | some id =>
        simp only [Header.answer?, hresolver, Option.bind_some] at same
        show ((state.read node).cache.get? other.id).or _ = (state.cache.get? other.id).or _
        rw [kept, same]

theorem effectiveSymbol_readAll {other : Node} (hreads : reads ⊆ nodes) (hother : other ∈ nodes)
    (same : other.header.answer? (state.readAll reads) = other.header.answer? state) :
    other.header.effectiveSymbol (state.readAll reads) = other.header.effectiveSymbol state := by
  induction reads generalizing state with
  | nil => rfl
  | cons node reads ih =>
      rw [List.cons_subset] at hreads
      have first : other.header.answer? (state.read node) = other.header.answer? state :=
        answer?_readAll_of_append [node] reads same
      rw [readAll_cons, ih hreads.2 (same.trans first.symm)]
      exact effectiveSymbol_read identified hreads.1 hother first

/-- What is kept after a sequence of reads was kept before, or is the symbol of a node read. -/
theorem get?_cache_readAll (hreads : reads ⊆ nodes)
    (unchanged : Unchanged nodes state (state.readAll reads)) (id : NodeId) :
    (state.readAll reads).cache.get? id = state.cache.get? id ∨
      state.cache.get? id = none ∧ ∃ node ∈ reads, node.id = id ∧
        (state.readAll reads).cache.get? id = node.header.effectiveSymbol state := by
  induction reads generalizing state with
  | nil => exact .inl rfl
  | cons node reads ih =>
      rw [List.cons_subset] at hreads
      obtain ⟨first, second⟩ := unchanged.cons
      have kept := get?_cache_read state node id
      rw [readAll_cons]
      rcases ih hreads.2 second with same | ⟨absent, other, hother, hid, symbol⟩
      · by_cases asking : node.header.asks state = true ∧ id = node.id
        · have absent := asking.2 ▸ get?_cache_of_asks asking.1
          rw [if_pos asking] at kept
          exact .inr ⟨absent, node, List.mem_cons_self, asking.2.symm, same.trans kept⟩
        · rw [if_neg asking] at kept
          exact .inl (same.trans kept)
      · refine .inr ⟨?_, other, List.mem_cons_of_mem node hother, hid, ?_⟩
        · by_cases asking : node.header.asks state = true ∧ id = node.id
          · exact asking.2 ▸ get?_cache_of_asks asking.1
          · rw [if_neg asking] at kept
            exact kept ▸ absent
        · have hmem := hreads.2 hother
          rw [symbol]
          exact effectiveSymbol_read identified hreads.1 hmem (first other hmem)

/-- A node with a symbol asks for it once at most. -/
theorem count_asked_le_one (hreads : reads ⊆ nodes)
    (unchanged : Unchanged nodes state (state.readAll reads)) {node : Node} (hnode : node ∈ nodes)
    (known : node.header.effectiveSymbol state ≠ none) :
    ((state.asked reads).map Node.id).count node.id ≤ 1 := by
  induction reads generalizing state with
  | nil => simp [asked]
  | cons other reads ih =>
      rw [List.cons_subset] at hreads
      obtain ⟨first, second⟩ := unchanged.cons
      have same := effectiveSymbol_read identified hreads.1 hnode (first node hnode)
      have rest := ih hreads.2 second (same ▸ known)
      by_cases asking : other.header.asks state = true
      · by_cases hid : node.id = other.id
        · -- The node asks here, and from then on its symbol is kept.
          obtain ⟨handle, resolver⟩ := identified node hnode other hreads.1 hid
          have symbol := Header.effectiveSymbol_congr hid handle resolver state
          have kept : (state.read other).cache.get? node.id ≠ none := by
            rw [get?_cache_read, if_pos ⟨asking, hid⟩, ← symbol]
            exact known
          have never := List.count_eq_zero_of_not_mem (id_not_mem_asked kept reads)
          simp [asked, asking, hid ▸ never, hid]
        · simpa [asked, asking, List.count_cons_of_ne (Ne.symm hid)] using rest
      · simpa [asked, asking] using rest

end Identified

end Resolution

end DeclTree
