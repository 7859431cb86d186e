import DeclTree.Proofs.Intent.Laws

/-!
# Lazy comparison refines the stateless one

The comparison and the look at a field are written over any monad, so they can also be run in one
that notes every request together with the node it is made for. Notes taken out, this is the lazy
run; and it reads symbols of type declarations and does nothing else. While the answers stay the
same, every read gives the symbol that the node had at the start. So the run returns what the
stateless comparison returns, and the sequence of its reads accounts for all it leaves behind.
-/

namespace DeclTree

/-! ## Noting requests -/

/-- Computations that also note for which nodes a resolver is asked, in order. -/
abbrev NotingM := StateT (List Header) ResolveM

/-- The symbol of a node, with a note if a resolver is asked for it. -/
def Header.notedSymbol? (header : Header) : NotingM (Option Symbol) := fun notes state =>
  (((header.symbol? state).1, if header.asks state then notes ++ [header] else notes),
    (header.symbol? state).2)

/-- A computation that reads symbols of these nodes and notes the requests that come of it, and the
same one without notes. -/
def noting (nodes : List Node) : MonadRelation NotingM ResolveM where
  rel noted run := ∀ notes state, ∃ reads ⊆ nodes,
    noted notes state =
      (((run state).1, notes ++ (state.asked reads).map Node.header), (run state).2) ∧
    (run state).2 = state.readAll reads
  pure a notes state := ⟨[], List.nil_subset _, by simp [Resolution.asked]; rfl, rfl⟩
  bind {_ _ x x' f f'} hx hf notes state := by
    obtain ⟨first, hfirst, noted, after⟩ := hx notes state
    obtain ⟨second, hsecond, notedNext, afterNext⟩ :=
      hf (x' state).1 (notes ++ (state.asked first).map Node.header) (x' state).2
    refine ⟨first ++ second, List.append_subset.mpr ⟨hfirst, hsecond⟩, ?_, ?_⟩
    · show f (x notes state).1.1 (x notes state).1.2 (x notes state).2 = _
      rw [noted, notedNext, after, Resolution.asked_append, List.map_append, List.append_assoc,
        ← after]
      rfl
    · show (f' (x' state).1 (x' state).2).2 = _
      rw [afterNext, after, Resolution.readAll_append]

theorem noting_notedSymbol? {nodes : List Node} {node : Node} (hnode : node ∈ nodes) :
    (noting nodes).rel node.header.notedSymbol? node.header.symbol? := by
  intro notes state
  refine ⟨[node], by simpa using hnode, ?_, rfl⟩
  by_cases h : node.header.asks state = true <;> simp [Header.notedSymbol?, Resolution.asked, h]

/-- What a comparison does: it reads symbols of type declarations, with or without notes. -/
theorem Node.noting_mismatch? {nodes : List Node} {left right : Node}
    (hdecls : left.declsWith right ⊆ nodes) (options : CompareOptions) :
    (noting nodes).rel (mismatchBy Header.notedSymbol? options left right)
      (left.mismatch? options right) :=
  mismatchBy_of_declsWith _ options fun _ hnode => noting_notedSymbol? (hdecls hnode)

/-! ## Comparisons and fields as sequences of reads -/

/-- Something that can be asked about trees. -/
inductive Inquiry where
  | comparison (options : CompareOptions) (left right : Node)
  | field (node : Node) (field : Field)

namespace Inquiry

/-- Asks and leaves the answer aside. -/
def run : Inquiry → ResolveM Unit
  | .comparison options left right => discard (left.mismatch? options right)
  | .field node wanted => discard (node.field? wanted)

/-- The nodes whose symbols may be read for it. -/
def readers : Inquiry → List Node
  | .comparison _ left right => left.declsWith right
  | .field node _ => [node]

theorem readsOnly {nodes : List Node} {inquiry : Inquiry} (h : inquiry.readers ⊆ nodes) :
    ReadsOnly nodes inquiry.run := by
  cases inquiry with
  | comparison options left right => exact Node.readsOnly_mismatch? h options
  | field node wanted => exact ReadsOnly.field? (h List.mem_cons_self) wanted

/-- The state after a number of inquiries. -/
def runAll (state : Resolution) (inquiries : List Inquiry) : Resolution :=
  inquiries.foldl (fun state inquiry => (inquiry.run state).2) state

theorem exists_reads_runAll {nodes : List Node} {inquiries : List Inquiry}
    (h : inquiries.flatMap readers ⊆ nodes) (state : Resolution) :
    ∃ reads ⊆ nodes, runAll state inquiries = state.readAll reads := by
  induction inquiries generalizing state with
  | nil => exact ⟨[], List.nil_subset _, rfl⟩
  | cons inquiry inquiries ih =>
      rw [List.flatMap_cons, List.append_subset] at h
      obtain ⟨first, hfirst, afterFirst⟩ := readsOnly h.1 state
      obtain ⟨second, hsecond, afterSecond⟩ := ih h.2 (state.readAll first)
      refine ⟨first ++ second, List.append_subset.mpr ⟨hfirst, hsecond⟩, ?_⟩
      show runAll (inquiry.run state).2 inquiries = _
      rw [afterFirst, afterSecond, Resolution.readAll_append]

end Inquiry

/-! ## What is left behind -/

/-- All of a state but the counters of requests and the symbols kept. -/
structure Knowledge where
  nextId : Nat
  line : Nat
  symbols : ResolverId → Table SyntaxId Symbol
  fallback : String → Handle → Option Symbol

namespace Resolution

def knowledge (state : Resolution) : Knowledge where
  nextId := state.source.nextId
  line := state.source.line
  symbols
    | .source => state.source.registry.symbols
    | .named name => (state.resolver name).registry.symbols
  fallback name := (state.resolver name).fallback

theorem knowledge_ask (state : Resolution) (id : ResolverId) (handle : Handle) :
    (state.ask id handle).2.knowledge = state.knowledge := by
  cases id with
  | source => rfl
  | named name =>
      have kept : ∀ other,
          ((state.ask (.named name) handle).2.resolver other).registry.symbols =
              (state.resolver other).registry.symbols ∧
            ((state.ask (.named name) handle).2.resolver other).fallback =
              (state.resolver other).fallback := by
        intro other
        by_cases h : other = name
        · subst h
          simp only [ask, resolver_setResolver_self, Resolver.ask, Registry.lookup]
          cases (state.resolver other).failures <;> exact ⟨rfl, rfl⟩
        · simp [ask, resolver_setResolver_ne _ h]
      unfold knowledge
      congr 1
      · funext other
        cases other with
        | source => rfl
        | named other => exact (kept other).1
      · exact funext fun other => (kept other).2

theorem knowledge_askAll (state : Resolution) (requests : List (ResolverId × Handle)) :
    (state.askAll requests).knowledge = state.knowledge := by
  induction requests generalizing state with
  | nil => rfl
  | cons request requests ih =>
      exact (ih (state.ask request.1 request.2).2).trans (state.knowledge_ask request.1 request.2)

/-- Between the two states symbols of these nodes were read, and nothing else happened. -/
structure OnlyReads (nodes : List Node) (before after : Resolution) : Prop where
  knowledge : after.knowledge = before.knowledge
  kept : ∀ id, after.cache.get? id = before.cache.get? id ∨
    before.cache.get? id = none ∧ ∃ node ∈ nodes, node.id = id ∧
      after.cache.get? id = node.header.effectiveSymbol before

theorem OnlyReads.of_reads {nodes reads : List Node} {state : Resolution}
    (identified : Node.Identified nodes) (hreads : reads ⊆ nodes)
    (unchanged : Unchanged nodes state (state.readAll reads)) :
    OnlyReads nodes state (state.readAll reads) where
  knowledge := by
    have requests := state.knowledge_askAll
      ((state.asked reads).filterMap fun node => node.header.request?)
    rw [← readAll_eq_askAll] at requests
    exact requests
  kept id := by
    rcases get?_cache_readAll identified hreads unchanged id with same | ⟨absent, node, hnode, kept⟩
    · exact .inl same
    · exact .inr ⟨absent, node, hreads hnode, kept⟩

end Resolution

namespace Node

/-- After any reads, a comparison finds the symbols that the nodes had before them. -/
theorem mismatch?_readAll {left right : Node} {nodes reads : List Node} {state : Resolution}
    (identified : Identified nodes) (hdecls : left.declsWith right ⊆ nodes) (hreads : reads ⊆ nodes)
    (options : CompareOptions)
    (unchanged : Resolution.Unchanged (left.declsWith right) state
      (left.mismatch? options right (state.readAll reads)).2) :
    (left.mismatch? options right (state.readAll reads)).1 =
      mismatchWith (fun header => header.effectiveSymbol state) options left right := by
  obtain ⟨later, -, after⟩ :=
    readsOnly_mismatch? (List.Subset.refl (left.declsWith right)) options (state.readAll reads)
  rw [after, ← Resolution.readAll_append] at unchanged
  obtain ⟨early, late⟩ := unchanged.split reads later
  refine mismatch?_of_steady (identified.mono hdecls) ⟨state.readAll reads, ?_, ?_⟩
  · intro node hnode
    exact Resolution.effectiveSymbol_readAll identified hreads (hdecls hnode) (early node hnode)
  · rw [after]
    exact late

/-- A lazy comparison returns what the stateless one does for the symbols that the nodes have at
the start. It leaves everything as it was but counters of requests and symbols newly kept for type
declarations. A node whose symbol was kept asks no resolver, and one that its resolver knows asks
once at most. Other inquiries made before do not change the outcome, the same comparison among
them. -/
theorem lazy_comparison_refines_stateless (left right : Node) (options : CompareOptions)
    (state : Resolution) (identified : Identified (left.declsWith right))
    (unchanged : Resolution.Unchanged (left.declsWith right) state
      (left.mismatch? options right state).2) :
    (∀ header : Header, ((header.cached? state).isSome → header.resolver.isSome) →
      header.effectiveSymbol state = (header.cached? state).or (header.answer? state)) ∧
    (left.mismatch? options right state).1 =
      mismatchWith (fun header => header.effectiveSymbol state) options left right ∧
    Resolution.OnlyReads (left.declsWith right) state (left.mismatch? options right state).2 ∧
    (∃ callers : List Header,
      mismatchBy Header.notedSymbol? options left right [] state =
        (((left.mismatch? options right state).1, callers),
          (left.mismatch? options right state).2) ∧
      { (left.mismatch? options right state).2 with cache := state.cache } =
        state.askAll (callers.filterMap Header.request?) ∧
      (∀ caller ∈ callers, ∃ node ∈ left.declsWith right, node.header = caller) ∧
      ∀ node ∈ left.declsWith right,
        ((node.header.cached? state).isSome → node.id ∉ callers.map Header.id) ∧
        ((node.header.answer? state).isSome → (callers.map Header.id).count node.id ≤ 1)) ∧
    ∀ earlier : List Inquiry,
      Identified (left.declsWith right ++ earlier.flatMap Inquiry.readers) →
      Resolution.Unchanged (left.declsWith right) state
        (left.mismatch? options right (Inquiry.runAll state earlier)).2 →
      (left.mismatch? options right (Inquiry.runAll state earlier)).1 =
        (left.mismatch? options right state).1 := by
  have outcome := mismatch?_of_unchanged identified unchanged
  obtain ⟨reads, hreads, noted, after⟩ :=
    noting_mismatch? (List.Subset.refl (left.declsWith right)) options [] state
  rw [List.nil_append] at noted
  have unchanged' := after ▸ unchanged
  refine ⟨fun header => Header.effectiveSymbol_eq_or, outcome, ?_, ?_, ?_⟩
  · rw [after]
    exact .of_reads identified hreads unchanged'
  · refine ⟨_, noted, ?_, ?_, ?_⟩
    · rw [after, Resolution.readAll_eq_askAll, List.filterMap_map]
      rfl
    · intro caller hcaller
      obtain ⟨node, hnode, rfl⟩ := List.mem_map.mp hcaller
      exact ⟨node, hreads (state.asked_subset reads hnode), rfl⟩
    · intro node hnode
      rw [List.map_map]
      constructor
      · intro kept
        exact Resolution.id_not_mem_asked (Option.isSome_iff_ne_none.mp kept) reads
      · intro known
        apply Resolution.count_asked_le_one identified hreads unchanged' hnode
        have bound : node.header.resolver.isSome := by
          cases hresolver : node.header.resolver with
          | none => simp [Header.answer?, hresolver] at known
          | some id => rfl
        rw [Header.effectiveSymbol_eq_or fun _ => bound]
        cases hcached : node.header.cached? state <;> simp_all [Option.isSome_iff_ne_none]
  · intro earlier identified' unchanged''
    obtain ⟨before, hbefore, state'⟩ := Inquiry.exists_reads_runAll
      (List.subset_append_right _ _) state
    rw [state'] at unchanged'' ⊢
    rw [outcome]
    exact mismatch?_readAll identified' (List.subset_append_left _ _) hbefore options unchanged''

/-- A class with a nested class whose resolver refuses every request for a while. -/
def sampleNest (number : Nat) : Node :=
  (sampleClass number ["f"]).setList .nested
    ⟨⟨number⟩, [ofHeader
      { id := ⟨number + 2⟩, name := "D", handle := .parsed ⟨2⟩ "class" {},
        resolver := some (.named "slow"), parent := some ⟨number⟩ }
      (.typeDecl {})]⟩

/-- Keeps the symbol of one class and refuses the next twenty requests for the nested ones. -/
def refusingResolution : Resolution :=
  { sampleResolution with
    resolvers :=
      ⟨[("slow", { registry := { symbols := ⟨[(⟨2⟩, { name := "D" })]⟩ }, failures := 20 })]⟩
    cache := ⟨[(⟨1⟩, { name := "C", namespaceName := "N" })]⟩ }

/-- A comparison made while a resolver refuses, and made again after others. -/
theorem lazy_comparison_refines_stateless_of_refusals :
    ((sampleNest 1).mismatch? {} (sampleNest 4) refusingResolution).1 = none ∧
      mismatchWith (fun header => header.effectiveSymbol refusingResolution) {} (sampleNest 1)
        (sampleNest 4) = none ∧
      ((sampleNest 1).mismatch? {} (sampleNest 4) (Inquiry.runAll refusingResolution
        [.comparison {} (sampleNest 1) (sampleNest 4),
          .field (sampleNest 4) .qualifiedName])).1 = none := by
  have outcome : ((sampleNest 1).mismatch? {} (sampleNest 4) refusingResolution).1 = none := by
    decide +kernel
  obtain ⟨-, stateless, -, -, again⟩ := lazy_comparison_refines_stateless (sampleNest 1)
    (sampleNest 4) {} refusingResolution (by decide +kernel) (by decide +kernel)
  refine ⟨outcome, stateless ▸ outcome, ?_⟩
  rw [again _ (by decide +kernel) (by decide +kernel)]
  exact outcome

end Node

end DeclTree
