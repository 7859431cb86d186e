import DeclTree.Proofs.Intent.Parametric
import DeclTree.Proofs.Intent.Reading

/-!
# Lazy comparison

A lazy comparison asks resolvers while it runs and keeps their answers. All it does to the state of
resolution is to read symbols of type declarations. As long as no answer for these changes
meanwhile, every read gives the symbol that the node had at the start. So the outcome is that of the
stateless comparison, the nodes still have their symbols afterwards, and comparisons can be repeated
and put in any order.
-/

namespace DeclTree

variable {α β : Type}

/-! ## Computations that only read symbols -/

/-- The computation reads symbols of these nodes and does nothing else. -/
def ReadsOnly (nodes : List Node) (run : ResolveM α) : Prop :=
  ∀ state, ∃ reads ⊆ nodes, (run state).2 = state.readAll reads

namespace ReadsOnly

variable {nodes : List Node}

theorem pure (a : α) : ReadsOnly nodes (Pure.pure a : ResolveM α) :=
  fun _ => ⟨[], List.nil_subset _, rfl⟩

theorem bind {run : ResolveM α} {next : α → ResolveM β} (first : ReadsOnly nodes run)
    (rest : ∀ a, ReadsOnly nodes (next a)) : ReadsOnly nodes (run >>= next) := by
  intro state
  obtain ⟨reads, hreads, after⟩ := first state
  obtain ⟨others, hothers, afterAll⟩ := rest (run state).1 (run state).2
  refine ⟨reads ++ others, List.append_subset.mpr ⟨hreads, hothers⟩, ?_⟩
  show (next (run state).1 (run state).2).2 = _
  rw [afterAll, after, Resolution.readAll_append]

/-- Reading only, as a relation between monads that looks at one side. -/
def relation (nodes : List Node) : MonadRelation ResolveM ResolveM where
  rel run _ := ReadsOnly nodes run
  pure := .pure
  bind := .bind

theorem resolve {node : Node} (h : node ∈ nodes) : ReadsOnly nodes node.header.resolve :=
  fun _ => ⟨[node], List.cons_subset.mpr ⟨h, List.nil_subset _⟩, rfl⟩

theorem symbol? {node : Node} (h : node ∈ nodes) : ReadsOnly nodes node.header.symbol? :=
  (resolve h).bind fun _ => .pure _

theorem field? {node : Node} (h : node ∈ nodes) (field : Field) :
    ReadsOnly nodes (node.field? field) := by
  have read : (relation nodes).rel node.header.symbol? node.header.symbol? := symbol? h
  exact (relation nodes).fieldBy (fun _ => read) fun _ => read

end ReadsOnly

namespace Resolution

/-- The nodes have these symbols, and what is answered for them is the same before and after the
computation. -/
structure SteadyFor (symbolOf : Header → Option Symbol) (nodes : List Node) (run : ResolveM α)
    (state : Resolution) : Prop where
  symbols : ∀ node ∈ nodes, node.header.effectiveSymbol state = symbolOf node.header
  unchanged : Unchanged nodes state (run state).2

/-- The states in which a computation finds these symbols. -/
abbrev Steady (symbolOf : Header → Option Symbol) (nodes : List Node) (run : ResolveM α) : Type :=
  { state : Resolution // state.SteadyFor symbolOf nodes run }

/-- The nodes have these symbols, and no requests change what is answered for them. -/
structure Reads (symbolOf : Header → Option Symbol) (nodes : List Node) (state : Resolution) :
    Prop where
  symbols : ∀ node ∈ nodes, node.header.effectiveSymbol state = symbolOf node.header
  settled : ∀ node ∈ nodes, ∀ requests,
    node.header.answer? (state.askAll requests) = node.header.answer? state

section Symbols

variable {symbolOf : Header → Option Symbol} {nodes others : List Node} {state : Resolution}
  {run : ResolveM α} {next : α → ResolveM β}

theorem SteadyFor.mono (h : state.SteadyFor symbolOf nodes run) (sub : others ⊆ nodes) :
    state.SteadyFor symbolOf others run :=
  ⟨fun node hnode => h.symbols node (sub hnode), h.unchanged.mono sub⟩

/-- The symbols are still there after the computation. -/
theorem SteadyFor.symbols_after (h : state.SteadyFor symbolOf nodes run)
    (identified : Node.Identified nodes) (reads : ReadsOnly nodes run) :
    ∀ node ∈ nodes, node.header.effectiveSymbol (run state).2 = symbolOf node.header := by
  intro node hnode
  have same := h.unchanged node hnode
  obtain ⟨reads, hreads, after⟩ := reads state
  rw [after] at same ⊢
  rw [effectiveSymbol_readAll identified hreads hnode same]
  exact h.symbols node hnode

/-- Answers that are the same at the end were the same in between. -/
theorem SteadyFor.of_bind (h : state.SteadyFor symbolOf nodes (run >>= next))
    (identified : Node.Identified nodes) (first : ReadsOnly nodes run)
    (rest : ∀ a, ReadsOnly nodes (next a)) :
    state.SteadyFor symbolOf nodes run ∧
      (run state).2.SteadyFor symbolOf nodes (next (run state).1) := by
  have whole : Unchanged nodes state (next (run state).1 (run state).2).2 := h.unchanged
  have here : state.SteadyFor symbolOf nodes run := by
    refine ⟨h.symbols, ?_⟩
    obtain ⟨reads, -, after⟩ := first state
    obtain ⟨others, -, afterAll⟩ := rest (run state).1 (run state).2
    rw [afterAll, after, ← readAll_append] at whole
    rw [after]
    exact (whole.split reads others).1
  refine ⟨here, here.symbols_after identified first, fun node hnode => ?_⟩
  exact (whole node hnode).trans (here.unchanged node hnode).symm

/-- Resolvers that refuse nothing keep to their answers. -/
theorem Reads.of_refusals_eq_zero
    (h : ∀ node ∈ nodes, ∀ id ∈ node.header.resolver, state.refusals id = 0) :
    state.Reads (fun header => header.effectiveSymbol state) nodes := by
  refine ⟨fun _ _ => rfl, fun node hnode requests => ?_⟩
  rw [Header.answer?, Header.answer?]
  cases hresolver : node.header.resolver with
  | none => rfl
  | some id => exact answer_askAll_of_refusals_eq_zero (h node hnode id hresolver) _ _

theorem Reads.steadyFor (h : state.Reads symbolOf nodes) (reads : ReadsOnly others run) :
    state.SteadyFor symbolOf nodes run := by
  refine ⟨h.symbols, fun node hnode => ?_⟩
  obtain ⟨reads, -, after⟩ := reads state
  have asked := answer?_askAll_readAll state reads [] node.header
  rw [after]
  exact asked.trans (h.settled node hnode _)

theorem Reads.after (h : state.Reads symbolOf nodes) (identified : Node.Identified nodes)
    (reads : ReadsOnly nodes run) : (run state).2.Reads symbolOf nodes := by
  have steady := h.steadyFor reads
  refine ⟨steady.symbols_after identified reads, fun node hnode requests => ?_⟩
  rw [steady.unchanged node hnode]
  obtain ⟨reads, -, after⟩ := reads state
  rw [after, answer?_askAll_readAll]
  exact h.settled node hnode _

end Symbols

end Resolution

/-- A computation that only reads symbols of these nodes, and the value that it returns where the
nodes have the symbols given and no answer changes meanwhile. -/
def reading (symbolOf : Header → Option Symbol) {nodes : List Node}
    (identified : Node.Identified nodes) : MonadRelation ResolveM Id where
  rel run value := ReadsOnly nodes run ∧
    ∀ state : Resolution, state.SteadyFor symbolOf nodes run → (run state).1 = value.run
  pure a := ⟨.pure a, fun _ _ => rfl⟩
  bind {_ _ x x' f f'} hx hf := by
    refine ⟨hx.1.bind fun a => (hf a).1, fun state steady => ?_⟩
    obtain ⟨here, there⟩ := steady.of_bind identified hx.1 fun a => (hf a).1
    have value := (hf (x state).1).2 (x state).2 there
    rw [hx.2 state here] at value
    show (f (x state).1 (x state).2).1 = (f' x'.run).run
    rw [hx.2 state here]
    exact value

theorem reading_symbol? (symbolOf : Header → Option Symbol) {nodes : List Node}
    (identified : Node.Identified nodes) {node : Node} (hnode : node ∈ nodes) :
    (reading symbolOf identified).rel node.header.symbol? (pure (symbolOf node.header)) := by
  refine ⟨.symbol? hnode, fun state steady => ?_⟩
  rw [Header.fst_symbol?]
  exact steady.symbols node hnode

/-! ## The outcome of a lazy comparison -/

namespace Node

/-- The type declarations of a tree, held ones included. -/
def typeDecls (node : Node) : List Node :=
  node.nodes.filter fun other => other.kind = .typeDecl

/-- The type declarations that a comparison of two trees meets. -/
def declsWith (left right : Node) : List Node := left.typeDecls ++ right.typeDecls

theorem mem_typeDecls {node other : Node} :
    other ∈ node.typeDecls ↔ other ∈ node.nodes ∧ other.kind = .typeDecl := by
  simp [typeDecls]

theorem declsWith_subset_nodes (left right : Node) :
    left.declsWith right ⊆ left.nodes ++ right.nodes := by
  rw [declsWith, typeDecls, typeDecls, ← List.filter_append]
  exact List.filter_subset_self _

theorem Identified.mono {nodes others : List Node} (h : Identified nodes) (sub : others ⊆ nodes) :
    Identified others :=
  fun a ha b hb => h a (sub ha) b (sub hb)

theorem typeDecls_subset {tree node : Node} (h : node ∈ tree.nodes) :
    node.typeDecls ⊆ tree.typeDecls := by
  intro other hother
  obtain ⟨below, hk⟩ := mem_typeDecls.mp hother
  exact mem_typeDecls.mpr ⟨(nodes_sublist_nodes h).subset below, hk⟩

theorem declsWith_subset {tree tree' left right : Node} (hleft : left ∈ tree.nodes)
    (hright : right ∈ tree'.nodes) : left.declsWith right ⊆ tree.declsWith tree' :=
  List.append_subset.mpr
    ⟨List.subset_append_of_subset_left _ (typeDecls_subset hleft),
      List.subset_append_of_subset_right _ (typeDecls_subset hright)⟩

theorem declsWith_subset_flatMap {trees : List Node} {left right : Node} (hleft : left ∈ trees)
    (hright : right ∈ trees) : left.declsWith right ⊆ trees.flatMap typeDecls := by
  refine List.append_subset.mpr ⟨fun node hnode => ?_, fun node hnode => ?_⟩
  · exact List.mem_flatMap.mpr ⟨left, hleft, hnode⟩
  · exact List.mem_flatMap.mpr ⟨right, hright, hnode⟩

theorem declsWith_comm_subset (left right : Node) : right.declsWith left ⊆ left.declsWith right :=
  List.append_subset.mpr ⟨List.subset_append_right _ _, List.subset_append_left _ _⟩

/-- Comparisons are related as soon as the symbols of the type declarations are. -/
theorem mismatchBy_of_declsWith {m m' : Type → Type} [Monad m] [Monad m'] [LawfulMonad m]
    [LawfulMonad m'] (R : MonadRelation m m') {symbolOf : Header → m (Option Symbol)}
    {symbolOf' : Header → m' (Option Symbol)} {left right : Node} (options : CompareOptions)
    (related : ∀ node ∈ left.declsWith right, R.rel (symbolOf node.header) (symbolOf' node.header)) :
    R.rel (mismatchBy symbolOf options left right) (mismatchBy symbolOf' options left right) :=
  R.mismatchBy options
    (fun node hnode hk =>
      related node (List.mem_append_left _ (mem_typeDecls.mpr ⟨hnode, hk⟩)))
    (fun node hnode hk =>
      related node (List.mem_append_right _ (mem_typeDecls.mpr ⟨hnode, hk⟩)))

theorem readsOnly_mismatch? {nodes : List Node} {left right : Node}
    (hdecls : left.declsWith right ⊆ nodes) (options : CompareOptions) :
    ReadsOnly nodes (left.mismatch? options right) := by
  have related : ∀ node ∈ left.declsWith right,
      (ReadsOnly.relation nodes).rel node.header.symbol? node.header.symbol? :=
    fun _ hnode => ReadsOnly.symbol? (hdecls hnode)
  exact mismatchBy_of_declsWith _ options related

/-- The states in which a comparison of the two nodes finds these symbols. -/
abbrev Steady (symbolOf : Header → Option Symbol) (options : CompareOptions) (left right : Node) :
    Type :=
  Resolution.Steady symbolOf (left.declsWith right) (left.mismatch? options right)

variable {symbolOf : Header → Option Symbol} {options : CompareOptions} {nodes : List Node}
  {left right : Node}

theorem reading_mismatch? (symbolOf : Header → Option Symbol) (identified : Identified nodes)
    (hdecls : left.declsWith right ⊆ nodes) (options : CompareOptions) :
    (reading symbolOf identified).rel (left.mismatch? options right)
      (pure (mismatchWith symbolOf options left right)) :=
  mismatchBy_of_declsWith _ options fun _ hnode =>
    reading_symbol? symbolOf identified (hdecls hnode)

/-- A lazy comparison reports what the stateless one does. -/
theorem mismatch?_of_steady (identified : Identified (left.declsWith right))
    (s : Steady symbolOf options left right) :
    (left.mismatch? options right s).1 = mismatchWith symbolOf options left right :=
  (reading_mismatch? symbolOf identified (List.Subset.refl _) options).2 s s.2

theorem sameIntent_of_steady (identified : Identified (left.declsWith right))
    (s : Steady symbolOf options left right) :
    (left.sameIntent options right s).1 =
      (mismatchWith symbolOf options left right).isNone :=
  congrArg Option.isNone (mismatch?_of_steady identified s)

theorem mismatch?_of_unchanged {state : Resolution}
    (identified : Identified (left.declsWith right))
    (unchanged : Resolution.Unchanged (left.declsWith right) state
      (left.mismatch? options right state).2) :
    (left.mismatch? options right state).1 =
      mismatchWith (fun header => header.effectiveSymbol state) options left right :=
  mismatch?_of_steady identified ⟨state, fun _ _ => rfl, unchanged⟩

end Node

end DeclTree
