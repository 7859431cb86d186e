import DeclTree.Proofs.Acts.Handling
import DeclTree.Proofs.Intent.Lazy
import DeclTree.Workbench.Comparing
import DeclTree.Workbench.Nodes

/-!
# Steps that only read

Questions and comparisons leave all things on the workbench as they are. What they may do is to read
symbols of nodes that are there, one after the other, and to take identities.
-/

namespace DeclTree

open BenchM Workbench Node

variable {α β : Type}

/-! ## Reading symbols -/

namespace ReadsOnly

variable {nodes : List Node} {node left right : Node}

theorem mapM {run : α → ResolveM β} {as : List α} (h : ∀ a ∈ as, ReadsOnly nodes (run a)) :
    ReadsOnly nodes (as.mapM run) := by
  induction as with
  | nil => exact .pure []
  | cons a as ih =>
      rw [List.mapM_cons]
      refine (h a (by simp)).bind fun b => ?_
      exact (ih fun a ha => h a (by simp [ha])).bind fun bs => .pure _

theorem fieldByName? (h : node ∈ nodes) (name : String) :
    ReadsOnly nodes (node.fieldByName? name) := by
  unfold Node.fieldByName?
  split
  next field _ => exact field? h field
  next => exact .pure none

theorem fields (h : node ∈ nodes) : ReadsOnly nodes node.fields :=
  (mapM fun field _ => (field? h field).bind fun _ => .pure _).bind fun _ => .pure _

theorem mismatch? (hleft : left.nodes ⊆ nodes) (hright : right.nodes ⊆ nodes)
    (options : CompareOptions) : ReadsOnly nodes (left.mismatch? options right) :=
  readsOnly_mismatch? (List.Subset.trans (declsWith_subset_nodes left right)
    (List.append_subset.mpr ⟨hleft, hright⟩)) options

theorem sameIntent (hleft : left.nodes ⊆ nodes) (hright : right.nodes ⊆ nodes)
    (options : CompareOptions) : ReadsOnly nodes (left.sameIntent options right) := by
  have compared : (relation nodes).rel (left.mismatch? options right)
      (left.mismatch? options right) := mismatch? hleft hright options
  exact (relation nodes).map compared Option.isNone

theorem sameContent (hleft : left.nodes ⊆ nodes) (hright : right.nodes ⊆ nodes)
    (options : CompareOptions) : ReadsOnly nodes (left.sameContent options right) := by
  have below : (relation nodes).RelatedBelow (Node.sameIntent options) (Node.sameIntent options)
      left right := by
    intro l hl r hr
    have inLeft : l.nodes ⊆ nodes := fun _ hnode => hleft (mem_nodes_of_mem_parts hl hnode)
    have inRight : r.nodes ⊆ nodes := fun _ hnode => hright (mem_nodes_of_mem_parts hr hnode)
    exact ⟨sameIntent inLeft inRight options, sameIntent inRight inLeft options⟩
  exact (relation nodes).contentAlike below

variable {lefts rights : List Node}

theorem sameIntentOrdered (hleft : ∀ node ∈ lefts, node.nodes ⊆ nodes)
    (hright : ∀ node ∈ rights, node.nodes ⊆ nodes) (options : CompareOptions) :
    ReadsOnly nodes (Node.sameIntentOrdered options lefts rights) := by
  have related : ∀ l ∈ lefts, ∀ r ∈ rights,
      (relation nodes).rel (l.sameIntent options r) (l.sameIntent options r) :=
    fun l hl r hr => sameIntent (hleft l hl) (hright r hr) options
  exact (relation nodes).orderedM related

theorem sameIntentUnordered (hleft : ∀ node ∈ lefts, node.nodes ⊆ nodes)
    (hright : ∀ node ∈ rights, node.nodes ⊆ nodes) (options : CompareOptions) :
    ReadsOnly nodes (Node.sameIntentUnordered options lefts rights) := by
  have related : ∀ l ∈ lefts, ∀ r ∈ rights,
      (relation nodes).rel (l.sameIntent options r) (l.sameIntent options r) :=
    fun l hl r hr => sameIntent (hleft l hl) (hright r hr) options
  exact (relation nodes).unorderedM related

theorem verify (hleft : left.nodes ⊆ nodes) (hright : right.nodes ⊆ nodes)
    (expectation : Expectation) (check : String) :
    ReadsOnly nodes (expectation.verify check left right) := by
  refine (mismatch? hleft hright _).bind fun forward => ?_
  refine (mismatch? hright hleft _).bind fun backward => ?_
  split
  · exact .pure _
  · exact .pure _

end ReadsOnly

/-! ## Looking at the workbench -/

/-- Between the two states symbols of nodes on the workbench were read and identities were taken. -/
structure Workbench.Reading (bench bench' : Workbench) : Prop where
  items : bench'.items = bench.items
  supply : bench.world.supply.Forward bench'.world.supply
  reads : ∃ reads ⊆ bench.nodes, bench'.world.resolution = bench.world.resolution.readAll reads

instance : Std.Refl Reading := ⟨fun _ => ⟨rfl, Nat.le_refl _, [], List.nil_subset _, rfl⟩⟩

instance : IsTrans Workbench Reading where
  trans first second third h h' := by
    obtain ⟨reads, hreads, after⟩ := h.reads
    obtain ⟨others, hothers, afterAll⟩ := h'.reads
    refine ⟨h'.items.trans h.items, Nat.le_trans h.supply h'.supply, reads ++ others, ?_, ?_⟩
    · rw [Workbench.nodes, h.items] at hothers
      exact List.append_subset.mpr ⟨hreads, hothers⟩
    · rw [afterAll, after, Resolution.readAll_append]

theorem Workbench.Reading.nodes {bench bench' : Workbench} (h : Reading bench bench') :
    bench'.nodes = bench.nodes := by
  unfold Workbench.nodes
  rw [h.items]

theorem Workbench.Untouched.reading {bench bench' : Workbench} (h : Untouched bench bench') :
    Reading bench bench' :=
  ⟨h.items, h.supply, [], List.nil_subset _, h.resolution⟩

/-- From this workbench the computation only reads. -/
def Looks (bench : Workbench) (run : BenchM α) : Prop := Reading bench (outcome run bench).2

variable {bench : Workbench}

/-- What was looked up is known from then on. -/
theorem Reads.looks {run : BenchM α} {next : α → BenchM β} {look : Workbench → Option α}
    (h : Reads run look) (rest : ∀ a, look bench = some a → Looks bench (next a)) :
    Looks bench (run >>= next) := by
  unfold Looks
  rw [outcome_bind, h]
  cases found : look bench with
  | none => exact Std.Refl.refl bench
  | some a => exact rest a found

theorem looks_resolving {run : ResolveM α} {next : α → BenchM β} (h : ReadsOnly bench.nodes run)
    (rest : ∀ a, Moves Reading (next a)) : Looks bench (resolving run >>= next) := by
  have first : Reading bench (outcome (resolving run) bench).2 :=
    ⟨rfl, Nat.le_refl _, h bench.world.resolution⟩
  unfold Looks
  rw [outcome_bind]
  exact IsTrans.trans _ _ _ first (rest _ _)

theorem looks_nodesAt {paths : List Path} {next : List Node → BenchM β}
    (rest : ∀ nodes, nodes ⊆ bench.nodes → Looks bench (next nodes)) :
    Looks bench (paths.mapM nodeAt >>= next) := by
  induction paths generalizing next with
  | nil =>
      rw [List.mapM_nil, pure_bind]
      exact rest [] (List.nil_subset _)
  | cons path paths ih =>
      rw [List.mapM_cons, bind_assoc]
      refine (reads_nodeAt path).looks fun node found => ?_
      rw [bind_assoc]
      refine ih fun nodes there => ?_
      rw [pure_bind]
      exact rest (node :: nodes) (List.cons_subset.mpr ⟨mem_nodes_of_nodeAt? found, there⟩)

/-- Two nodes are looked up and compared. -/
theorem looks_pair {left right : Path} {compare : Node → Node → ResolveM α} {next : α → BenchM β}
    (reads : ∀ {l r : Node}, l.nodes ⊆ bench.nodes → r.nodes ⊆ bench.nodes →
      ReadsOnly bench.nodes (compare l r))
    (rest : ∀ a, Moves Reading (next a)) :
    Looks bench (do next (← resolving (compare (← nodeAt left) (← nodeAt right)))) := by
  refine (reads_nodeAt left).looks fun l foundLeft => ?_
  refine (reads_nodeAt right).looks fun r foundRight => ?_
  have belowLeft := nodes_subset_nodes (mem_nodes_of_nodeAt? foundLeft)
  have belowRight := nodes_subset_nodes (mem_nodes_of_nodeAt? foundRight)
  exact looks_resolving (reads belowLeft belowRight) rest

theorem NodeQuery.run_looks (bench : Workbench) (path : Path) (query : NodeQuery) :
    Looks bench (query.run path) := by
  have node : Moves Reading (nodeAt path) := (reads_nodeAt path).moves
  have asking : ∀ {α : Type} {run : Node → ResolveM α} {answer : α → Answer},
      (∀ {node}, node ∈ bench.nodes → ReadsOnly bench.nodes (run node)) →
      Looks bench (do return answer (← resolving (run (← nodeAt path)))) := by
    intro α run answer reads
    refine (reads_nodeAt path).looks fun node found => ?_
    exact looks_resolving (reads (mem_nodes_of_nodeAt? found)) fun _ => moves_pure _
  cases query with
  | tree => exact moves_bind node (fun _ => answerTree_moves _) bench
  | fields => exact asking .fields
  | facets => exact moves_bind node (fun _ => moves_pure _) bench
  | field name => exact asking fun there => .fieldByName? there name
  | ownField name =>
      exact moves_bind (ofTree_moves _) (fun _ => moves_bind node fun _ => moves_pure _) bench
  | find id =>
      have taken : Moves Reading (idOf id) := (idOf_moves id).mono Untouched.reading
      exact moves_bind taken (fun _ => moves_bind node fun _ => moves_pure _) bench
  | displayName => exact moves_bind node (fun _ => moves_pure _) bench
  | handle => exact moves_bind node (fun _ => moves_pure _) bench
  | resolve =>
      refine (reads_nodeAt path).looks fun node found => ?_
      refine looks_resolving (.resolve (mem_nodes_of_nodeAt? found)) fun result => ?_
      cases result with
      | ok symbol => exact moves_pure _
      | error error => exact moves_throw _
  | symbol => exact asking .symbol?
  | cached => exact moves_bind node (fun _ => moves_bind get_moves fun _ => moves_pure _) bench
  | outerName => exact asking fun there => (ReadsOnly.symbol? there).bind fun _ => .pure _
  | namespaceName => exact asking fun there => (ReadsOnly.symbol? there).bind fun _ => .pure _
  | qualifiedName => exact asking fun there => (ReadsOnly.symbol? there).bind fun _ => .pure _

theorem CompareStep.run_looks (bench : Workbench) (step : CompareStep) : Looks bench step.run := by
  have belowAll : ∀ {nodes : List Node}, nodes ⊆ bench.nodes →
      ∀ node ∈ nodes, node.nodes ⊆ bench.nodes :=
    fun there node hnode => nodes_subset_nodes (there hnode)
  cases step with
  | mismatch left right options =>
      exact looks_pair (fun hl hr => .mismatch? hl hr options) fun _ => moves_pure _
  | same left right options =>
      exact looks_pair (fun hl hr => .sameIntent hl hr options) fun _ => moves_pure _
  | sameContent left right options =>
      exact looks_pair (fun hl hr => .sameContent hl hr options) fun _ => moves_pure _
  | sameArguments left right =>
      have node : ∀ path, Moves Reading (nodeAt path) := fun path => (reads_nodeAt path).moves
      refine moves_bind (node left) (fun _ => moves_bind (reads_require _).moves fun _ => ?_) bench
      refine moves_bind (node right) fun _ => moves_bind (reads_require _).moves fun _ => ?_
      exact moves_pure _
  | ordered left right options =>
      refine looks_nodesAt fun ls foundLeft => looks_nodesAt fun rs foundRight => ?_
      have reads := ReadsOnly.sameIntentOrdered (belowAll foundLeft) (belowAll foundRight) options
      exact looks_resolving reads fun _ => moves_pure _
  | unordered left right options =>
      refine looks_nodesAt fun ls foundLeft => looks_nodesAt fun rs foundRight => ?_
      have reads := ReadsOnly.sameIntentUnordered (belowAll foundLeft) (belowAll foundRight) options
      exact looks_resolving reads fun _ => moves_pure _
  | expect check left right expectation =>
      refine looks_pair (fun hl hr => .verify hl hr expectation check) fun verdict => ?_
      cases verdict with
      | ok _ => exact moves_pure _
      | error failure => exact moves_throw _

end DeclTree
