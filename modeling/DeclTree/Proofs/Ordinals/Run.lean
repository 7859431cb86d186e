import DeclTree.Proofs.Acts.Steps

/-!
# Ordinals in every state of a run

A run starts from a workbench without nodes. Whatever its steps do and whichever of them are
refused, in every state it reaches each parameter of a method has its position for its ordinal. The
one kind of step left out exchanges a parameter, position included, for another one. Headers may be
replaced and other nodes and lists exchanged, even though this breaks ownership.
-/

namespace DeclTree

open BenchM Node

/-- Whether the step exchanges a parameter for another one. -/
def Step.exchangesParameter (bench : Workbench) : Step → Bool
  | .node (.exchange path _) => (bench.nodeAt? path).any fun node => node.kind = .parameter
  | _ => false

theorem Node.ordinal?_eq_none {node : Node} (h : node.kind ≠ .parameter) : node.ordinal? = none := by
  cases found : node.ordinal? with
  | none => rfl
  | some ordinal => exact absurd (kind_of_ordinal? found) h

namespace Workbench

variable {α β : Type} {bench bench' : Workbench}

/-! ## Trees that come and go -/

/-- Every tree that is there afterwards was there before. -/
def Fewer (bench bench' : Workbench) : Prop := bench'.items.trees ⊆ bench.items.trees

instance : Std.Refl Fewer := ⟨fun bench => List.Subset.refl bench.items.trees⟩

instance : IsTrans Workbench Fewer := ⟨fun _ _ _ first second => List.Subset.trans second first⟩

theorem fewer_of_items (h : bench'.items = bench.items) : Fewer bench bench' := by
  intro tree htree
  rwa [h] at htree

theorem fewer_erase (bench : Workbench) (name : String) :
    Fewer bench { bench with items := bench.items.erase name } :=
  fun _ htree => Table.mem_trees_of_erase htree

theorem Untouched.fewer (h : Untouched bench bench') : Fewer bench bench' := fewer_of_items h.items

/-- Every tree on the workbench has the property. -/
def Every (P : Node → Prop) (bench : Workbench) : Prop := ∀ tree ∈ bench.items.trees, P tree

namespace Every

variable {P : Node → Prop}

theorem fewer (h : bench.Every P) (fewer : Fewer bench bench') : bench'.Every P :=
  fun tree htree => h tree (fewer htree)

theorem place (h : bench.Every P) {name : String} {item : Item} (new : ∀ tree ∈ item.trees, P tree) :
    (bench.place name item).Every P := by
  intro tree htree
  cases Table.mem_trees_of_insert htree with
  | inl htree => exact new tree htree
  | inr htree => exact h tree htree

/-- If a refusal only loses trees, what follows a success counts. -/
theorem bind {run : BenchM α} {next : α → BenchM β} (h : bench.Every P)
    (careful : ∀ {reason bench'}, Refuses run bench reason bench' → Fewer bench bench')
    (rest : ∀ a bench', Returns run bench a bench' → (outcome (next a) bench').2.Every P) :
    (outcome (run >>= next) bench).2.Every P := by
  rw [outcome_bind]
  rcases ended : outcome run bench with ⟨reason | a, bench'⟩
  · exact h.fewer (careful ended)
  · exact rest a bench' ended

end Every

/-! ## What keeps parameters numbered -/

theorem numbered_iff : bench.Numbered ↔ bench.Every (All Node.Numbered) := by
  unfold Numbered nodes Every All
  simp only [List.mem_flatMap]
  exact ⟨fun h tree htree node hnode => h node ⟨tree, htree, hnode⟩,
    fun h node ⟨tree, htree, hnode⟩ => h tree htree node hnode⟩

namespace Numbered

theorem all (h : bench.Numbered) {node : Node} (there : node ∈ bench.nodes) :
    node.All Node.Numbered :=
  fun other hother => h other (nodes_subset_nodes there hother)

theorem all_of_mem_trees (h : bench.Numbered) {tree : Node} (there : tree ∈ bench.items.trees) :
    tree.All Node.Numbered :=
  numbered_iff.mp h tree there

theorem fewer (h : bench.Numbered) (fewer : Fewer bench bench') : bench'.Numbered :=
  numbered_iff.mpr ((numbered_iff.mp h).fewer fewer)

theorem congr (h : bench.Numbered) (items : bench'.items = bench.items) : bench'.Numbered :=
  h.fewer (fewer_of_items items)

theorem erase (h : bench.Numbered) (name : String) :
    ({ bench with items := bench.items.erase name } : Workbench).Numbered :=
  h.fewer (fewer_erase bench name)

theorem place (h : bench.Numbered) {name : String} {item : Item}
    (new : ∀ tree ∈ item.trees, tree.All Node.Numbered) : (bench.place name item).Numbered :=
  numbered_iff.mpr ((numbered_iff.mp h).place new)

theorem rewrites {path : Path} {old new : Node} (h : bench.Numbered)
    (rewrites : Rewrites path old new bench bench') (same : new.ordinal? = old.ordinal?)
    (changed : new.All Node.Numbered) : bench'.Numbered := by
  obtain ⟨item, item', found, inner, rfl⟩ := rewrites.placed
  refine h.place (inner.all (stable_numbered 0).member same changed fun tree htree => ?_)
  exact h.all_of_mem_trees (Table.mem_trees_of_get? found htree)

/-- A refusal changes nothing, so only what follows a success counts. -/
theorem bind {run : BenchM α} {next : α → BenchM β} (h : bench.Numbered) (cautious : Cautious run)
    (rest : ∀ a bench', Returns run bench a bench' → (outcome (next a) bench').2.Numbered) :
    (outcome (run >>= next) bench).2.Numbered := by
  refine numbered_iff.mpr ((numbered_iff.mp h).bind (fun refused => ?_) fun a bench' returned => ?_)
  · exact (cautious refused).fewer
  · exact numbered_iff.mp (rest a bench' returned)

end Numbered

/-! ## Steps that exchange -/

theorem numbered_replaceHeader (h : bench.Numbered) (path : Path) (name kind : String) :
    (outcome (NodeStep.replaceHeader path name kind).run bench).2.Numbered := by
  have detached : Moves Untouched (allocating (Header.detached name kind)) :=
    fun bench => ⟨rfl, rfl, Nat.le_succ bench.world.supply.nextNode⟩
  refine h.bind (Cautious.of_moves detached) fun header bench₁ returned => ?_
  have untouched := detached bench
  rw [returned] at untouched
  have before := h.congr untouched.items
  refine before.bind changeNode_cautious fun _ bench₂ returned => ?_
  obtain ⟨old, new, changed, rewrites⟩ := exists_of_changeNode returned
  obtain ⟨-, rfl⟩ := Prod.mk.inj (Except.ok.inj changed)
  have all := before.all (mem_nodes_of_nodeAt? rewrites.found)
  exact before.rewrites rewrites rfl (all.root rfl fun numbered => numbered.congr rfl)

theorem numbered_exchangeNode (h : bench.Numbered) {path : Path} (register : String)
    (other : ∀ node, bench.nodeAt? path = some node → node.kind ≠ .parameter) :
    (outcome (NodeStep.exchange path register).run bench).2.Numbered := by
  refine h.bind (Cautious.of_moves (requireThat_moves _)) fun _ _ returned => ?_
  obtain ⟨rfl, apart⟩ := returned_requireThat returned
  refine h.bind (Cautious.of_moves (reads_nodeAt path).moves) fun taken _ returned => ?_
  obtain ⟨rfl, found⟩ := (reads_nodeAt path).returned returned
  refine h.bind takeNode_cautious fun placed _ returned => ?_
  obtain ⟨there, rfl⟩ := returned_takeNode returned
  have before := h.erase register
  refine before.bind (Cautious.of_moves (requireThat_moves _)) fun _ _ returned => ?_
  obtain ⟨rfl, kinds⟩ := returned_requireThat returned
  refine before.bind changeNode_cautious fun _ bench₁ returned => ?_
  obtain ⟨old, new, changed, rewrites⟩ := exists_of_changeNode returned
  obtain ⟨-, rfl⟩ := Prod.mk.inj (Except.ok.inj changed)
  -- The node at the path is still the one that was read, for another name has been dropped.
  have same : old = taken := by
    have still := rewrites.found
    rw [nodeAt?_congr (Table.get?_erase_ne _ (of_decide_eq_true apart)), found] at still
    exact (Option.some.inj still).symm
  have kind : placed.kind = taken.kind := of_decide_eq_true kinds
  have ordinals : placed.ordinal? = old.ordinal? := by
    rw [same, ordinal?_eq_none (other taken found), ordinal?_eq_none (kind ▸ other taken found)]
  have taken_all := h.all (mem_nodes_of_nodeAt? found)
  have placed_all := h.all_of_mem_trees (Table.mem_trees_of_get? there (List.mem_singleton.mpr rfl))
  have after := before.rewrites rewrites ordinals placed_all
  exact after.place (List.forall_mem_singleton.mpr taken_all)

theorem numbered_exchangeList (h : bench.Numbered) (path : ListPath) (register : String) :
    (outcome (ListStep.exchange path register).run bench).2.Numbered := by
  refine h.bind (Cautious.of_moves (requireThat_moves _)) fun _ _ returned => ?_
  obtain ⟨rfl, -⟩ := returned_requireThat returned
  refine h.bind (Cautious.of_moves (reads_listAt path).moves) fun (kind, taken) _ returned => ?_
  obtain ⟨rfl, found⟩ := (reads_listAt path).returned returned
  refine h.bind (Cautious.of_moves (reads_item register).moves) fun item _ returned => ?_
  obtain ⟨rfl, there⟩ := (reads_item register).returned returned
  cases item with
  | node node => exact h
  | slot registerKind slot => exact h
  | store store => exact h
  | list registerKind placed =>
      refine h.bind (Cautious.of_moves (requireThat_moves _)) fun _ _ returned => ?_
      obtain ⟨rfl, -⟩ := returned_requireThat returned
      have placed_all : ∀ item ∈ placed.items, item.All Node.Numbered :=
        fun item hitem => h.all_of_mem_trees (Table.mem_trees_of_get? there hitem)
      have taken_all : ∀ item ∈ taken.items, item.All Node.Numbered :=
        fun item hitem => h.all (mem_nodes_of_listAt? found hitem)
      refine h.bind changeList_cautious fun _ bench₁ returned => ?_
      obtain ⟨_, old, new, -, changed, rewrites⟩ := exists_of_changeList returned
      obtain ⟨-, rfl⟩ := Prod.mk.inj (Except.ok.inj changed)
      have after : bench₁.Numbered := by
        cases rewrites with
        | register new found => exact h.place placed_all
        | @branch path role node _ _ _ role_ne found inner =>
            have root := h.all (mem_nodes_of_nodeAt? inner.found)
            refine h.rewrites inner rfl (root.setList ?_ placed_all)
            exact (stable_numbered 0).list placed role_ne
      exact after.place taken_all

/-! ## Runs -/

theorem Numbered.step {step : Step} (h : bench.Numbered)
    (keeps : step.exchangesParameter bench = false) : (bench.step step).2.Numbered := by
  cases asks : step.asks with
  | true => exact h.congr (reading_of_asks asks).items
  | false =>
      cases exchanges : step.exchanges with
      | false =>
          have acts := acts_of_step h False.elim asks exchanges False.elim
          exact acts.numbered h
      | true =>
          unfold Step.exchanges at exchanges
          split at exchanges
          next path register => exact numbered_exchangeList h path register
          next path register =>
            refine numbered_exchangeNode h register fun node found parameter => ?_
            simp [Step.exchangesParameter, found, parameter] at keeps
          next path name kind => exact numbered_replaceHeader h path name kind
          next => cases exchanges

/-- No step exchanges a parameter for another one. -/
def keepsParameters : Workbench → List Step → Bool
  | _, [] => true
  | bench, step :: steps =>
      !step.exchangesParameter bench && (bench.step step).2.keepsParameters steps

theorem Numbered.run {steps : List Step} (h : bench.Numbered) (keeps : bench.keepsParameters steps)
    (n : Nat) : (bench.run (steps.take n)).2.Numbered := by
  induction steps generalizing bench n with
  | nil =>
      rw [List.take_nil]
      exact h
  | cons step steps ih =>
      cases n with
      | zero => exact h
      | succ n =>
          obtain ⟨first, rest⟩ := Bool.and_eq_true_iff.mp keeps
          exact ih (h.step (Bool.not_inj first)) rest n

/-- In every state that a run goes through, from a workbench without nodes on, the parameter at each
index of a method has that index for its ordinal. -/
theorem run_keeps_parameters_numbered {steps : List Step} (empty : bench.items.trees = [])
    (keeps : bench.keepsParameters steps) (n : Nat) :
    ∀ method ∈ (bench.run (steps.take n)).2.nodes, ∀ (index : Nat) (parameter : Node),
      (method.itemsIn .parameters)[index]? = some parameter → parameter.ordinal? = some index :=
  (numbered_of_no_trees empty).run keeps n

/-- The ordinals of the parameters of all methods there are. -/
def ordinals (bench : Workbench) : List (List (Option Nat)) :=
  (bench.nodes.filter fun node => node.kind = .method).map fun method =>
    (method.itemsIn .parameters).map Node.ordinal?

/-- Two methods of a class and one outside it trade parameters. Three steps are refused: a parameter
is added twice at once, one is moved out of a method that does not have it, and one is added that
has gone. A parameter gets a new header, another one other attributes and a default, and the class
is copied with its methods. -/
def sampleEdits : List Step :=
  let shop : Path := ⟨"shop", []⟩
  let sell : Path := ⟨"shop", [.members .methods, .index 0]⟩
  let buy : Path := ⟨"buy", []⟩
  let parameter (method : Path) (index : Nat) : Path :=
    ⟨method.register, method.segments ++ [.members .parameters, .index index]⟩
  let named (name : String) : ParameterPlan := { header := { name } }
  [.node (.build (.typeDecl
      { header := { name := "Shop" }
        methods := [
          { header := { name := "Sell" }, parameters := [named "a", named "b", named "c"] },
          { header := { name := "Count" }, parameters := [named "d"] }] }) "shop"),
    .node (.build (.method { header := { name := "Buy" }, parameters := [named "e"] }) "buy"),
    .node (.build (.parameter (named "f")) "f"),
    .node (.build (.parameter (named "g")) "g"),
    .parameter (.addAll sell ["f", "g", "f"]),
    .node (.build (.parameter (named "h")) "h"),
    .parameter (.addAll sell ["h"]),
    .parameter (.move sell (.node (parameter sell 0)) buy),
    .parameter (.move sell (.node (parameter buy 1)) buy),
    .parameter (.remove sell (.node (parameter sell 0)) (some "b")),
    .parameter (.remove sell (.node ⟨"b", []⟩) none),
    .parameter (.add buy "b"),
    .parameter (.add buy "b"),
    .node (.replaceHeader (parameter buy 1) "i" "Parameter"),
    .list (.create "attributes" .attribute .fresh),
    .list (.exchange (.branch (parameter buy 0) .attributes) "attributes"),
    .node (.edit (parameter buy 0) { default := some (some .null) }),
    .node (.copy shop "copy"),
    .parameter (.move buy (.node (parameter buy 0)) ⟨"copy", [.members .methods, .index 1]⟩)]

theorem run_keeps_parameters_numbered_of_sampleEdits :
    ({} : Workbench).items.trees = [] ∧ ({} : Workbench).keepsParameters sampleEdits ∧
      (({} : Workbench).run sampleEdits).1.map Except.toBool =
        [true, true, true, true, false, true, true, true, false, true, true, true, false, true, true,
          true, true, true, true] ∧
      (({} : Workbench).run (sampleEdits.take 19)).2.ordinals =
        [[some 0, some 1], [some 0, some 1], [some 0, some 1], [some 0, some 1], [some 0]] ∧
      ∀ method ∈ (({} : Workbench).run (sampleEdits.take 19)).2.nodes,
        ∀ (index : Nat) (parameter : Node),
          (method.itemsIn .parameters)[index]? = some parameter → parameter.ordinal? = some index :=
  ⟨rfl, by decide +kernel, by decide +kernel, by decide +kernel,
    run_keeps_parameters_numbered rfl (by decide +kernel) 19⟩

end Workbench

end DeclTree
