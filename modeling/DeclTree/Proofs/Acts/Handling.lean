import DeclTree.Proofs.Acts.Building
import DeclTree.Proofs.Ordinals.Numbered
import DeclTree.Proofs.Ownership.Bench
import DeclTree.Workbench.Lists
import DeclTree.Workbench.Slots

/-!
# What steps have in hand

A step is made of computations that read, that take nodes up, that change one thing in place and
that put things down. `Meets` describes each by the state it starts from and the state it ends in,
both reached by acts. Whatever the computation, a refusal leaves a workbench that was reached by
acts too: what was in hand is lost, and all else is as it was.
-/

namespace DeclTree

open BenchM Workbench Node

variable {α β : Type}

/-! ## Reached states -/

/-- A workbench to start from, and the rules to be observed from there on. -/
structure Start where
  bench : Workbench
  rules : Rules

/-- From a workbench with numbered parameters, acts have led to this workbench and these nodes in
hand. If they are orderly there was an account of the nodes. -/
structure Reached (start : Start) (hand : List Node) (bench : Workbench) : Prop where
  numbered : start.bench.Numbered
  account : start.rules.orderly → start.bench.Account []
  acts : Acts start.rules ⟨[], start.bench⟩ ⟨hand, bench⟩

/-- The workbench is the same, except that identities may have been taken. -/
structure Workbench.Untouched (bench bench' : Workbench) : Prop where
  items : bench'.items = bench.items
  resolution : bench'.world.resolution = bench.world.resolution
  supply : bench.world.supply.Forward bench'.world.supply

instance : Std.Refl Untouched := ⟨fun _ => ⟨rfl, rfl, Nat.le_refl _⟩⟩

instance : IsTrans Workbench Untouched :=
  ⟨fun _ _ _ first second => ⟨second.items.trans first.items,
    second.resolution.trans first.resolution, Nat.le_trans first.supply second.supply⟩⟩

namespace Reached

variable {start : Start} {bench bench' : Workbench} {hand hand' dropped : List Node}

theorem numbered_of_mem (h : Reached start hand bench) {node : Node} (there : node ∈ bench.nodes) :
    node.Numbered :=
  h.acts.numbered h.numbered node there

theorem allocated (h : Reached start hand bench) (orderly : start.rules.orderly) {node : Node}
    (there : node ∈ bench.nodes) : node.id.number < bench.world.supply.nextNode :=
  (h.acts.account orderly (h.account orderly)).allocated_of_mem_nodes there

theorem act (h : Reached start hand bench) (act : Act start.rules ⟨hand, bench⟩ ⟨hand', bench'⟩) :
    Reached start hand' bench' :=
  ⟨h.numbered, h.account, h.acts.tail act⟩

theorem trans (h : Reached start hand bench)
    (acts : Acts start.rules ⟨hand, bench⟩ ⟨hand', bench'⟩) : Reached start hand' bench' :=
  ⟨h.numbered, h.account, h.acts.trans acts⟩

theorem built (h : Reached start hand bench) (allowed : start.rules.binding)
    (acts : Acts .building ⟨hand, bench⟩ ⟨hand', bench'⟩) : Reached start hand' bench' :=
  h.trans (acts.mono (fun _ => trivial) (fun _ => allowed) False.elim)

theorem untouched (h : Reached start hand bench) (same : Untouched bench bench') :
    Reached start hand bench' := by
  obtain ⟨⟨supply, resolution⟩, items⟩ := bench
  obtain ⟨⟨supply', resolution'⟩, items'⟩ := bench'
  obtain ⟨rfl, rfl, more⟩ := same
  exact h.act (.forward more)

theorem drop (h : Reached start (dropped ++ hand) bench) : Reached start hand bench :=
  h.trans .drop

theorem empty_handed (h : Reached start hand bench) : Reached start [] bench :=
  h.act (.release (List.nil_subperm))

theorem perm (h : Reached start hand bench) (same : hand'.Perm hand) : Reached start hand' bench :=
  h.trans (.perm same)

end Reached

/-! ## Computations and refusals -/

structure Meets (start : Start) (P : Workbench → Prop) (run : BenchM α)
    (Q : α → Workbench → Prop) : Prop where
  returned : ∀ {bench a bench'}, P bench → Returns run bench a bench' → Q a bench'
  refused : ∀ {bench reason bench'}, P bench → Refuses run bench reason bench' →
    Reached start [] bench'

/-- Nothing is touched before a refusal. -/
def Cautious (run : BenchM α) : Prop :=
  ∀ {bench reason bench'}, Refuses run bench reason bench' → Untouched bench bench'

theorem Cautious.of_moves {run : BenchM α} (h : Moves Untouched run) : Cautious run := by
  intro bench reason bench' refused
  have moved := h bench
  rwa [refused] at moved

theorem Cautious.bind {run : BenchM α} {next : α → BenchM β} (first : Moves Untouched run)
    (rest : ∀ a, Cautious (next a)) : Cautious (run >>= next) := by
  intro bench reason bench' refused
  have moved := first bench
  rcases refuses_bind.mp refused with refused | ⟨a, bench₁, returned, refused⟩
  · rwa [refused] at moved
  · rw [returned] at moved
    exact IsTrans.trans _ _ _ moved (rest a refused)

namespace Meets

variable {start : Start} {P P' : Workbench → Prop} {Q : α → Workbench → Prop}
  {R : β → Workbench → Prop} {run : BenchM α} {hand : List Node}

/-- What follows may use what is known of the first result. -/
theorem bind_of_yields {next : α → BenchM β} {known : α → Prop} (first : Meets start P run Q)
    (yields : Yields run known) (rest : ∀ a, known a → Meets start (Q a) (next a) R) :
    Meets start P (run >>= next) R where
  returned hP returned := by
    obtain ⟨a, bench₁, h₁, h₂⟩ := returns_bind.mp returned
    exact (rest a (yields _ _ _ h₁)).returned (first.returned hP h₁) h₂
  refused hP refused := by
    rcases refuses_bind.mp refused with refused | ⟨a, bench₁, h₁, h₂⟩
    · exact first.refused hP refused
    · exact (rest a (yields _ _ _ h₁)).refused (first.returned hP h₁) h₂

theorem bind {next : α → BenchM β} (first : Meets start P run Q)
    (rest : ∀ a, Meets start (Q a) (next a) R) : Meets start P (run >>= next) R :=
  first.bind_of_yields (fun _ _ _ _ => trivial) fun a _ => rest a

theorem weaken (h : Meets start P run Q) (sub : ∀ {bench}, P' bench → P bench) :
    Meets start P' run Q :=
  ⟨fun hP => h.returned (sub hP), fun hP => h.refused (sub hP)⟩

/-- What does not depend on the state is a premise. -/
theorem assume {p : Prop} (h : p → Meets start P run Q) :
    Meets start (fun bench => P bench ∧ p) run Q :=
  ⟨fun hP => (h hP.2).returned hP.1, fun hP => (h hP.2).refused hP.1⟩

/-- What holds in every state that the computation may start from is a premise. -/
theorem know {p : Prop} (known : ∀ {bench}, P bench → p) (h : p → Meets start P run Q) :
    Meets start P run Q :=
  ⟨fun hP => (h (known hP)).returned hP, fun hP => (h (known hP)).refused hP⟩

theorem of_cautious (cautious : Cautious run) (reached : ∀ {bench}, P bench → Reached start [] bench)
    (returned : ∀ {bench a bench'}, P bench → Returns run bench a bench' → Q a bench') :
    Meets start P run Q :=
  ⟨returned, fun hP refused => (reached hP).untouched (cautious refused)⟩

theorem of_moves (h : Moves Untouched run) :
    Meets start (Reached start hand) run fun _ => Reached start hand := by
  refine of_cautious (Cautious.of_moves h) Reached.empty_handed fun {bench _ _} reached returned => ?_
  have moved := h bench
  rw [returned] at moved
  exact reached.untouched moved

theorem pure {a : α} (h : ∀ {bench}, P bench → Q a bench) :
    Meets start P (Pure.pure a : BenchM α) Q where
  returned hP returned := by
    obtain ⟨rfl, rfl⟩ := returns_pure.mp returned
    exact h hP
  refused _ refused := absurd refused not_refuses_pure

theorem throw {reason : Refusal} (h : ∀ {bench}, P bench → Reached start [] bench) :
    Meets start P (MonadExcept.throw reason : BenchM α) Q where
  returned _ returned := absurd returned not_returns_throw
  refused hP refused := by
    obtain ⟨-, rfl⟩ := refuses_throw.mp refused
    exact h hP

theorem modify {f : Workbench → Workbench} {Q : Unit → Workbench → Prop}
    (h : ∀ {bench}, P bench → Q () (f bench)) : Meets start P (modify f : BenchM Unit) Q where
  returned hP returned := by
    obtain ⟨-, rfl⟩ := Prod.mk.inj returned
    exact h hP
  refused _ refused := by cases refused

end Meets

/-! ## Reading -/

/-- The computation looks something up and changes nothing. -/
def Reads (run : BenchM α) (look : Workbench → Option α) : Prop :=
  ∀ bench, outcome run bench = ((look bench).elim (.error .malformed) .ok, bench)

namespace Reads

variable {run : BenchM α} {look : Workbench → Option α}

theorem moves (h : Reads run look) {R : Workbench → Workbench → Prop} [Std.Refl R] :
    Moves R run := by
  intro bench
  rw [h]
  exact Std.Refl.refl bench

theorem returned (h : Reads run look) {bench bench' : Workbench} {a : α}
    (returned : Returns run bench a bench') : bench' = bench ∧ look bench = some a := by
  rw [Returns, h] at returned
  obtain ⟨found, rfl⟩ := Prod.mk.inj returned
  cases hlook : look bench with
  | none => simp [hlook] at found
  | some b => simpa [hlook] using found

/-- What follows a look starts from the same state. -/
theorem returned_bind (h : Reads run look) {next : α → BenchM β} {bench bench' : Workbench} {b : β}
    (returned : Returns (run >>= next) bench b bench') :
    ∃ a, look bench = some a ∧ Returns (next a) bench b bench' := by
  obtain ⟨a, _, read, rest⟩ := returns_bind.mp returned
  obtain ⟨rfl, found⟩ := h.returned read
  exact ⟨a, found, rest⟩

theorem returns (h : Reads run look) {bench : Workbench} {a : α} (found : look bench = some a) :
    Returns run bench a bench := by
  rw [Returns, h, found, Option.elim_some]

theorem bind {next : α → BenchM β} {look' : α → Workbench → Option β} (first : Reads run look)
    (rest : ∀ a, Reads (next a) (look' a)) :
    Reads (run >>= next) fun bench => (look bench).bind fun a => look' a bench := by
  intro bench
  rw [outcome_bind, first]
  cases found : look bench with
  | none => simp only [found, Option.elim_none, Option.bind_none]
  | some a => simp only [found, Option.elim_some, Option.bind_some, rest a bench]

theorem meets (h : Reads run look) {start : Start} {P : Workbench → Prop}
    (reached : ∀ {bench}, P bench → Reached start [] bench) :
    Meets start P run fun a bench => P bench ∧ look bench = some a := by
  refine .of_cautious (Cautious.of_moves h.moves) reached fun hP returned => ?_
  obtain ⟨rfl, found⟩ := h.returned returned
  exact ⟨hP, found⟩

end Reads

theorem reads_require (found : Option α) : Reads (require found) fun _ => found := fun _ => rfl

theorem reads_pure (a : α) : Reads (pure a) fun _ => some a := fun _ => rfl

theorem reads_item (name : String) : Reads (item name) fun bench => bench.items.get? name :=
  fun _ => rfl

theorem reads_nodeAt (path : Path) : Reads (nodeAt path) fun bench => bench.nodeAt? path :=
  (reads_item path.register).bind fun _ => reads_require _

theorem reads_listAt (path : ListPath) : Reads (listAt path) fun bench => bench.listAt? path := by
  cases path with
  | register name =>
      refine (reads_item name).bind fun item => ?_
      cases item <;> exact fun _ => rfl
  | branch path role =>
      refine (reads_nodeAt path).bind fun node => ?_
      cases node.list? role <;> exact fun _ => rfl

theorem reads_parametersAt (path : Path) :
    Reads (parametersAt path) fun bench =>
      (bench.nodeAt? path).bind fun node => node.list? .parameters :=
  (reads_nodeAt path).bind fun _ => reads_require _

section Moves

variable {R : Workbench → Workbench → Prop} [Std.Refl R]

theorem ofExcept_moves (result : Except Refusal α) : Moves R (ofExcept result) :=
  fun bench => Std.Refl.refl bench

theorem ofTree_moves (result : Except TreeError α) : Moves R (ofTree result) := ofExcept_moves _

theorem requireThat_moves (condition : Bool) : Moves R (requireThat condition) := ofExcept_moves _

theorem get_moves : Moves R (get : BenchM Workbench) := fun bench => Std.Refl.refl bench

theorem allocating_moves {run : StateM Supply α} (h : ∀ s : Supply, s.Forward (run s).2) :
    Moves Untouched (allocating run) :=
  fun bench => ⟨rfl, rfl, h bench.world.supply⟩

theorem freshNode_moves : Moves Untouched (allocating Supply.freshNode) :=
  allocating_moves fun s => Nat.le_succ s.nextNode

theorem idOf_moves (ref : IdRef) : Moves Untouched (idOf ref) := by
  cases ref with
  | given id => exact moves_pure id
  | fresh => exact freshNode_moves
  | node path => exact moves_bind (reads_nodeAt path).moves fun _ => moves_pure _

theorem parametersAt_moves (path : Path) : Moves R (parametersAt path) :=
  (reads_parametersAt path).moves

variable [IsTrans Workbench R]

theorem viewsOf_moves (node : Node) : Moves R (viewsOf node) :=
  moves_bind get_moves fun _ => moves_pure _

theorem answerTree_moves (node : Node) : Moves R (answerTree node) :=
  moves_bind (viewsOf_moves node) fun _ => moves_pure _

theorem answerList_moves (path : ListPath) : Moves R (answerList path) :=
  moves_bind (reads_listAt path).moves fun _ => moves_pure _

end Moves

theorem returned_ofExcept {result : Except Refusal α} {bench bench' : Workbench} {a : α}
    (h : Returns (ofExcept result) bench a bench') : bench' = bench ∧ result = .ok a := by
  obtain ⟨ok, rfl⟩ := Prod.mk.inj h
  exact ⟨rfl, ok⟩

theorem returned_ofTree {result : Except TreeError α} {bench bench' : Workbench} {a : α}
    (h : Returns (ofTree result) bench a bench') : bench' = bench ∧ result = .ok a := by
  obtain ⟨same, ok⟩ := returned_ofExcept h
  cases result with
  | error error => cases ok
  | ok b => exact ⟨same, congrArg Except.ok (Except.ok.inj ok)⟩

theorem returned_requireThat {condition : Bool} {bench bench' : Workbench}
    (h : Returns (requireThat condition) bench () bench') : bench' = bench ∧ condition = true := by
  obtain ⟨same, ok⟩ := returned_ofExcept h
  cases condition with
  | false => cases ok
  | true => exact ⟨same, rfl⟩

theorem requireThat_returned_bind {condition : Bool} {next : Unit → BenchM β}
    {bench bench' : Workbench} {b : β}
    (h : Returns (requireThat condition >>= next) bench b bench') :
    condition = true ∧ Returns (next ()) bench b bench' := by
  obtain ⟨_, _, required, rest⟩ := returns_bind.mp h
  obtain ⟨rfl, holds⟩ := returned_requireThat required
  exact ⟨holds, rest⟩

section Conditions

variable {start : Start} {P : Workbench → Prop}

theorem requireThat_meets {condition : Bool}
    (reached : ∀ {bench}, P bench → Reached start [] bench) :
    Meets start P (requireThat condition) fun _ bench => P bench ∧ condition = true := by
  refine .of_cautious (Cautious.of_moves (requireThat_moves condition)) reached fun hP returned => ?_
  obtain ⟨rfl, holds⟩ := returned_requireThat returned
  exact ⟨hP, holds⟩

end Conditions

variable {start : Start}

/-- What resolvers know changes, and nothing else does. -/
theorem resolvers_meets {run : ResolveM α} {hand : List Node}
    (h : ∀ state, ResolverChange state (run state).2) :
    Meets start (Reached start hand) (resolving run) fun _ => Reached start hand where
  returned {bench _ _} reached returned := by
    obtain ⟨-, rfl⟩ := Prod.mk.inj returned
    exact reached.act (.resolvers (h bench.world.resolution))
  refused _ refused := by cases refused

/-! ## Taking up and putting down -/

section Handling

variable {hand ins : List Node} {name : String}

theorem takeNode_cautious : Cautious (takeNode name) := by
  refine Cautious.bind (reads_item name).moves fun item => ?_
  cases item with
  | node node =>
      intro bench reason bench' refused
      cases refused
  | list kind members => exact Cautious.of_moves (moves_throw _)
  | slot kind place => exact Cautious.of_moves (moves_throw _)
  | store store => exact Cautious.of_moves (moves_throw _)

theorem returned_takeNode {bench bench' : Workbench} {node : Node}
    (h : Returns (takeNode name) bench node bench') :
    bench.items.get? name = some (.node node) ∧
      bench' = { bench with items := bench.items.erase name } := by
  obtain ⟨item, bench₁, hitem, h⟩ := returns_bind.mp h
  obtain ⟨rfl, found⟩ := (reads_item name).returned hitem
  cases item with
  | node root =>
      obtain ⟨_, bench₂, dropped, h⟩ := returns_bind.mp h
      obtain ⟨rfl, rfl⟩ := returns_pure.mp h
      obtain ⟨-, rfl⟩ := Prod.mk.inj dropped
      exact ⟨found, rfl⟩
  | list kind members => exact absurd h not_returns_throw
  | slot kind place => exact absurd h not_returns_throw
  | store store => exact absurd h not_returns_throw

theorem takeNode_meets (name : String) :
    Meets start (Reached start hand) (takeNode name) fun node => Reached start (node :: hand) := by
  refine .of_cautious takeNode_cautious Reached.empty_handed fun reached returned => ?_
  obtain ⟨found, rfl⟩ := returned_takeNode returned
  exact reached.act (.take found)

theorem returned_takeOfKind {kind : BenchM Kind} {kind? : Workbench → Option Kind}
    (reads : Reads kind kind?) {bench bench' : Workbench} {node : Node}
    (h : Returns (takeOfKind kind name) bench node bench') :
    (bench.items.get? name = some (.node node) ∧
      bench' = { bench with items := bench.items.erase name }) ∧ kind? bench' = some node.kind := by
  obtain ⟨taken, bench₁, take, h⟩ := returns_bind.mp h
  obtain ⟨_, found, h⟩ := reads.returned_bind h
  obtain ⟨same, h⟩ := requireThat_returned_bind h
  obtain ⟨rfl, rfl⟩ := returns_pure.mp h
  rw [← of_decide_eq_true same] at found
  exact ⟨returned_takeNode take, found⟩

theorem takeOfKind_meets {kind : BenchM Kind} (moves : Moves Untouched kind) (name : String)
    (hand : List Node) :
    Meets start (Reached start hand) (takeOfKind kind name)
      fun node => Reached start (node :: hand) := by
  refine (takeNode_meets name).bind fun node => (Meets.of_moves moves).bind fun _ => ?_
  exact (Meets.of_moves (requireThat_moves _)).bind fun _ => .pure fun reached => reached

/-- Nodes are taken up one after the other. -/
theorem mapM_meets {take : String → BenchM Node}
    (h : ∀ name hand,
      Meets start (Reached start hand) (take name) fun node => Reached start (node :: hand))
    (names : List String) :
    Meets start (Reached start hand) (names.mapM take) fun nodes => Reached start (nodes ++ hand) := by
  induction names generalizing hand with
  | nil => exact .pure fun reached => reached
  | cons name names ih =>
      rw [List.mapM_cons]
      refine (h name hand).bind fun node => ih.bind fun nodes => .pure fun reached => ?_
      exact reached.perm List.perm_middle.symm

theorem put_meets {item : Item} (name : String) (made : Item.Made ins item)
    (apart : ∀ node ∈ ins, item.owner? ≠ some node.id) :
    Meets start (Reached start (ins ++ hand)) (put name item) fun _ => Reached start hand :=
  .modify fun reached => reached.act (.put name made fun _ => apart)

theorem putNode_meets (name : String) (node : Node) :
    Meets start (Reached start (node :: hand)) (put name (.node node)) fun _ => Reached start hand :=
  put_meets name (.node node) fun _ _ same => by cases same

theorem putNode?_meets (name? : Option String) (node? : Option Node) :
    Meets start (Reached start (node?.toList ++ hand)) (putNode? name? node?)
      fun _ => Reached start hand := by
  match name?, node? with
  | some name, some node => exact putNode_meets name node
  | some _, none => exact .pure fun reached => reached
  | none, some _ => exact .pure fun reached => reached.drop
  | none, none => exact .pure fun reached => reached

end Handling

/-! ## Changing things in place -/

section Changing

variable {bench bench' : Workbench} {a : α} {hand ins : List Node}

theorem changeNode_cautious {path : Path} {change : Change Node α} :
    Cautious (changeNode path change) := by
  refine Cautious.bind (reads_item path.register).moves fun item => ?_
  refine Cautious.bind (ofExcept_moves _) fun changed => ?_
  intro bench reason bench' refused
  cases refused

/-- The node at the end of a path is exchanged for a new one. Other names stay as they are. -/
structure Workbench.Rewrites (path : Path) (old new : Node) (bench bench' : Workbench) : Prop where
  found : bench.nodeAt? path = some old
  left : bench'.nodeAt? path = some new
  placed : ∃ item item', bench.items.get? path.register = some item ∧
    Item.Rewrites old new item item' ∧ bench' = bench.place path.register item'

/-- The list at the end of a path is exchanged for a new one. Parameters are not reached so. -/
inductive Workbench.RewritesList (bench : Workbench) :
    ListPath → ChildList Node → ChildList Node → Workbench → Prop where
  | register {name : String} {kind : Kind} {old : ChildList Node} (new : ChildList Node)
      (found : bench.items.get? name = some (.list kind old)) :
      RewritesList bench (.register name) old new (bench.place name (.list kind new))
  | branch {path : Path} {role : Role} {node : Node} {old new : ChildList Node} {bench' : Workbench}
      (role_ne : role ≠ .parameters) (found : node.list? role = some old)
      (inner : Rewrites path node (node.setList role new) bench bench') :
      RewritesList bench (.branch path role) old new bench'

theorem Workbench.Rewrites.act {path : Path} {old new : Node} {rules : Rules} {outs : List Node}
    (h : Rewrites path old new bench bench') (change : NodeChange ins outs old new) :
    Act rules ⟨ins ++ hand, bench⟩ ⟨outs ++ hand, bench'⟩ := by
  obtain ⟨item, item', found, inner, rfl⟩ := h.placed
  exact .swap found (.node change inner)

theorem Workbench.Rewrites.others {path : Path} {old new : Node}
    (h : Rewrites path old new bench bench') (name : String) (other : name ≠ path.register) :
    bench'.items.get? name = bench.items.get? name := by
  obtain ⟨item, item', -, -, rfl⟩ := h.placed
  exact Table.get?_insert_ne _ other _

theorem Workbench.RewritesList.act {path : ListPath} {old new : ChildList Node} {rules : Rules}
    {outs : List Node} (h : RewritesList bench path old new bench')
    (change : ListChange ins outs old new) :
    Act rules ⟨ins ++ hand, bench⟩ ⟨outs ++ hand, bench'⟩ := by
  cases h with
  | @register name kind _ _ found => exact .swap found (.list kind change)
  | branch role_ne found inner => exact inner.act (.list role_ne found change)

theorem Workbench.RewritesList.others {path : ListPath} {old new : ChildList Node}
    (h : RewritesList bench path old new bench') (name : String) (other : name ≠ path.root) :
    bench'.items.get? name = bench.items.get? name := by
  cases h with
  | register new found => exact Table.get?_insert_ne _ other _
  | branch role_ne found inner => exact inner.others name other

theorem returned_changeNode {path : Path} {change : Change Node α}
    (h : Returns (changeNode path change) bench a bench') :
    ∃ item item', bench.items.get? path.register = some item ∧
      Item.changeAt change path.segments item = .ok (a, item') ∧
        bench' = bench.place path.register item' := by
  obtain ⟨item, bench₁, hitem, h⟩ := returns_bind.mp h
  obtain ⟨⟨result, item'⟩, bench₂, hchange, h⟩ := returns_bind.mp h
  obtain ⟨_, bench₃, hput, h⟩ := returns_bind.mp h
  obtain ⟨rfl, rfl⟩ := returns_pure.mp h
  obtain ⟨rfl, changed⟩ := returned_ofExcept hchange
  obtain ⟨rfl, found⟩ := (reads_item path.register).returned hitem
  obtain ⟨-, rfl⟩ := Prod.mk.inj hput
  exact ⟨item, item', found, changed, rfl⟩

theorem exists_of_changeNode {path : Path} {change : Change Node α}
    (h : Returns (changeNode path change) bench a bench') :
    ∃ old new, change old = .ok (a, new) ∧ Rewrites path old new bench bench' := by
  obtain ⟨item, item', found, changed, rfl⟩ := returned_changeNode h
  obtain ⟨old, new, hold, hnew, changed, inner⟩ := Item.exists_of_changeAt changed
  refine ⟨old, new, changed, ?_, ?_, item, item', found, inner, rfl⟩
  · rw [nodeAt?, found]
    exact hold
  · simp only [nodeAt?, place, Table.get?_insert_self, Option.bind_some, hnew]

/-- Beside what it is asked for, a change may hand back nodes that it had no place for. -/
theorem changeNode_meets (ins : List Node) (outs : α → List Node) {path : Path}
    {change : Change Node α}
    (h : ∀ {old a new}, old.Numbered → change old = .ok (a, new) →
      ∃ back, NodeChange ins (back ++ outs a) old new) :
    Meets start (Reached start (ins ++ hand)) (changeNode path change)
      fun a => Reached start (outs a ++ hand) := by
  refine .of_cautious changeNode_cautious Reached.empty_handed fun reached returned => ?_
  obtain ⟨old, new, changed, rewrites⟩ := exists_of_changeNode returned
  obtain ⟨back, change⟩ := h (reached.numbered_of_mem (mem_nodes_of_nodeAt? rewrites.found)) changed
  have after := reached.act (rewrites.act change)
  rw [List.append_assoc] at after
  exact after.drop

theorem modifyNode_meets {path : Path} {f : Node → Node} (h : ∀ node, NodeChange [] [] node (f node)) :
    Meets start (Reached start hand) (modifyNode path f) fun _ => Reached start hand := by
  refine changeNode_meets [] (fun _ => []) fun {old _ _} _ changed => ⟨[], ?_⟩
  obtain ⟨-, rfl⟩ := Prod.mk.inj (Except.ok.inj changed)
  exact h old

theorem changeList_cautious {path : ListPath} {change : Change (ChildList Node) α} :
    Cautious (changeList path change) := by
  cases path with
  | register name =>
      refine Cautious.bind (reads_item name).moves fun item => ?_
      cases item with
      | list kind members =>
          refine Cautious.bind (ofExcept_moves _) fun changed => ?_
          intro bench reason bench' refused
          cases refused
      | node node => exact Cautious.of_moves (moves_throw _)
      | slot kind place => exact Cautious.of_moves (moves_throw _)
      | store store => exact Cautious.of_moves (moves_throw _)
  | branch path role =>
      exact Cautious.bind (requireThat_moves _) fun _ => changeNode_cautious

theorem exists_of_changeList {path : ListPath} {change : Change (ChildList Node) α}
    (h : Returns (changeList path change) bench a bench') :
    ∃ kind old new, bench.listAt? path = some (kind, old) ∧ change old = .ok (a, new) ∧
      RewritesList bench path old new bench' := by
  cases path with
  | register name =>
      obtain ⟨item, bench₁, hitem, h⟩ := returns_bind.mp h
      obtain ⟨rfl, found⟩ := (reads_item name).returned hitem
      match item with
      | .list kind members =>
          obtain ⟨⟨result, members'⟩, bench₂, hchange, h⟩ := returns_bind.mp h
          obtain ⟨_, bench₃, hput, h⟩ := returns_bind.mp h
          obtain ⟨rfl, rfl⟩ := returns_pure.mp h
          obtain ⟨rfl, changed⟩ := returned_ofExcept hchange
          obtain ⟨-, rfl⟩ := Prod.mk.inj hput
          refine ⟨kind, members, members', ?_, changed, .register members' found⟩
          simp only [listAt?, found, Option.bind_some]
      | .node _ => exact absurd h not_returns_throw
      | .slot _ _ => exact absurd h not_returns_throw
      | .store _ => exact absurd h not_returns_throw
  | branch path role =>
      obtain ⟨_, bench₁, hrole, hchange⟩ := returns_bind.mp h
      obtain ⟨rfl, role_ne⟩ := returned_requireThat hrole
      obtain ⟨node, node', changed, rewrites⟩ := exists_of_changeNode hchange
      cases hlist : node.list? role with
      | none => simp [hlist] at changed
      | some list =>
          simp only [hlist] at changed
          obtain ⟨⟨result, list'⟩, hlist', changed⟩ := except_bind_eq_ok.mp changed
          obtain ⟨rfl, rfl⟩ := Prod.mk.inj (Except.ok.inj changed)
          refine ⟨role.kind, list, list', ?_, hlist', ?_⟩
          · simp only [listAt?, rewrites.found, Option.bind_some, hlist, Option.map_some]
          · exact .branch (of_decide_eq_true role_ne) hlist rewrites

theorem changeList_meets (ins : List Node) (outs : α → List Node) {path : ListPath}
    {change : Change (ChildList Node) α}
    (h : ∀ {old a new}, change old = .ok (a, new) → ∃ back, ListChange ins (back ++ outs a) old new) :
    Meets start (Reached start (ins ++ hand)) (changeList path change)
      fun a => Reached start (outs a ++ hand) := by
  refine .of_cautious changeList_cautious Reached.empty_handed fun reached returned => ?_
  obtain ⟨kind, old, new, -, changed, rewrites⟩ := exists_of_changeList returned
  obtain ⟨back, change⟩ := h changed
  have after := reached.act (rewrites.act change)
  rw [List.append_assoc] at after
  exact after.drop

end Changing

/-! ## Building and copying -/

section Making

variable {hand : List Node}

theorem exists_of_building {run : BuildM α} {bench bench' : Workbench} {a : α}
    (h : Returns (building run) bench a bench') :
    ∃ world, Returns run bench.world a world ∧ bench' = bench.withWorld world := by
  obtain ⟨result, bench₁, hrun, hresult⟩ := returns_bind.mp h
  obtain ⟨rfl, rfl⟩ := returned_ofTree hresult
  obtain ⟨ok, rfl⟩ := Prod.mk.inj hrun
  exact ⟨(outcome run bench.world).2, Prod.ext (Except.ok.inj ok) rfl, rfl⟩

theorem building_meets {run : BuildM α} {made : α → List Node} (h : Builds [] run made)
    (allowed : start.rules.binding) :
    Meets start (Reached start hand) (building run) fun a => Reached start (made a ++ hand) where
  returned reached returned := by
    obtain ⟨world, built, rfl⟩ := exists_of_building returned
    exact reached.built allowed (h.returned built)
  refused {bench _ _} reached refused := by
    rcases refuses_bind.mp refused with refused | ⟨result, bench₁, hrun, hresult⟩
    · cases refused
    · obtain ⟨ok, rfl⟩ := Prod.mk.inj hrun
      obtain ⟨failed, rfl⟩ := Prod.mk.inj hresult
      cases result with
      | ok a => cases failed
      | error error =>
          have built : Refuses run bench.world error (outcome run bench.world).2 :=
            Prod.ext (Except.ok.inj ok) rfl
          exact (reached.built allowed (h.refused built)).empty_handed

theorem copying_moves {run : AllocM α} (h : Moves Supply.Forward run) :
    Moves Untouched (copying run) :=
  moves_bind (allocating_moves h) fun result => ofTree_moves result

theorem exists_of_copying {run : AllocM α} {bench bench' : Workbench} {a : α}
    (h : Returns (copying run) bench a bench') :
    ∃ supply, Returns run bench.world.supply a supply ∧
      bench' = { bench with world := { bench.world with supply } } := by
  obtain ⟨result, bench₁, hrun, hresult⟩ := returns_bind.mp h
  obtain ⟨rfl, rfl⟩ := returned_ofTree hresult
  obtain ⟨ok, rfl⟩ := Prod.mk.inj hrun
  exact ⟨(outcome run bench.world.supply).2, Prod.ext (Except.ok.inj ok) rfl, rfl⟩

theorem copyNode_meets {node : Node} (allowed : start.rules.copying) :
    Meets start (fun bench => Reached start hand bench ∧ node ∈ bench.nodes) (copying node.copy)
      fun copy => Reached start (copy :: hand) := by
  refine .of_cautious (Cautious.of_moves (copying_moves node.copy_moves))
    (fun ⟨reached, _⟩ => reached.empty_handed) fun {_ copy _} ⟨reached, there⟩ returned => ?_
  obtain ⟨supply, copied, rfl⟩ := exists_of_copying returned
  have threads : Threads Node.copy [node] _ [copy] supply := .cons copied (.nil _)
  refine reached.act (.copy allowed (fun part hpart => ?_) threads)
  rw [List.mem_singleton.mp hpart]
  exact there

/-- A collection is copied for an owner. If the identity of the owner has been given out, the copies
of the members have later ones, so none of them is its own owner. -/
theorem copyFor_meets {run : AllocM α} {owner : NodeId} {parts : List Node} {target : String}
    {thing : α → Item} (allowed : start.rules.copying) (moves : Moves Supply.Forward run)
    (spec : ∀ {s a s'}, Returns run s a s' → ∃ copies, Threads Node.copy parts s copies s' ∧
      Item.Made copies (thing a) ∧ (thing a).owner? = some owner) :
    Meets start
      (fun bench => Reached start [] bench ∧
        (start.rules.orderly → owner.number < bench.world.supply.nextNode) ∧ parts ⊆ bench.nodes)
      (copying run) fun a bench => Reached start [] (bench.place target (thing a)) := by
  refine .of_cautious (Cautious.of_moves (copying_moves moves)) And.left
    fun {bench _ _} ⟨reached, allocated, there⟩ returned => ?_
  obtain ⟨supply, copied, rfl⟩ := exists_of_copying returned
  obtain ⟨copies, threads, made, howner⟩ := spec copied
  have inHand : Reached start (copies ++ []) (bench.withWorld { bench.world with supply }) :=
    reached.act (.copy allowed there threads)
  refine inHand.act (.put target made fun orderly copy hcopy same => ?_)
  have issues := issues_of_threads (fun part _ {_ _ _} => issues_of_copy) threads
  have own : copy.id ∈ copies.flatMap Node.ids :=
    List.mem_flatMap.mpr ⟨copy, hcopy, id_mem_ids copy.self_mem_nodes⟩
  have late := (issues.bounds own).1
  rw [howner] at same
  rw [← Option.some.inj same] at late
  exact absurd (allocated orderly) (Nat.not_lt.mpr late)

end Making

end DeclTree
