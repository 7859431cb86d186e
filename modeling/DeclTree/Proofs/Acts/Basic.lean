import DeclTree.Proofs.Acts.Changes
import DeclTree.Proofs.Copy
import Mathlib.Data.List.Perm.Subperm
import Mathlib.Logic.Relation

/-!
# Acts

Whatever a step or a plan does to the workbench is a sequence of acts: nodes are made, taken up,
changed and put down, identities are given out, and what resolvers know changes. Between two acts
some nodes are in hand. An invariant of the workbench only has to be checked for each kind of act.

Reading symbols is no act. A step that reads changes nothing but the symbols kept.
-/

namespace DeclTree

open Node

/-- What is on the workbench, and the nodes that have been taken up or made and not put down yet. -/
structure Stage where
  hand : List Node
  bench : Workbench

namespace Stage

def trees (stage : Stage) : List Node := stage.hand ++ stage.bench.items.trees

/-- The number of the next identity. -/
def next (stage : Stage) : Nat := stage.bench.world.supply.nextNode

end Stage

/-- What resolvers and the handle source know changes, and nobody is asked. -/
inductive ResolverChange : Resolution → Resolution → Prop where
  | handle (state : Resolution) (plan : HandlePlan) : ResolverChange state (plan.realize state).2
  | declare (state : Resolution) (id : ResolverId) : ResolverChange state (state.declare id)
  | register (state : Resolution) (id : ResolverId) (construct : SyntaxId) (symbol : Symbol) :
      ResolverChange state (state.modifyRegistry id (·.register construct symbol))
  | unregister (state : Resolution) (id : ResolverId) (construct : SyntaxId) :
      ResolverChange state (state.modifyRegistry id (·.unregister construct))
  | failNext (state : Resolution) (name : String) (count : Nat) :
      ResolverChange state (state.failNext name count)
  | skipLines (state : Resolution) (count : Nat) :
      ResolverChange state { state with source := state.source.skipLines count }

/-- The position that a body records. -/
def Body.ordinal : Body → Nat
  | .parameter data => data.ordinal
  | _ => 0

/-- Symbols say nothing about positions. -/
theorem Body.ordinal_seed (body : Body) (symbol : Symbol) :
    (body.seed symbol).ordinal = body.ordinal := by
  cases body <;> rfl

/-- A probe with what it holds. -/
def Node.holding (node : Node) (attributes : Option (List Node)) (type : Option (Option Node)) :
    Node :=
  { node with branches := (attributes.map Branch.heldAttributes).toList ++
      (type.map Branch.heldType).toList }

def Workbench.withWorld (bench : Workbench) (world : World) : Workbench := { bench with world }

/-- What acts have to observe. -/
structure Rules where
  /-- Whether no node is put down where it would be its own owner. -/
  orderly : Prop
  /-- Whether nodes may be bound. -/
  binding : Prop
  /-- Whether nodes may be copied. -/
  copying : Prop

inductive Act (rules : Rules) : Stage → Stage → Prop where
  /-- Nodes in hand are sorted, and some are dropped. -/
  | release {hand hand' : List Node} {bench : Workbench} (less : hand'.Subperm hand) :
      Act rules ⟨hand, bench⟩ ⟨hand', bench⟩
  | forward {hand : List Node} {bench : Workbench} {supply : Supply}
      (more : bench.world.supply.Forward supply) :
      Act rules ⟨hand, bench⟩ ⟨hand, bench.withWorld { bench.world with supply }⟩
  | resolvers {hand : List Node} {bench : Workbench} {resolution : Resolution}
      (change : ResolverChange bench.world.resolution resolution) :
      Act rules ⟨hand, bench⟩ ⟨hand, bench.withWorld { bench.world with resolution }⟩
  | create {hand : List Node} {bench : Workbench} {body : Body} {name : String} {node : Node}
      {world : World} (unplaced : body.ordinal = 0)
      (made : World.allocating (Node.create body name) bench.world = (node, world)) :
      Act rules ⟨hand, bench⟩ ⟨node :: hand, bench.withWorld world⟩
  | bind {hand : List Node} {bench : Workbench} {body : Body} {handle : Handle}
      {resolver : ResolverId} {node : Node} {world : World} (allowed : rules.binding)
      (unplaced : body.ordinal = 0)
      (made : Node.bind body handle resolver bench.world = (node, world)) :
      Act rules ⟨hand, bench⟩ ⟨node :: hand, bench.withWorld world⟩
  | copy {hand parts copies : List Node} {bench : Workbench} {supply : Supply}
      (allowed : rules.copying) (there : parts ⊆ bench.nodes)
      (copied : Threads Node.copy parts bench.world.supply copies supply) :
      Act rules ⟨hand, bench⟩ ⟨copies ++ hand, bench.withWorld { bench.world with supply }⟩
  | take {hand : List Node} {bench : Workbench} {name : String} {root : Node}
      (found : bench.items.get? name = some (.node root)) :
      Act rules ⟨hand, bench⟩ ⟨root :: hand, { bench with items := bench.items.erase name }⟩
  | put {ins hand : List Node} {bench : Workbench} {item : Item} (name : String)
      (made : Item.Made ins item)
      (apart : rules.orderly → ∀ node ∈ ins, item.owner? ≠ some node.id) :
      Act rules ⟨ins ++ hand, bench⟩ ⟨hand, bench.place name item⟩
  | swap {ins outs hand : List Node} {bench : Workbench} {name : String} {item item' : Item}
      (found : bench.items.get? name = some item) (change : ItemChange ins outs item item') :
      Act rules ⟨ins ++ hand, bench⟩ ⟨outs ++ hand, bench.place name item'⟩
  | erase {hand : List Node} {bench : Workbench} (name : String) :
      Act rules ⟨hand, bench⟩ ⟨hand, { bench with items := bench.items.erase name }⟩
  /-- A node in hand changes. -/
  | change {ins outs hand : List Node} {bench : Workbench} {node node' : Node}
      (change : NodeChange ins outs node node') :
      Act rules ⟨ins ++ node :: hand, bench⟩ ⟨outs ++ node' :: hand, bench⟩
  /-- A new node gets another body. -/
  | setBody {hand : List Node} {bench : Workbench} {node : Node} {body : Body}
      (unplaced : body.ordinal = 0) :
      Act rules ⟨node :: hand, bench⟩ ⟨node.setBody body :: hand, bench⟩
  /-- A probe is given what it holds. -/
  | hold {hand : List Node} {bench : Workbench} {node : Node} (attributes : Option (List Node))
      (type : Option (Option Node)) :
      Act rules ⟨type.join.toList ++ (attributes.getD [] ++ node :: hand), bench⟩
        ⟨node.holding attributes type :: hand, bench⟩

abbrev Acts (rules : Rules) : Stage → Stage → Prop := Relation.ReflTransGen (Act rules)

section Rules

variable {rules rules' : Rules} {stage stage' : Stage}

/-- Acts that observe rules observe weaker ones. -/
theorem Act.mono (h : Act rules stage stage') (orderly : rules'.orderly → rules.orderly)
    (binding : rules.binding → rules'.binding) (copying : rules.copying → rules'.copying) :
    Act rules' stage stage' := by
  cases h with
  | release less => exact .release less
  | forward more => exact .forward more
  | resolvers change => exact .resolvers change
  | create unplaced made => exact .create unplaced made
  | bind allowed unplaced made => exact .bind (binding allowed) unplaced made
  | copy allowed there copied => exact .copy (copying allowed) there copied
  | take found => exact .take found
  | put name made apart => exact .put name made fun holds => apart (orderly holds)
  | swap found change => exact .swap found change
  | erase name => exact .erase name
  | change change => exact .change change
  | setBody unplaced => exact .setBody unplaced
  | hold attributes type => exact .hold attributes type

theorem Acts.mono (h : Acts rules stage stage') (orderly : rules'.orderly → rules.orderly)
    (binding : rules.binding → rules'.binding) (copying : rules.copying → rules'.copying) :
    Acts rules' stage stage' := by
  induction h with
  | refl => exact .refl
  | tail _ act ih => exact ih.tail (act.mono orderly binding copying)

end Rules

/-! ## New nodes -/

/-- The header of a node that is being bound, before it has a name. -/
def Header.unnamed (handle : Handle) (resolver : ResolverId) (world : World) : Header :=
  { id := ⟨world.supply.nextNode⟩, name := "", handle, resolver := some resolver }

/-- A node is bound by one read of its symbol. -/
theorem Header.bind_eq (handle : Handle) (resolver : ResolverId) (world : World) :
    Header.bind handle resolver world =
      ({ unnamed handle resolver world with
          name := (((unnamed handle resolver world).symbol? world.resolution).1.map
            Symbol.name).getD "" },
        { supply := { world.supply with nextNode := world.supply.nextNode + 1 }
          resolution := ((unnamed handle resolver world).symbol? world.resolution).2 }) := by
  unfold Header.bind
  simp only [Bind.bind, StateT.bind, World.allocating, World.resolving, Supply.freshNode, modifyGet,
    MonadStateOf.modifyGet, StateT.modifyGet, Pure.pure, unnamed]
  generalize Header.symbol? _ world.resolution = asked
  rcases asked with ⟨_ | symbol, resolution⟩
  · rfl
  · rfl

theorem Node.parts_ofHeader (header : Header) (body : Body) : (ofHeader header body).parts = [] := by
  unfold parts ofHeader
  cases body.kind <;> rfl

theorem Node.parts_holding (node : Node) (attributes : Option (List Node))
    (type : Option (Option Node)) :
    (node.holding attributes type).parts = attributes.getD [] ++ type.join.toList := by
  unfold parts holding
  rcases attributes with _ | attributes <;> rcases type with _ | _ | type <;> simp [Branch.items]

/-- A node of any kind with a new identity, no owner and nothing on its branches. -/
structure Node.IsNew (world : World) (node : Node) (world' : World) : Prop where
  empty : node = ofHeader node.header node.body
  id : node.id = ⟨world.supply.nextNode⟩
  parent : node.parent = none
  next : world'.supply.nextNode = world.supply.nextNode + 1

theorem Node.IsNew.eq_of_mem_nodes {world world' : World} {node other : Node}
    (h : node.IsNew world world') (there : other ∈ node.nodes) : other = node := by
  rcases mem_nodes.mp there with same | ⟨part, hpart, -⟩
  · exact same
  · rw [h.empty, parts_ofHeader] at hpart
    cases hpart

theorem Node.IsNew.forward {world world' : World} {node : Node} (h : node.IsNew world world') :
    world.supply.nextNode ≤ world'.supply.nextNode := by
  have next := h.next
  omega

theorem Node.forward_of_threads {parts copies : List Node} {s s' : Supply}
    (h : Threads Node.copy parts s copies s') : s.Forward s' := by
  have next := (issues_of_threads (fun part _ {_ _ _} => issues_of_copy) h).nextNode
  unfold Supply.Forward
  omega

theorem Node.isNew_create {body : Body} {name : String} {world world' : World} {node : Node}
    (h : World.allocating (create body name) world = (node, world')) : node.IsNew world world' := by
  cases h
  exact ⟨rfl, rfl, rfl, rfl⟩

theorem Node.exists_of_bind {body : Body} {handle : Handle} {resolver : ResolverId}
    {world world' : World} {node : Node} (h : Node.bind body handle resolver world = (node, world')) :
    ∃ name body', body'.ordinal = body.ordinal ∧
      node = ofHeader { Header.unnamed handle resolver world with name } body' ∧
      world' =
        { supply := { world.supply with nextNode := world.supply.nextNode + 1 }
          resolution := ((Header.unnamed handle resolver world).symbol? world.resolution).2 } := by
  unfold Node.bind at h
  simp only [Bind.bind, StateT.bind, Header.bind_eq, World.readResolution] at h
  generalize Header.cached? _ _ = kept at h
  cases kept with
  | none =>
      obtain ⟨rfl, rfl⟩ := Prod.mk.inj h
      exact ⟨_, body, rfl, rfl, rfl⟩
  | some symbol =>
      obtain ⟨rfl, rfl⟩ := Prod.mk.inj h
      exact ⟨_, body.seed symbol, body.ordinal_seed symbol, rfl, rfl⟩

theorem Node.isNew_bind {body : Body} {handle : Handle} {resolver : ResolverId}
    {world world' : World} {node : Node} (h : Node.bind body handle resolver world = (node, world')) :
    node.IsNew world world' := by
  obtain ⟨name, body', -, rfl, rfl⟩ := exists_of_bind h
  exact ⟨rfl, rfl, rfl, rfl⟩

/-! ## Properties of single nodes -/

/-- A later header of the same node. -/
structure Header.Follows (old new : Header) : Prop where
  id : new.id = old.id
  handle : new.handle = old.handle
  resolver : old.resolver.isSome → new.resolver.isSome

theorem Header.Follows.refl (header : Header) : header.Follows header := ⟨rfl, rfl, fun h => h⟩

theorem Header.Follows.trans {first second third : Header} (h : first.Follows second)
    (h' : second.Follows third) : first.Follows third :=
  ⟨h'.id.trans h.id, h'.handle.trans h.handle, fun some => h'.resolver (h.resolver some)⟩

/-- A property of nodes that is not lost when a member of a list changes and keeps its ordinal. -/
def KeptByMembers (Q : Node → Prop) : Prop :=
  ∀ {node member member' : Node} {role : Role} {owner : NodeId} {left right : List Node},
    node.list? role = some ⟨owner, left ++ member :: right⟩ → member'.ordinal? = member.ordinal? →
    Q node → Q (node.setList role ⟨owner, left ++ member' :: right⟩)

/-- A property of nodes that no act destroys, as long as new identities are not below `next`. -/
structure Stable (next : Nat) (Q : Node → Prop) : Prop where
  header : ∀ {node : Node} {header : Header}, node.header.Follows header → Q node →
    Q { node with header }
  body : ∀ {node : Node} (body : Body), Q node → Q (node.setBody body)
  list : ∀ {node : Node} {role : Role} (list : ChildList Node), role ≠ .parameters → Q node →
    Q (node.setList role list)
  slot : ∀ {node : Node} (slot : ChildSlot Node), Q node → Q (node.setSlot slot)
  parameters : ∀ {node : Node} {ins outs : List Node} {list list' : ChildList Node},
    node.list? .parameters = some list → (∀ node ∈ ins, node.kind = .parameter) →
    ListChange ins outs list list' → Q node → Q (node.setList .parameters (renumber list'))
  member : KeptByMembers Q
  hold : ∀ {node : Node} (attributes : Option (List Node)) (type : Option (Option Node)), Q node →
    Q (node.holding attributes type)
  fresh : ∀ (header : Header) (body : Body), next ≤ header.id.number → Q (ofHeader header body)
  copy : ∀ {node copied : Node}, CopyOf node copied → next ≤ copied.id.number → Q node → Q copied

namespace Node

/-- All nodes of a tree have the property. -/
def All (Q : Node → Prop) (tree : Node) : Prop := ∀ node ∈ tree.nodes, Q node

variable {Q : Node → Prop} {next : Nat} {node node' : Node} {ins outs : List Node}

theorem all_iff : node.All Q ↔ Q node ∧ ∀ part ∈ node.parts, part.All Q := by
  constructor
  · intro h
    refine ⟨h node node.self_mem_nodes, fun part hpart other hother => ?_⟩
    exact h other (mem_nodes_of_mem_parts hpart hother)
  · intro h other hother
    cases mem_nodes.mp hother with
    | inl root => exact root ▸ h.1
    | inr inner =>
        obtain ⟨part, hpart, hother⟩ := inner
        exact h.2 part hpart other hother

/-- The root of a tree changes and the branches stay as they are. -/
theorem All.root (h : node.All Q) (branches : node'.branches = node.branches)
    (root : Q node → Q node') : node'.All Q := by
  obtain ⟨own, below⟩ := all_iff.mp h
  refine all_iff.mpr ⟨root own, ?_⟩
  rw [parts, branches]
  exact below

theorem All.header (h : node.All Q) (stable : Stable next Q) {header : Header}
    (follows : node.header.Follows header) : ({ node with header } : Node).All Q :=
  h.root rfl (stable.header follows)

theorem All.withParent (h : node.All Q) (stable : Stable next Q) (parent : Option NodeId) :
    (node.withParent parent).All Q :=
  h.header stable ⟨rfl, rfl, fun h => h⟩

theorem All.setBody (h : node.All Q) (stable : Stable next Q) (body : Body) :
    (node.setBody body).All Q :=
  h.root rfl (stable.body body)

theorem All.withOrdinal (h : node.All Q) (stable : Stable next Q) (ordinal : Nat) :
    (node.withOrdinal ordinal).All Q := by
  obtain ⟨body, same, -⟩ := exists_setBody_withOrdinal ordinal node
  rw [same]
  exact h.setBody stable body

theorem mem_parts_setList {role : Role} {list : ChildList Node} {part : Node}
    (h : part ∈ (node.setList role list).parts) : part ∈ list.items ∨ part ∈ node.parts := by
  rw [parts, setList_branches] at h
  obtain ⟨branch, hbranch, hpart⟩ := List.mem_flatMap.mp h
  obtain ⟨old, hold, rfl⟩ := List.mem_map.mp hbranch
  by_cases place : old.place = .list role
  · rw [if_pos place] at hpart
    exact .inl hpart
  · rw [if_neg place] at hpart
    exact .inr (mem_parts_of_mem_branch hold hpart)

theorem mem_parts_setSlot {slot : ChildSlot Node} {part : Node}
    (h : part ∈ (node.setSlot slot).parts) : part ∈ slot.item.toList ∨ part ∈ node.parts := by
  rw [parts, setSlot_branches] at h
  obtain ⟨branch, hbranch, hpart⟩ := List.mem_flatMap.mp h
  obtain ⟨old, hold, rfl⟩ := List.mem_map.mp hbranch
  by_cases place : old.place = .slot
  · rw [if_pos place] at hpart
    exact .inl hpart
  · rw [if_neg place] at hpart
    exact .inr (mem_parts_of_mem_branch hold hpart)

theorem All.setList (h : node.All Q) {role : Role} {list : ChildList Node}
    (root : Q node → Q (node.setList role list)) (items : ∀ item ∈ list.items, item.All Q) :
    (node.setList role list).All Q := by
  obtain ⟨own, below⟩ := all_iff.mp h
  refine all_iff.mpr ⟨root own, fun part hpart => ?_⟩
  cases mem_parts_setList hpart with
  | inl new => exact items part new
  | inr old => exact below part old

end Node

/-! ## Changes keep what is stable -/

section Changes

variable {Q : Node → Prop} {next : Nat} {ins outs : List Node}

/-- Nodes that go into a list or leave it, or are renamed there, differ only in name and parent. -/
theorem ListChange.forall_mem {P : Node → Prop} {list list' : ChildList Node}
    (h : ListChange ins outs list list')
    (parent : ∀ node parent, P node → P (node.withParent parent))
    (name : ∀ node name, P node → P (node.withName name))
    (before : ∀ node ∈ ins ++ list.items, P node) :
    ∀ node ∈ outs ++ list'.items, P node := by
  cases h with
  | keep => exact before
  | append insertable =>
      intro node hnode
      simp only [List.nil_append, List.mem_append, List.mem_map] at hnode
      rcases hnode with hnode | ⟨given, hgiven, rfl⟩
      · exact before node (List.mem_append_right _ hnode)
      · exact parent given _ (before given (List.mem_append_left _ hgiven))
  | extract taken =>
      intro node hnode
      simp only [List.mem_append, List.mem_singleton] at hnode
      rcases hnode with rfl | hnode | hnode
      · exact parent taken none (before taken (by simp))
      · exact before node (by simp [hnode])
      · exact before node (by simp [hnode])
  | rename renamed newName =>
      intro node hnode
      simp only [List.nil_append, List.mem_append, List.mem_cons] at hnode
      rcases hnode with hnode | rfl | hnode
      · exact before node (by simp [hnode])
      · exact name renamed newName (before renamed (by simp))
      · exact before node (by simp [hnode])

theorem ListChange.all {list list' : ChildList Node} (h : ListChange ins outs list list')
    (stable : Stable next Q) (before : ∀ tree ∈ ins ++ list.items, tree.All Q) :
    ∀ tree ∈ outs ++ list'.items, tree.All Q :=
  h.forall_mem (fun _ parent all => all.withParent stable parent)
    (fun _ _ all => all.header stable ⟨rfl, rfl, fun h => h⟩) before

theorem SlotChange.all {slot slot' : ChildSlot Node} (h : SlotChange ins outs slot slot')
    (stable : Stable next Q) (before : ∀ tree ∈ ins ++ slot.item.toList, tree.All Q) :
    ∀ tree ∈ outs ++ slot'.item.toList, tree.All Q := by
  have taken : ∀ tree ∈ (slot.item.map (Node.withParent none)).toList, tree.All Q := by
    intro tree htree
    obtain ⟨node, hnode, rfl⟩ := Option.map_eq_some_iff.mp (Option.mem_toList.mp htree)
    have old : node ∈ slot.item.toList := Option.mem_toList.mpr hnode
    exact (before node (List.mem_append_right _ old)).withParent stable none
  cases h with
  | keep => exact before
  | fill insertable =>
      intro tree htree
      rcases List.mem_append.mp htree with htree | htree
      · exact taken tree htree
      · rw [List.mem_singleton.mp htree]
        exact (before _ (by simp)).withParent stable _
  | clear =>
      intro tree htree
      rw [Option.toList_none, List.append_nil] at htree
      exact taken tree htree

theorem NodeChange.ordinal? {node node' : Node} (h : NodeChange ins outs node node') :
    node'.ordinal? = node.ordinal? := by
  cases h with
  | edit node edit =>
      obtain ⟨header, body, branches⟩ := node
      cases body <;> rfl
  | _ => rfl

theorem NodeChange.all {node node' : Node} (h : NodeChange ins outs node node')
    (stable : Stable next Q) (given : ∀ tree ∈ ins, tree.All Q) (root : node.All Q) :
    (∀ tree ∈ outs, tree.All Q) ∧ node'.All Q := by
  have none : ∀ tree ∈ ([] : List Node), tree.All Q := fun _ htree => by cases htree
  cases h with
  | keep => exact ⟨given, root⟩
  | label node name annotations => exact ⟨none, root.header stable ⟨rfl, rfl, fun h => h⟩⟩
  | inject node resolver => exact ⟨none, root.header stable ⟨rfl, rfl, fun _ => rfl⟩⟩
  | edit node edit => exact ⟨none, root.setBody stable _⟩
  | list role_ne found change =>
      have members := fun item hitem => (all_iff.mp root).2 item (mem_parts_of_list? found hitem)
      have after := change.all stable (List.forall_mem_append.mpr ⟨given, members⟩)
      obtain ⟨back, items⟩ := List.forall_mem_append.mp after
      exact ⟨back, root.setList (stable.list _ role_ne) items⟩
  | parameters found kinds change =>
      have members := fun item hitem => (all_iff.mp root).2 item (mem_parts_of_list? found hitem)
      have after := change.all stable (List.forall_mem_append.mpr ⟨given, members⟩)
      obtain ⟨back, items⟩ := List.forall_mem_append.mp after
      refine ⟨fun tree htree => ?_, root.setList (stable.parameters found kinds change) ?_⟩
      · obtain ⟨old, hold, rfl⟩ := List.mem_map.mp htree
        exact (back old hold).withOrdinal stable 0
      · intro item hitem
        obtain ⟨i, hi, rfl⟩ := List.mem_mapIdx.mp hitem
        exact (items _ (List.getElem_mem hi)).withOrdinal stable i
  | slot found change =>
      have occupant := fun item hitem => (all_iff.mp root).2 item
        (mem_parts_of_mem_branch (mem_branches_of_slot? found) hitem)
      have after := change.all stable (List.forall_mem_append.mpr ⟨given, occupant⟩)
      obtain ⟨back, items⟩ := List.forall_mem_append.mp after
      obtain ⟨own, below⟩ := all_iff.mp root
      refine ⟨back, all_iff.mpr ⟨stable.slot _ own, fun part hpart => ?_⟩⟩
      cases mem_parts_setSlot hpart with
      | inl new => exact items part new
      | inr old => exact below part old

namespace Node.Rewrites

variable {old new node node' : Node}

theorem mem_nodes (h : old.Rewrites new node node') : old ∈ node.nodes := by
  induction h with
  | here => exact old.self_mem_nodes
  | deeper found _ ih => exact mem_nodes_of_mem_parts (mem_parts_of_list? found (by simp)) ih

theorem ordinal? (h : old.Rewrites new node node') (same : new.ordinal? = old.ordinal?) :
    node'.ordinal? = node.ordinal? := by
  cases h with
  | here => exact same
  | deeper => rfl

theorem all (h : old.Rewrites new node node') (member : KeptByMembers Q)
    (same : new.ordinal? = old.ordinal?) (changed : new.All Q) (before : node.All Q) :
    node'.All Q := by
  induction h with
  | here => exact changed
  | deeper found inner ih =>
      have members := fun item hitem => (all_iff.mp before).2 item (mem_parts_of_list? found hitem)
      refine before.setList (member found (inner.ordinal? same)) fun item hitem => ?_
      simp only [List.mem_append, List.mem_cons] at hitem
      rcases hitem with hitem | rfl | hitem
      · exact members item (by simp [hitem])
      · exact ih (members _ (by simp))
      · exact members item (by simp [hitem])

end Node.Rewrites

namespace Item.Rewrites

variable {old new : Node} {item item' : Item}

theorem exists_tree (h : Item.Rewrites old new item item') : ∃ tree ∈ item.trees, old ∈ tree.nodes := by
  cases h with
  | root inner => exact ⟨_, List.mem_singleton.mpr rfl, inner.mem_nodes⟩
  | member kind inner => exact ⟨_, by simp [Item.trees], inner.mem_nodes⟩
  | occupant kind inner => exact ⟨_, List.mem_singleton.mpr rfl, inner.mem_nodes⟩

theorem all (h : Item.Rewrites old new item item') (member : KeptByMembers Q)
    (same : new.ordinal? = old.ordinal?) (changed : new.All Q)
    (before : ∀ tree ∈ item.trees, tree.All Q) : ∀ tree ∈ item'.trees, tree.All Q := by
  cases h with
  | root inner =>
      have root := before _ (List.mem_singleton.mpr rfl)
      exact List.forall_mem_singleton.mpr (inner.all member same changed root)
  | member kind inner =>
      intro tree htree
      simp only [Item.trees, List.mem_append, List.mem_cons] at htree
      rcases htree with htree | rfl | htree
      · exact before tree (by simp [Item.trees, htree])
      · exact inner.all member same changed (before _ (by simp [Item.trees]))
      · exact before tree (by simp [Item.trees, htree])
  | occupant kind inner =>
      have root := before _ (List.mem_singleton.mpr rfl)
      exact List.forall_mem_singleton.mpr (inner.all member same changed root)

end Item.Rewrites

theorem ItemChange.all {item item' : Item} (h : ItemChange ins outs item item')
    (stable : Stable next Q) (given : ∀ tree ∈ ins, tree.All Q)
    (before : ∀ tree ∈ item.trees, tree.All Q) :
    (∀ tree ∈ outs, tree.All Q) ∧ ∀ tree ∈ item'.trees, tree.All Q := by
  cases h with
  | @node old _ _ _ change inner =>
      obtain ⟨tree, htree, hold⟩ := inner.exists_tree
      have within : old.All Q := fun other hother =>
        before tree htree other ((nodes_sublist_nodes hold).subset hother)
      obtain ⟨back, changed⟩ := change.all stable given within
      exact ⟨back, inner.all stable.member change.ordinal? changed before⟩
  | list kind change =>
      have after := change.all stable (List.forall_mem_append.mpr ⟨given, before⟩)
      exact List.forall_mem_append.mp after
  | slot kind change =>
      have after := change.all stable (List.forall_mem_append.mpr ⟨given, before⟩)
      exact List.forall_mem_append.mp after

theorem Item.Made.all {item : Item} (h : Item.Made ins item) (stable : Stable next Q)
    (given : ∀ tree ∈ ins, tree.All Q) : ∀ tree ∈ item.trees, tree.All Q := by
  cases h with
  | node node => exact given
  | list nodes owner kind =>
      intro tree htree
      obtain ⟨node, hnode, rfl⟩ := List.mem_map.mp htree
      exact (given node hnode).withParent stable _
  | slot node? owner kind =>
      intro tree htree
      obtain ⟨node, hnode, rfl⟩ := Option.map_eq_some_iff.mp (Option.mem_toList.mp htree)
      exact (given node (Option.mem_toList.mpr hnode)).withParent stable _
  | store store =>
      intro tree htree
      cases htree

end Changes

/-! ## Acts keep what is stable -/

namespace Act

variable {rules : Rules} {stage stage' : Stage} {Q : Node → Prop} {next : Nat}

theorem next_le (h : Act rules stage stage') : stage.next ≤ stage'.next := by
  cases h with
  | forward more => exact more
  | create _ made => exact (isNew_create made).forward
  | bind _ _ made => exact (isNew_bind made).forward
  | copy _ there copied => exact forward_of_threads copied
  | _ => exact Nat.le_refl _

theorem all (h : Act rules stage stage') (stable : Stable next Q) (low : next ≤ stage.next)
    (before : ∀ tree ∈ stage.trees, tree.All Q) : ∀ tree ∈ stage'.trees, tree.All Q := by
  -- What is in hand and what is on the workbench are looked at apart.
  obtain ⟨hand, bench⟩ := List.forall_mem_append.mp before
  have placed : ∀ {name : String} {item : Item}, (∀ tree ∈ item.trees, tree.All Q) →
      ∀ tree ∈ (stage.bench.items.insert name item).trees, tree.All Q := by
    intro name item new tree htree
    cases Table.mem_trees_of_insert htree with
    | inl htree => exact new tree htree
    | inr htree => exact bench tree htree
  have isNew : ∀ {node : Node} {world : World}, node.IsNew stage.bench.world world → node.All Q := by
    intro node world isNew
    rw [isNew.empty]
    refine all_iff.mpr ⟨stable.fresh _ _ ?_, fun part hpart => ?_⟩
    · have id : node.header.id = ⟨stage.next⟩ := isNew.id
      rw [id]
      exact low
    · rw [parts_ofHeader] at hpart
      cases hpart
  refine List.forall_mem_append.mpr ?_
  cases h with
  | release less => exact ⟨fun tree htree => hand tree (less.subset htree), bench⟩
  | forward more => exact ⟨hand, bench⟩
  | resolvers change => exact ⟨hand, bench⟩
  | create _ made => exact ⟨List.forall_mem_cons.mpr ⟨isNew (isNew_create made), hand⟩, bench⟩
  | bind _ _ made => exact ⟨List.forall_mem_cons.mpr ⟨isNew (isNew_bind made), hand⟩, bench⟩
  | copy _ there copied =>
      refine ⟨List.forall_mem_append.mpr ⟨fun copy hcopy made hmade => ?_, hand⟩, bench⟩
      have issues := issues_of_threads (fun part _ {_ _ _} => issues_of_copy) copied
      have late := (issues.bounds (List.mem_flatMap.mpr ⟨copy, hcopy, id_mem_ids hmade⟩)).1
      obtain ⟨part, hpart, _, _, returned⟩ := exists_of_forall₂ copied.forall₂ hcopy
      obtain ⟨node, hnode, copyOf⟩ := exists_of_forall₂ (CopyOf.of_returns returned).nodes hmade
      obtain ⟨tree, htree, hpart⟩ := List.mem_flatMap.mp (there hpart)
      refine stable.copy copyOf (Nat.le_trans low late) (bench tree htree node ?_)
      exact (nodes_sublist_nodes hpart).subset hnode
  | take found =>
      refine ⟨List.forall_mem_cons.mpr ⟨bench _ ?_, hand⟩, fun tree htree => ?_⟩
      · exact Table.mem_trees_of_get? found (List.mem_singleton.mpr rfl)
      · exact bench tree (Table.mem_trees_of_erase htree)
  | put name made _ =>
      obtain ⟨given, hand⟩ := List.forall_mem_append.mp hand
      exact ⟨hand, placed (made.all stable given)⟩
  | swap found change =>
      obtain ⟨given, hand⟩ := List.forall_mem_append.mp hand
      have old := fun tree htree => bench tree (Table.mem_trees_of_get? found htree)
      obtain ⟨back, new⟩ := change.all stable given old
      exact ⟨List.forall_mem_append.mpr ⟨back, hand⟩, placed new⟩
  | erase name => exact ⟨hand, fun tree htree => bench tree (Table.mem_trees_of_erase htree)⟩
  | change change =>
      obtain ⟨given, hand⟩ := List.forall_mem_append.mp hand
      obtain ⟨root, hand⟩ := List.forall_mem_cons.mp hand
      obtain ⟨back, changed⟩ := change.all stable given root
      exact ⟨List.forall_mem_append.mpr ⟨back, List.forall_mem_cons.mpr ⟨changed, hand⟩⟩, bench⟩
  | setBody _ =>
      obtain ⟨root, hand⟩ := List.forall_mem_cons.mp hand
      exact ⟨List.forall_mem_cons.mpr ⟨root.setBody stable _, hand⟩, bench⟩
  | hold attributes type =>
      obtain ⟨typed, hand⟩ := List.forall_mem_append.mp hand
      obtain ⟨held, hand⟩ := List.forall_mem_append.mp hand
      obtain ⟨root, hand⟩ := List.forall_mem_cons.mp hand
      have own := stable.hold attributes type (all_iff.mp root).1
      refine ⟨List.forall_mem_cons.mpr ⟨all_iff.mpr ⟨own, ?_⟩, hand⟩, bench⟩
      rw [parts_holding]
      exact List.forall_mem_append.mpr ⟨held, typed⟩

end Act

namespace Acts

variable {rules : Rules} {stage stage' : Stage} {Q : Node → Prop} {next : Nat}

theorem next_le (h : Acts rules stage stage') : stage.next ≤ stage'.next := by
  induction h with
  | refl => exact Nat.le_refl _
  | tail _ act ih => exact Nat.le_trans ih act.next_le

theorem all (h : Acts rules stage stage') (stable : Stable next Q) (low : next ≤ stage.next)
    (before : ∀ tree ∈ stage.trees, tree.All Q) : ∀ tree ∈ stage'.trees, tree.All Q := by
  induction h with
  | refl => exact before
  | tail acts act ih => exact act.all stable (Nat.le_trans low (next_le acts)) ih

end Acts

end DeclTree
