import DeclTree.Proofs.Intent.Copy
import DeclTree.Proofs.Ownership.Run
import DeclTree.Proofs.Resolution.Trace

/-!
# How copies end

A copy takes identities node by node in the order of the tree, one for the node and then one for each
of its annotations, and stops at the first node whose payload has no duplicate. So the outcome
can be read off the tree. If no node stops it, the copy repeats the tree address by address
under the next identities of the supply. If one does, the error is that node's and exactly the
nodes before it have been paid for.
-/

namespace DeclTree

open Node

/-! ## What is taken from the supply -/

/-- The annotations of these nodes, node by node. -/
def annotationsOf (nodes : List Node) : List Annotation :=
  nodes.flatMap fun node => node.header.annotations.entries

@[simp] theorem annotationsOf_append (left right : List Node) :
    annotationsOf (left ++ right) = annotationsOf left ++ annotationsOf right :=
  List.flatMap_append

/-- The supply after these nodes were given new identities, and their annotations too. -/
def Supply.spend (s : Supply) (nodes : List Node) : Supply where
  nextNode := s.nextNode + nodes.length
  nextAnnotation := s.nextAnnotation + (annotationsOf nodes).length

@[simp] theorem Supply.spend_nil (s : Supply) : s.spend [] = s := rfl

theorem Supply.spend_append (s : Supply) (left right : List Node) :
    s.spend (left ++ right) = (s.spend left).spend right := by
  simp [spend, Nat.add_assoc]

theorem Header.supply_copy (node : Node) (s : Supply) :
    (node.header.copy s).2 = s.spend [node] := by
  simp [Header.copy_eq, Supply.spend, annotationsOf]

/-- These nodes were copied one after the other: the supply has paid for them, and the annotations
of the copies have the next identities. -/
structure Supply.Renews (s : Supply) (nodes copies : List Node) (s' : Supply) : Prop where
  spent : s' = s.spend nodes
  numbers : (annotationsOf copies).map (fun entry => entry.id.number) =
    List.range' s.nextAnnotation (annotationsOf nodes).length

namespace Supply.Renews

variable {s s₁ s' : Supply} {nodes nodes' copies copies' : List Node}

theorem nil (s : Supply) : s.Renews [] [] s := ⟨rfl, rfl⟩

theorem append (first : s.Renews nodes copies s₁) (rest : s₁.Renews nodes' copies' s') :
    s.Renews (nodes ++ nodes') (copies ++ copies') s' := by
  constructor
  · rw [spend_append, ← first.spent, ← rest.spent]
  · have middle : s₁.nextAnnotation = s.nextAnnotation + (annotationsOf nodes).length := by
      rw [first.spent]
      rfl
    rw [annotationsOf_append, annotationsOf_append, List.map_append, first.numbers, rest.numbers,
      middle, List.length_append, List.range'_append_1]

end Supply.Renews

namespace Node

variable {node copied : Node} {s s' : Supply}

theorem annotationsOf_withParent (node : Node) (parent : Option NodeId) :
    annotationsOf (node.withParent parent).nodes = annotationsOf node.nodes := by
  rw [nodes_eq, nodes_eq node]
  rfl

/-- Copying the node alone, without what hangs on it. -/
theorem renews_root (h : copied.header = node.header.renewed s) :
    s.Renews [node] [copied] (node.header.copy s).2 := by
  refine ⟨Header.supply_copy node s, ?_⟩
  simp only [annotationsOf, List.flatMap_singleton, h, Header.renewed, AnnotationStore.renewed]
  apply List.ext_getElem <;> simp

theorem renews_of_threads {parts copies : List Node}
    (each : ∀ part ∈ parts, ∀ {s c s'}, Returns part.copy s c s' →
      s.Renews part.nodes c.nodes s')
    (h : Threads copy parts s copies s') :
    s.Renews (parts.flatMap nodes) (copies.flatMap nodes) s' := by
  induction h with
  | nil => exact .nil _
  | cons first _ ih =>
      have now := each _ List.mem_cons_self first
      have later := ih fun part hpart => each part (List.mem_cons_of_mem _ hpart)
      rw [List.flatMap_cons, List.flatMap_cons]
      exact now.append later

/-- A copy pays for all nodes of its tree. -/
theorem renews_of_copy (h : Returns node.copy s copied s') :
    s.Renews node.nodes copied.nodes s' := by
  induction node using Node.induction generalizing copied s s' with
  | step node ih =>
      obtain ⟨-, header, threads⟩ := copy_returns h
      obtain ⟨copies, threads, same⟩ := parts_of_threads threads
      have below := renews_of_threads (fun part hpart {_ _ _} => ih part hpart) threads
      have parts : annotationsOf (copied.parts.flatMap nodes) =
          annotationsOf (copies.flatMap nodes) := by
        have same := same (fun part => annotationsOf part.nodes) annotationsOf_withParent
        simpa [annotationsOf, List.flatMap_assoc, Node.parts] using same
      have whole := (renews_root header).append below
      rw [nodes_eq, nodes_eq copied]
      refine ⟨whole.spent, ?_⟩
      have numbers := whole.numbers
      rw [annotationsOf_append, ← parts, ← annotationsOf_append] at numbers
      exact numbers

/-! ## Addresses of a copy -/

/-- The addresses below one branch. -/
theorem addresses_of_branchRepeats {branch branch' : Branch Node}
    (h : BranchRepeats (fun part made => made.addresses = part.addresses) branch branch') :
    (branch'.items.zipIdx.flatMap fun item =>
        item.1.addresses.map fun rest => (⟨branch'.place, item.2⟩ : Position) :: rest) =
      branch.items.zipIdx.flatMap fun item =>
        item.1.addresses.map fun rest => (⟨branch.place, item.2⟩ : Position) :: rest := by
  obtain ⟨place, items⟩ := h
  rw [place]
  generalize branch.items = parts at items
  generalize branch'.items = mades at items
  -- The positions count from any start, so that the induction goes through.
  generalize 0 = start
  induction items generalizing start with
  | nil => rfl
  | cons same _ ih =>
      simp only [List.zipIdx_cons, List.flatMap_cons, same]
      rw [ih]

/-- A copy has its nodes at the addresses of the tree it was made from. -/
theorem CopyOf.addresses_eq (h : CopyOf node copied) : copied.addresses = node.addresses := by
  induction node using Node.induction generalizing copied with
  | step node ih =>
      have below := h.repeats.imp fun part hpart made _ copy => ih part hpart copy
      rw [Node.addresses_eq, Node.addresses_eq node]
      congr 1
      have branches := below.branches
      generalize node.branches = old at branches
      generalize copied.branches = new at branches
      induction branches with
      | nil => rfl
      | cons first _ ih => rw [List.flatMap_cons, List.flatMap_cons, ih,
          addresses_of_branchRepeats first]

theorem CopyOf.catalog (h : CopyOf node copied) (catalog : node.Catalog) : copied.Catalog := by
  induction node using Node.induction generalizing copied with
  | step node ih =>
      refine ⟨?_, ?_⟩
      · rw [h.repeats.kind_eq]
        exact catalog.1
      · refine h.repeats.wellFormed (fun part made copy => copy.repeats.kind_eq) catalog.2 ?_
        intro made hmade
        obtain ⟨part, hpart, copy⟩ := exists_of_forall₂ h.repeats.parts hmade
        exact (ih part hpart copy (catalog.of_mem_parts hpart)).2

/-- In the catalog every child is owned by the node it hangs on. -/
theorem Keeps.parent_of_child? {child : Node} {step : Position} (keeps : node.Keeps)
    (catalog : node.Catalog) (h : node.child? step = some child) :
    child.parent = some node.id := by
  obtain ⟨branch, hbranch, -, hitem⟩ := exists_branch_of_mem_itemsOf (mem_itemsOf_of_child? h)
  have place : branch.place ∈ node.kind.places := by
    rw [← catalog.places_eq]
    exact List.mem_map_of_mem hbranch
  obtain ⟨kind, fixed, -⟩ := Kind.exists_kind_of_mem_places place
  rw [keeps.parent branch hbranch child hitem]
  cases howner : branch.owner? with
  | some owner => rw [keeps.owner branch hbranch owner howner]
  | none =>
      cases branch with
      | list role children => cases howner
      | slot child => cases howner
      | heldAttributes items => cases fixed
      | heldType item => cases fixed

/-! ## Copies that succeed -/

/-- A node of a copy beside the node it was made from: both show the same, and a payload is passed on
as its duplicate. -/
structure Mirrors (node made : Node) : Prop where
  kind : made.kind = node.kind
  name : made.name = node.name
  handle : made.header.handle = node.header.handle
  resolver : made.header.resolver = node.header.resolver
  annotations : made.header.annotations.entries.map (fun entry => (entry.key, entry.value)) =
    node.header.annotations.entries.map fun entry => (entry.key, entry.value)
  body : match node.body with
    | .extension payload => payload.duplicate?.map Body.extension = some made.body
    | body => made.body = body

theorem CopyOf.mirrors (h : CopyOf node copied) : Mirrors node copied := by
  have repeated := h.repeats
  refine ⟨repeated.kind_eq, repeated.name, repeated.handle, repeated.resolver, ?_, ?_⟩
  · have entries := repeated.annotations
    generalize node.header.annotations.entries = old at entries
    generalize copied.header.annotations.entries = new at entries
    induction entries with
    | nil => rfl
    | cons same _ ih => simp [same, ih]
  · have body := repeated.body
    split
    next payload hbody =>
      rw [hbody, Body.duplicate] at body
      cases hpayload : payload.duplicate? with
      | none => simp [hpayload] at body
      | some duplicate => simpa [hpayload] using body
    next other =>
      rcases Body.duplicate_cases body with same | ⟨payload, _, -, hbody, -⟩
      · exact same
      · exact absurd hbody (other payload)

/-- What stands at an index stands at the address with that index. -/
theorem occupant?_of_getElem? (h : node.WellFormed) {index : Nat} {address : Address}
    (found : node.addresses[index]? = some address) :
    node.nodes[index]? = node.occupant? address := by
  have same := congrArg (fun list => list[index]?) (map_occupant?_addresses h)
  simp only [List.getElem?_map, found, Option.map_some] at same
  cases hnode : node.nodes[index]? with
  | none => simp [hnode] at same
  | some other =>
      rw [hnode, Option.map_some, Option.some.injEq] at same
      exact same.symm

theorem getElem?_ids_of_copy (h : Returns node.copy s copied s') {index : Nat} {made : Node}
    (found : copied.nodes[index]? = some made) : made.id = ⟨s.nextNode + index⟩ := by
  have numbers := congrArg (fun list => list[index]?) (issues_of_copy h).numbers
  have bound : index < copied.nodes.length := (List.getElem?_eq_some_iff.mp found).1
  simp only [ids, List.map_map, List.getElem?_map, found, Option.map_some, List.length_map] at numbers
  rw [List.getElem?_range' bound, Nat.one_mul, Option.some.injEq] at numbers
  exact congrArg NodeId.mk numbers

/-- The owner of a node of the copy is the copy of the owner. -/
theorem parent_of_getElem? (h : Returns node.copy s copied s') (catalog : node.Catalog)
    {index : Nat} {address : Address} {step : Position}
    (found : node.addresses[index]? = some (address ++ [step])) :
    ∃ ownerIndex, node.addresses[ownerIndex]? = some address ∧
      copied.nodes[index]?.map Node.parent = some (some ⟨s.nextNode + ownerIndex⟩) := by
  have copyOf := CopyOf.of_returns h
  have catalog' := copyOf.catalog catalog
  have tidy := tidy_of_copy h fun other hother => (catalog.of_mem_nodes hother).2.shaped.nodup_places
  rw [← copyOf.addresses_eq] at found ⊢
  have here := occupant?_of_getElem? catalog'.2 found
  obtain ⟨made, hmade⟩ : ∃ made, copied.nodes[index]? = some made := by
    have bound : index < copied.nodes.length := by
      have length := congrArg List.length (map_occupant?_addresses catalog'.2)
      simp only [List.length_map] at length
      rw [← length]
      exact (List.getElem?_eq_some_iff.mp found).1
    exact ⟨_, List.getElem?_eq_getElem bound⟩
  rw [hmade, occupant?_append, eq_comm, Option.bind_eq_some_iff] at here
  obtain ⟨owner, howner, below⟩ := here
  obtain ⟨child, hchild, same⟩ := occupant?_cons_eq_some.mp below
  obtain rfl : child = made := Option.some.inj same
  obtain ⟨ownerIndex, hindex⟩ :=
    List.mem_iff_getElem?.mp (mem_addresses_of_occupant? catalog'.2 howner)
  have hnode : owner ∈ copied.nodes := mem_nodes_of_occupant? howner
  have parent := (tidy owner hnode).parent_of_child? (catalog'.of_mem_nodes hnode) hchild
  have id := getElem?_ids_of_copy h ((occupant?_of_getElem? catalog'.2 hindex).trans howner)
  refine ⟨ownerIndex, hindex, ?_⟩
  rw [hmade, Option.map_some, parent, id]

/-- The exact shape of a copy. It has the nodes of its tree, address by address, under the next
identities in the order of the walk, and nothing but the supply was touched. -/
theorem copy_repeats_tree (tree copied : Node) (world world' : World) (catalog : tree.Catalog)
    (copying : World.allocating tree.copy.run world = (.ok copied, world')) :
    copied.descendants.length = tree.descendants.length ∧
      copied.descendants.map (fun node => node.id.number) =
        List.range' world.supply.nextNode tree.descendants.length ∧
      (annotationsOf copied.descendants).map (fun entry => entry.id.number) =
        List.range' world.supply.nextAnnotation (annotationsOf tree.descendants).length ∧
      world' = { world with supply := world.supply.spend tree.descendants } ∧
      List.Forall₂ Mirrors tree.descendants copied.descendants ∧
      (world.Unkept → ∀ node ∈ copied.descendants, node.header.cached? world'.resolution = none) ∧
      copied.parent = none ∧
      tree.addresses.map tree.occupant? = tree.descendants.map some ∧
      ∀ (index : Nat) (address : Address) (step : Position),
        tree.addresses[index]? = some (address ++ [step]) →
          ∃ ownerIndex, tree.addresses[ownerIndex]? = some address ∧
            copied.descendants[index]?.map Node.parent =
              some (some ⟨world.supply.nextNode + ownerIndex⟩) := by
  obtain ⟨ok, rfl⟩ := Prod.mk.inj copying
  have returned : Returns tree.copy world.supply copied (outcome tree.copy world.supply).2 :=
    Prod.ext ok rfl
  have copyOf := CopyOf.of_returns returned
  have issues := issues_of_copy returned
  have renews := renews_of_copy returned
  have nodes := copyOf.nodes
  rw [(copyOf.catalog catalog).descendants_eq_nodes, catalog.descendants_eq_nodes]
  have length : copied.ids.length = tree.nodes.length := by
    rw [ids, List.length_map, nodes.length_eq]
  refine ⟨nodes.length_eq.symm, ?_, renews.numbers, ?_, nodes.imp fun _ _ => CopyOf.mirrors, ?_,
    parent_of_copy returned, map_occupant?_addresses catalog.2, ?_⟩
  · have numbers := issues.numbers
    rwa [length, ids, List.map_map] at numbers
  · change ({ world with supply := (outcome tree.copy world.supply).2 } : World) = _
    rw [renews.spent]
  · intro unkept node hnode
    exact unkept node.id (issues.bounds (id_mem_ids hnode)).1
  · intro index address step found
    exact parent_of_getElem? returned catalog found

/-- A payload on the sample class. -/
def sampleExtension (number : Nat) (name : String) (annotations : List Annotation)
    (payload : Payload) : Node :=
  ofHeader
    { id := ⟨number⟩, name, handle := .synthetic "extension", parent := some ⟨1⟩,
      annotations := ⟨annotations⟩ }
    (.extension payload)

/-- A class with two methods and two payloads. -/
def samplePayloads (last : Payload) : Node :=
  (sampleClass 1 ["f", "g"]).setList .extensions
    ⟨⟨1⟩, [
      sampleExtension 4 "note" [⟨⟨1⟩, "k", .int 1⟩, ⟨⟨2⟩, "k", .null⟩] (.tagged "t" .null),
      sampleExtension 5 "last" [⟨⟨3⟩, "l", .null⟩] last]⟩

/-- The copy of a class with payloads that can be duplicated. -/
theorem copy_repeats_tree_of_samplePayloads :
    ∃ copied world', World.allocating (samplePayloads (.generation 0 1)).copy.run
        { sampleWorld with supply := ⟨7, 4⟩ } = (.ok copied, world') ∧
      copied.descendants.map (fun node => node.id.number) = [7, 8, 9, 10, 11] ∧
      (annotationsOf copied.descendants).map (fun entry => entry.id.number) = [4, 5, 6] ∧
      (∀ node ∈ copied.descendants, node.header.cached? world'.resolution = none) ∧
      copied.descendants[4]?.map Node.parent = some (some ⟨7⟩) := by
  let world : World := { sampleWorld with supply := ⟨7, 4⟩ }
  let tree := samplePayloads (.generation 0 1)
  have done : (World.allocating tree.copy.run world).1.isOk = true := by decide +kernel
  obtain ⟨copied, ok⟩ : ∃ copied, (World.allocating tree.copy.run world).1 = .ok copied := by
    cases ended : (World.allocating tree.copy.run world).1 with
    | ok copied => exact ⟨copied, rfl⟩
    | error reason => simp [ended, Except.isOk, Except.toBool] at done
  have copying : World.allocating tree.copy.run world = (.ok copied, _) := Prod.ext ok rfl
  have shape := copy_repeats_tree tree copied world _ (by decide +kernel) copying
  obtain ⟨-, ids, annotations, -, -, unkept, -, -, parents⟩ := shape
  have walk : tree.descendants.length = 5 := by decide +kernel
  have notes : (annotationsOf tree.descendants).length = 3 := by decide +kernel
  have address : tree.addresses[4]? = some ([] ++ [⟨.list .extensions, 1⟩]) := by decide +kernel
  have root : tree.addresses.idxOf [] = 0 := by decide +kernel
  obtain ⟨ownerIndex, found, parent⟩ := parents 4 [] ⟨.list .extensions, 1⟩ address
  refine ⟨copied, _, copying, ?_, ?_, unkept sampleWorld_hosts.unkept, ?_⟩
  · rw [ids, walk]
    rfl
  · rw [annotations, notes]
    rfl
  · have first : ownerIndex = 0 := by
      obtain ⟨bound, here⟩ := List.getElem?_eq_some_iff.mp found
      have nodup : tree.addresses.Nodup := nodup_addresses (by decide +kernel)
      rw [← root, ← here, nodup.idxOf_getElem]
    rw [parent, first]

end Node

/-! ## Copies that are refused -/

section Refused

variable {owner : NodeId} {s s' : Supply} {error : TreeError}

theorem ChildList.halts_copyFor {list : ChildList Node}
    (h : Refuses (list.copyFor owner) s error s') : Halts Node.copy list.items s error s' := by
  rcases refuses_bind.mp h with refused | ⟨_, _, -, last⟩
  · rw [List.mapM_map, refuses_mapM] at refused
    exact refused.of_map
  · exact absurd last not_refuses_pure

theorem ChildSlot.halts_copyFor {slot : ChildSlot Node}
    (h : Refuses (slot.copyFor owner) s error s') :
    Halts Node.copy slot.item.toList s error s' := by
  obtain ⟨_, _ | node⟩ := slot
  · exact absurd h not_refuses_pure
  · rcases refuses_bind.mp h with refused | ⟨_, _, -, last⟩
    · exact .here refused
    · exact absurd last not_refuses_pure

/-- A branch cannot be copied because one of its nodes cannot. -/
theorem Branch.halts_gather {branch : Branch Node}
    (h : Refuses (gather owner (branch.map Node.copy)) s error s') :
    Halts Node.copy branch.items s error s' := by
  match branch with
  | .list role children => exact ChildList.halts_copyFor (refuses_map.mp h)
  | .slot child => exact ChildSlot.halts_copyFor (refuses_map.mp h)
  | .heldAttributes items =>
      have refused := refuses_map.mp h
      rw [List.mapM_map, refuses_mapM] at refused
      exact refused
  | .heldType none => exact absurd h not_refuses_pure
  | .heldType (some node) => exact .here (refuses_map.mp h)

theorem Node.halts_parts {branches : List (Branch Node)}
    (h : Halts (fun branch => Branch.gather owner (branch.map copy)) branches s error s') :
    Halts copy (branches.flatMap Branch.items) s error s' := by
  induction h with
  | here refused =>
      rw [List.flatMap_cons]
      exact (Branch.halts_gather refused).append_left
  | later first _ ih =>
      obtain ⟨copies, threads, -⟩ := Branch.refill_of_gather first
      rw [List.flatMap_cons]
      exact .append_right threads ih

end Refused

namespace Node

variable {node : Node} {s s' : Supply} {error : TreeError} {nodes nodes' : List Node}

/-- The payload that keeps the node from being copied, if there is one. -/
def stuckPayload? (node : Node) : Option Payload :=
  match node.body with
  | .extension payload => if payload.duplicate?.isNone then some payload else none
  | _ => none

/-- The error of a copy that stops at the node. -/
def stuckError (node : Node) (payload : Payload) : TreeError :=
  .cannotCopy Kind.extension.label node.name
    ("payload '" ++ payload.describe ++ "' has no copy path")

theorem stuckPayload?_eq_some {payload : Payload} :
    node.stuckPayload? = some payload ↔
      node.body = .extension payload ∧ payload.duplicate? = none := by
  unfold stuckPayload?
  cases node.body with
  | extension other =>
      simp only [Option.isNone_iff_eq_none, Option.ite_none_right_eq_some, Option.some.injEq,
        Body.extension.injEq]
      constructor
      · intro ⟨stuck, same⟩
        exact ⟨same, same ▸ stuck⟩
      · intro ⟨same, stuck⟩
        exact ⟨same ▸ stuck, same⟩
  | _ => simp

theorem stuckPayload?_eq_none :
    node.stuckPayload? = none ↔
      ∀ payload, node.body = .extension payload → payload.duplicate? ≠ none := by
  rw [Option.eq_none_iff_forall_ne_some]
  simp only [ne_eq, stuckPayload?_eq_some, not_and]

theorem stuckPayload?_of_duplicate {body : Body} (h : node.body.duplicate = .ok body) :
    node.stuckPayload? = none := by
  rw [stuckPayload?_eq_none]
  intro payload hbody stuck
  simp [hbody, Body.duplicate, stuck] at h

theorem exists_stuckPayload_of_duplicate {reason : String}
    (h : node.body.duplicate = .error reason) :
    ∃ payload, node.stuckPayload? = some payload ∧
      .cannotCopy node.body.label node.name reason = node.stuckError payload := by
  unfold Body.duplicate at h
  split at h
  next payload hbody =>
    split at h
    next => cases h
    next stuck =>
      obtain rfl := Except.error.inj h
      refine ⟨payload, stuckPayload?_eq_some.mpr ⟨hbody, stuck⟩, ?_⟩
      rw [hbody]
      rfl
  next => cases h

/-- Nodes are paid for one after the other, up to the first that cannot be copied. -/
def Stops (s : Supply) (nodes : List Node) (error : TreeError) (s' : Supply) : Prop :=
  ∃ before node after payload, nodes = before ++ node :: after ∧
    (∀ other ∈ before, other.stuckPayload? = none) ∧ node.stuckPayload? = some payload ∧
    error = node.stuckError payload ∧ s' = s.spend before

theorem Stops.append_left (h : Stops s nodes error s') : Stops s (nodes ++ nodes') error s' := by
  obtain ⟨before, node, after, payload, rfl, free, stuck, herror, spent⟩ := h
  exact ⟨before, node, after ++ nodes', payload, by simp, free, stuck, herror, spent⟩

theorem Stops.append_right (done : ∀ other ∈ nodes, other.stuckPayload? = none)
    (h : Stops (s.spend nodes) nodes' error s') : Stops s (nodes ++ nodes') error s' := by
  obtain ⟨before, node, after, payload, rfl, free, stuck, herror, rfl⟩ := h
  refine ⟨nodes ++ before, node, after, payload, by simp, ?_, stuck, herror, ?_⟩
  · intro other hother
    rcases List.mem_append.mp hother with hother | hother
    · exact done other hother
    · exact free other hother
  · rw [Supply.spend_append]

/-- Nothing in a tree that was copied stands in the way of a copy. -/
theorem stuckPayload?_of_copy {copied other : Node} (h : Returns node.copy s copied s')
    (hother : other ∈ node.nodes) : other.stuckPayload? = none := by
  have bodies := (CopyOf.of_returns h).nodes.imp fun _ _ copy => copy.repeats.body
  obtain ⟨made, -, duplicated⟩ := exists_of_forall₂ bodies.flip hother
  exact stuckPayload?_of_duplicate duplicated

theorem stops_of_halts {parts : List Node}
    (each : ∀ part ∈ parts, ∀ {s error s'}, Refuses part.copy s error s' →
      Stops s part.nodes error s')
    (h : Halts copy parts s error s') : Stops s (parts.flatMap Node.nodes) error s' := by
  induction h with
  | here refused =>
      rw [List.flatMap_cons]
      exact (each _ List.mem_cons_self refused).append_left
  | later first _ ih =>
      have later := ih fun part hpart => each part (List.mem_cons_of_mem _ hpart)
      rw [(renews_of_copy first).spent] at later
      rw [List.flatMap_cons]
      exact .append_right (fun other hother => stuckPayload?_of_copy first hother) later

/-- One level of a copy that is refused: either the node cannot be copied itself, or it is paid for
and the copy stops further down. -/
theorem copy_refuses (h : Refuses node.copy s error s') :
    (∃ payload, node.stuckPayload? = some payload ∧ error = node.stuckError payload ∧ s' = s) ∨
      (node.stuckPayload? = none ∧ Halts copy node.parts (s.spend [node]) error s') := by
  rw [copy, fold_eq] at h
  split at h
  next reason duplicated =>
    obtain ⟨rfl, rfl⟩ := refuses_throw.mp h
    obtain ⟨payload, stuck, same⟩ := exists_stuckPayload_of_duplicate duplicated
    exact .inl ⟨payload, stuck, same, rfl⟩
  next body duplicated =>
    refine .inr ⟨stuckPayload?_of_duplicate duplicated, ?_⟩
    rcases refuses_bind.mp h with first | ⟨header, s₁, renewed, rest⟩
    · exact absurd first not_refuses_lift
    rcases refuses_bind.mp rest with gathered | ⟨_, _, -, last⟩
    · rw [returns_lift] at renewed
      have spent := Header.supply_copy node s
      rw [renewed] at spent
      obtain rfl : s₁ = s.spend [node] := spent
      rw [List.mapM_map, refuses_mapM] at gathered
      exact halts_parts gathered
    · exact absurd last not_refuses_pure

/-- A copy that is refused stops at a node of its tree. -/
theorem stops_of_copy (h : Refuses node.copy s error s') : Stops s node.nodes error s' := by
  induction node using Node.induction generalizing s error s' with
  | step node ih =>
      rw [nodes_eq, ← List.singleton_append]
      rcases copy_refuses h with ⟨payload, stuck, herror, rfl⟩ | ⟨free, halted⟩
      · refine ⟨[], node, _, payload, rfl, ?_, stuck, herror, rfl⟩
        intro other hother
        cases hother
      · refine .append_right ?_ (stops_of_halts (fun part hpart {_ _ _} => ih part hpart) halted)
        intro other hother
        rwa [List.mem_singleton.mp hother]

/-- The first node that cannot be copied decides, wherever in the tree it stands. -/
theorem refuses_of_stuckPayload {index : Nat} {payload : Payload}
    {first : Node} (found : node.nodes[index]? = some first)
    (stuck : first.stuckPayload? = some payload)
    (free : ∀ other ∈ node.nodes.take index, other.stuckPayload? = none) (s : Supply) :
    Refuses node.copy s (first.stuckError payload) (s.spend (node.nodes.take index)) := by
  rcases ended : outcome node.copy s with ⟨error | copied, s'⟩
  · obtain ⟨before, halt, after, payload', split, free', stuck', rfl, rfl⟩ := stops_of_copy ended
    have halt_at : node.nodes[before.length]? = some halt := by simp [split]
    -- Both are the first that cannot be copied, so they stand at one index.
    have same : index = before.length := by
      rcases Nat.lt_trichotomy index before.length with less | same | more
      · rw [split, List.getElem?_append_left less] at found
        rw [free' first (List.mem_of_getElem? found)] at stuck
        cases stuck
      · exact same
      · have early : halt ∈ node.nodes.take index := by
          refine List.mem_of_getElem? (i := before.length) ?_
          rw [List.getElem?_take_of_lt more, halt_at]
        rw [free halt early] at stuck'
        cases stuck'
    subst same
    obtain rfl : first = halt := Option.some.inj (found.symm.trans halt_at)
    obtain rfl : payload = payload' := Option.some.inj (stuck.symm.trans stuck')
    rw [split, List.take_left]
    exact ended
  · rw [stuckPayload?_of_copy ended (List.mem_of_getElem? found)] at stuck
    cases stuck

theorem refuses_copying {α : Type} {run : AllocM α} {bench : Workbench} {supply : Supply}
    (h : Refuses run bench.world.supply error supply) :
    Refuses (BenchM.copying run) bench (.tree error)
      { bench with world := { bench.world with supply } } := by
  have ended : run.run bench.world.supply = (.error error, supply) := h
  refine refuses_bind.mpr (.inr ⟨.error error, _, ?_, rfl⟩)
  simp only [Returns, outcome, BenchM.allocating, BenchM.onWorld, World.allocating, ExceptT.run_mk,
    ended]

/-- When and how copies fail: exactly if some payload in the tree has no duplicate, at the first such
node in the order of the walk, with the nodes before it paid for and all else as it was. -/
theorem copy_fails_at_first_stuck_payload (tree : Node) (catalog : tree.Catalog) (world : World) :
    ((∃ error, (World.allocating tree.copy.run world).1 = .error error) ↔
        ∃ node ∈ tree.descendants, ∃ payload, node.body = .extension payload ∧
          payload.duplicate? = none) ∧
      ∀ (index : Nat) (node : Node) (payload : Payload),
        tree.descendants[index]? = some node → node.body = .extension payload →
        payload.duplicate? = none →
        (∀ earlier ∈ tree.descendants.take index, ∀ other, earlier.body = .extension other →
          other.duplicate? ≠ none) →
        let error : TreeError := .cannotCopy "extension" node.name
          ("payload '" ++ payload.describe ++ "' has no copy path")
        let world' : World := { world with
          supply :=
            { nextNode := world.supply.nextNode + index
              nextAnnotation := world.supply.nextAnnotation +
                (annotationsOf (tree.descendants.take index)).length } }
        World.allocating tree.copy.run world = (.error error, world') ∧
          ∀ (bench : Workbench) (path : Path) (target : String), bench.world = world →
            bench.nodeAt? path = some tree →
              bench.step (.node (.copy path target)) =
                (.error (.tree error), { bench with world := world' }) := by
  rw [catalog.descendants_eq_nodes]
  constructor
  · constructor
    · intro ⟨error, failed⟩
      have refused : Refuses tree.copy world.supply error (outcome tree.copy world.supply).2 :=
        Prod.ext failed rfl
      obtain ⟨before, node, after, payload, split, -, stuck, -, -⟩ := stops_of_copy refused
      have hnode : node ∈ tree.nodes := by simp [split]
      exact ⟨node, hnode, payload, stuckPayload?_eq_some.mp stuck⟩
    · intro ⟨node, hnode, payload, stuck⟩
      rcases ended : outcome tree.copy world.supply with ⟨error | copied, s'⟩
      · exact ⟨error, congrArg Prod.fst ended⟩
      · rw [← stuckPayload?_eq_some, stuckPayload?_of_copy ended hnode] at stuck
        cases stuck
  · intro index node payload found hbody stuck free error world'
    have bound : index ≤ tree.nodes.length :=
      Nat.le_of_lt (List.getElem?_eq_some_iff.mp found).1
    have refused := refuses_of_stuckPayload found (stuckPayload?_eq_some.mpr ⟨hbody, stuck⟩)
      (fun other hother => stuckPayload?_eq_none.mpr (free other hother)) world.supply
    have spent : world.supply.spend (tree.nodes.take index) = world'.supply := by
      simp [Supply.spend, world', Nat.min_eq_left bound]
    rw [spent] at refused
    constructor
    · have ended : tree.copy.run world.supply = (.error error, world'.supply) := refused
      simp only [World.allocating, ended]
      rfl
    · intro bench path target hworld hpath
      subst hworld
      exact refuses_bind.mpr (.inr ⟨tree, bench, (reads_nodeAt path).returns hpath,
        refuses_bind.mpr (.inl (refuses_copying refused))⟩)

/-- Copying stops at the second of two payloads. The class, its methods and the first payload have been
paid for, with the two annotations of that payload. -/
theorem copy_fails_at_first_stuck_payload_of_samplePayloads :
    (samplePayloads (.native "db" (some "handle"))).Catalog ∧
      World.allocating (samplePayloads (.native "db" (some "handle"))).copy.run sampleWorld =
        (.error (.cannotCopy "extension" "last" "payload 'handle' has no copy path"),
          { sampleWorld with supply := ⟨11, 3⟩ }) := by
  let tree := samplePayloads (.native "db" (some "handle"))
  have catalog : tree.Catalog := by decide +kernel
  have found : tree.descendants[4]? =
      some (sampleExtension 5 "last" [⟨⟨3⟩, "l", .null⟩] (.native "db" (some "handle"))) := by
    cbv
  have free : ∀ earlier ∈ tree.descendants.take 4, earlier.stuckPayload?.isNone := by decide +kernel
  have notes : (annotationsOf (tree.descendants.take 4)).length = 2 := by decide +kernel
  have reason : "payload '" ++ (Payload.native "db" (some "handle")).describe ++
      "' has no copy path" = "payload 'handle' has no copy path" := by decide +kernel
  have failed := ((copy_fails_at_first_stuck_payload tree catalog sampleWorld).2 4 _ _ found rfl rfl
    fun earlier hearlier => stuckPayload?_eq_none.mp
      (Option.isNone_iff_eq_none.mp (free earlier hearlier))).1
  rw [notes, reason] at failed
  exact ⟨catalog, failed⟩

end Node

end DeclTree
