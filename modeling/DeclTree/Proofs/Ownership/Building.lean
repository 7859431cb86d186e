import DeclTree.Proofs.Acts.Basic
import DeclTree.Proofs.Ownership.Exchange

/-!
# New nodes and copies in the ledger

A new node is entered under the next identity, and a probe with what it holds. A copy makes all its
nodes at once, with identities the ledger does not have yet.
-/

namespace DeclTree

open Node

variable {α β : Type}

/-! ## New nodes -/

theorem Node.tidy_ofHeader (header : Header) (body : Body) : (ofHeader header body).Tidy := by
  have empty : ∀ branch ∈ body.kind.branches header.id,
      branch.items = [] ∧ ∀ id ∈ branch.owner?, id = header.id := by
    cases body.kind <;> simp [Kind.branches, Branch.items, Branch.owner?]
  have places : (ofHeader header body).places.Nodup := by
    have nodup := body.kind.nodup_places
    rwa [← body.kind.map_place_branches header.id] at nodup
  refine tidy_iff.mpr ⟨⟨places, fun branch hbranch => (empty branch hbranch).2, ?_⟩, ?_⟩
  · intro branch hbranch item hitem
    rw [(empty branch hbranch).1] at hitem
    cases hitem
  · intro part hpart
    obtain ⟨branch, hbranch, hitem⟩ := List.mem_flatMap.mp hpart
    rw [(empty branch hbranch).1] at hitem
    cases hitem

theorem Node.ids_ofHeader (header : Header) (body : Body) :
    (ofHeader header body).ids = [header.id] := by
  rw [ids_eq, parts_ofHeader]
  rfl

/-- A new node under the next identity. -/
theorem Ledger.ofHeader {next : Nat} {trees : List Node} (h : Ledger next trees) {header : Header}
    (hid : header.id = ⟨next⟩) (body : Body) :
    Ledger (next + 1) ([Node.ofHeader header body] ++ trees) := by
  refine h.append (Nat.le_succ next) ?_ ?_ ?_
  · intro tree htree
    rw [List.mem_singleton.mp htree]
    exact tidy_ofHeader header body
  · simp [ids_ofHeader]
  · intro id hmem
    have same : id = ⟨next⟩ := by simpa [ids_ofHeader, hid] using hmem
    rw [same]
    exact ⟨Nat.le_refl next, Nat.lt_succ_self next⟩

/-- A probe holds free nodes without owning them. -/
theorem Node.rearranges_hold {node : Node} (attributes : Option (List Node))
    (type : Option (Option Node)) (free : Free (attributes.getD [] ++ type.join.toList)) :
    Rearranges (type.join.toList ++ (attributes.getD [] ++ [node]))
      [node.holding attributes type] := by
  have unowned : ∀ branch ∈ (node.holding attributes type).branches, branch.owner? = none := by
    unfold holding
    rcases attributes with _ | attributes <;> rcases type with _ | type <;>
      simp [Branch.owner?]
  intro tidy
  constructor
  · intro tree htree
    rw [List.mem_singleton.mp htree]
    refine tidy_iff.mpr ⟨⟨?_, ?_, ?_⟩, fun part hpart => ?_⟩
    · unfold places holding
      rcases attributes with _ | attributes <;> rcases type with _ | type <;> simp [Branch.place]
    · intro branch hbranch id hid
      rw [unowned branch hbranch] at hid
      cases hid
    · intro branch hbranch item hitem
      have held := mem_parts_of_mem_branch hbranch hitem
      rw [parts_holding] at held
      rw [unowned branch hbranch]
      exact free item held
    · rw [parts_holding] at hpart
      refine tidy part ?_
      rcases List.mem_append.mp hpart with hpart | hpart <;> simp [hpart]
  · intro id
    have hid : (node.holding attributes type).id = node.id := rfl
    simp only [tally_append, tally_cons, tally_nil, count_ids, hid, parts_holding]
    omega

/-! ## Copies -/

theorem Branch.eq_of_mem_owner?_refill {owner id : NodeId} {nodes : List Node}
    {branch : Branch Node} (h : id ∈ (branch.refill owner nodes).owner?) : id = owner := by
  cases branch with
  | list role children => exact (Option.some.inj h).symm
  | slot child => exact (Option.some.inj h).symm
  | heldAttributes items => cases h
  | heldType item => cases h

/-- Free nodes on a branch get the owner of the branch for their parent. -/
theorem Branch.parent_of_mem_refill {owner : NodeId} {nodes : List Node} {branch : Branch Node}
    (free : Free nodes) {item : Node}
    (h : item ∈ (branch.refill owner nodes).items) :
    item.parent = (branch.refill owner nodes).owner? := by
  cases branch with
  | list role children =>
      obtain ⟨node, -, rfl⟩ := List.mem_map.mp h
      rfl
  | slot child =>
      obtain ⟨node, -, rfl⟩ := Option.map_eq_some_iff.mp (Option.mem_toList.mp h)
      rfl
  | heldAttributes items => exact free item h
  | heldType held => exact free item (List.mem_of_mem_head? (Option.mem_toList.mp h))

namespace Node

variable {node copied : Node} {s s' : Supply}

theorem parent_of_copy (h : Returns node.copy s copied s') : copied.parent = none := by
  rw [Node.parent, (copy_returns h).2.1]
  rfl

theorem keeps_of_copy (h : Returns node.copy s copied s') (places : node.places.Nodup) :
    copied.Keeps := by
  obtain ⟨-, header, threads⟩ := copy_returns h
  have hid : copied.id = ⟨s.nextNode⟩ := by rw [Node.id, header]; rfl
  have refilled : ∀ branch' ∈ copied.branches, ∃ (branch : Branch Node) (copies : List Node),
      Free copies ∧ branch' = branch.refill copied.id copies := by
    intro branch' hbranch'
    obtain ⟨branch, -, s₁, s₂, gathered⟩ := exists_of_forall₂ threads.forall₂ hbranch'
    obtain ⟨copies, threads, rfl⟩ := Branch.refill_of_gather gathered
    refine ⟨branch, copies, fun copy hcopy => ?_, by rw [hid]⟩
    obtain ⟨part, -, s₁, s₂, returned⟩ := exists_of_forall₂ threads.forall₂ hcopy
    exact parent_of_copy returned
  refine ⟨?_, fun branch' hbranch' id hmem => ?_, fun branch' hbranch' item hitem => ?_⟩
  · rw [(CopyOf.of_returns h).repeats.places_eq]
    exact places
  · obtain ⟨branch, copies, -, rfl⟩ := refilled branch' hbranch'
    exact Branch.eq_of_mem_owner?_refill hmem
  · obtain ⟨branch, copies, free, rfl⟩ := refilled branch' hbranch'
    exact Branch.parent_of_mem_refill free hitem

/-- Every node of a copy was itself copied, so it is enough to look at one level. -/
theorem tidy_of_copy (h : Returns node.copy s copied s')
    (places : ∀ other ∈ node.nodes, other.places.Nodup) : copied.Tidy := by
  intro other hother
  obtain ⟨original, horiginal, s₁, made, s₂, parent, returned, rfl⟩ :=
    exists_of_forall₂ (CopyOf.of_returns h).nodes hother
  obtain ⟨places, owner, link⟩ := keeps_of_copy returned (places original horiginal)
  exact ⟨places, owner, link⟩

end Node

variable {parts copies rest : List Node} {s s' : Supply}

/-- Copies are entered beside what they were made from. -/
theorem Ledger.ofCopies (h : Ledger s.nextNode rest) (threads : Threads Node.copy parts s copies s')
    (tidy : ∀ part ∈ parts, part.Tidy) :
    Free copies ∧ Ledger s'.nextNode (copies ++ rest) := by
  have issues := issues_of_threads (fun part _ {_ _ _} => issues_of_copy) threads
  have copied : ∀ copy ∈ copies, ∃ part ∈ parts, ∃ s s', Returns part.copy s copy s' :=
    fun copy hcopy => exists_of_forall₂ threads.forall₂ hcopy
  refine ⟨fun copy hcopy => ?_, h.append ?_ (fun copy hcopy => ?_) issues.nodup fun id =>
    issues.bounds⟩
  · obtain ⟨part, -, s₁, s₂, returned⟩ := copied copy hcopy
    exact parent_of_copy returned
  · rw [issues.nextNode]
    omega
  · obtain ⟨part, hpart, s₁, s₂, returned⟩ := copied copy hcopy
    exact tidy_of_copy returned fun other hother => (tidy part hpart other hother).places

end DeclTree
