import DeclTree.Proofs.Copy
import DeclTree.Proofs.Intent.Laws
import DeclTree.Proofs.Intent.Places

/-!
# Copies have the same intent

A copy shows what its tree shows. Its nodes stand in the same places and in the same order, so every
list agrees by position, which is more than any way of comparing lists asks for. Names are the
one thing a copy has to find out anew: it starts with no symbol kept, and gets the one that its
original has if the resolver still answers that one.
-/

namespace DeclTree

open Matching

namespace Node

/-! ## Reading the places of a copy -/

namespace Repeats

variable {R : Node → Node → Prop} {node copied : Node} (h : Repeats R node copied)

include h

theorem itemsOf (place : Place) :
    List.Forall₂ R (node.itemsOf place) (copied.itemsOf place) :=
  h.itemsAt fun other => other = place

end Repeats

/-! ## One level -/

section Level

variable (symbolOf : Header → Option Symbol) (options : CompareOptions)

/-- Nodes of the catalog with one name and the same intent. -/
structure Agree (part made : Node) : Prop where
  left : part.Catalog
  right : made.Catalog
  name : made.name = part.name
  same : sameWith symbolOf options part made = true

variable {symbolOf options}

namespace Repeats

variable {node copied : Node} (h : Repeats (Agree symbolOf options) node copied)

include h

theorem sameData (symbols : node.kind = .typeDecl → symbolOf copied.header = symbolOf node.header)
    (keys : ∀ payload payload', node.body = .extension payload →
      payload.duplicate? = some payload' → payload'.intentKey = payload.intentKey) :
    SameData symbolOf options node copied := by
  have annotations : node.header.annotations.equivalent copied.header.annotations = true := by
    refine AnnotationStore.equivalent_of_forall₂ (h.annotations.imp fun a b repeated => ?_)
    exact ⟨repeated.1.symm, repeated.2.symm⟩
  rcases Body.duplicate_cases h.body with same | ⟨payload, payload', duplicated, hbody, hbody'⟩
  · refine .of_body same.symm h.name.symm (fun hk => ?_) fun _ => annotations
    simp [NameSource.read, symbols hk, h.name]
  · have content := keys payload payload' hbody duplicated
    refine ⟨h.name.symm, ?_, ?_, ?_, ?_, fun _ => annotations, ?_⟩
    · simp [names?, hbody, hbody']
    · simp [hbody, hbody', Body.access?]
    · simp [hbody, hbody', Body.isStatic?]
    · simp [hbody, hbody', Body.traits?]
    · simp [hbody, hbody', Body.sameContent, content]

/-- A node that repeats a node of the catalog, with agreeing nodes below, agrees with it. -/
theorem agree (symbols : node.kind = .typeDecl → symbolOf copied.header = symbolOf node.header)
    (keys : ∀ payload payload', node.body = .extension payload →
      payload.duplicate? = some payload' → payload'.intentKey = payload.intentKey)
    (hnode : node.Catalog) : Agree symbolOf options node copied := by
  have wellFormed : copied.WellFormed :=
    h.wellFormed (fun part made agree => (kind_eq_of_sameWith symbolOf options agree.same).symm)
      hnode.2 fun made hmade => (exists_of_forall₂ h.parts hmade).elim fun _ found =>
        found.2.right.2
  have hcopied : copied.Catalog := ⟨h.kind_eq ▸ hnode.1, wellFormed⟩
  refine ⟨hnode, hcopied, h.name, (hnode.sameWith_iff symbolOf options hcopied).mpr ?_⟩
  refine ⟨h.kind_eq.symm, h.sameData symbols keys, fun place => ?_⟩
  exact listsSame_of_forall₂ (hnode.within_itemsOf place) (hcopied.within_itemsOf place)
    ((h.itemsOf place).imp fun _ _ agree => agree.same) place.pairing

end Repeats

end Level

/-! ## Whole trees -/

/-- A copy agrees with its tree if its nodes have the symbols of the nodes they were made from. -/
theorem CopyOf.agree {symbolOf : Header → Option Symbol} {node copied : Node}
    (h : CopyOf node copied) (catalog : node.Catalog)
    (symbols : ∀ part ∈ node.nodes, ∀ made ∈ copied.nodes, part.kind = .typeDecl →
      CopyOf part made → symbolOf made.header = symbolOf part.header)
    (keys : ∀ part ∈ node.nodes, ∀ payload payload', part.body = .extension payload →
      payload.duplicate? = some payload' → payload'.intentKey = payload.intentKey)
    (options : CompareOptions) : Agree symbolOf options node copied := by
  induction node using Node.induction generalizing copied with
  | step node ih =>
      have below : Repeats (Agree symbolOf options) node copied := by
        refine h.repeats.imp fun part hpart made hmade hcopy => ?_
        refine ih part hpart hcopy (catalog.of_mem_parts hpart) ?_ ?_
        · intro part' hpart' made' hmade'
          exact symbols part' (mem_nodes_of_mem_parts hpart hpart') made'
            (mem_nodes_of_mem_parts hmade hmade')
        · intro part' hpart'
          exact keys part' (mem_nodes_of_mem_parts hpart hpart')
      refine below.agree (fun hk => ?_) (keys node node.self_mem_nodes) catalog
      exact symbols node node.self_mem_nodes copied copied.self_mem_nodes hk h

end Node

/-- The tree was made in this world: its identities were given out, each to one node, and no symbol
is kept under an identity still to come. -/
structure World.Hosts (world : World) (tree : Node) : Prop where
  allocated : ∀ id ∈ tree.ids, id.number < world.supply.nextNode
  identified : Node.Identified tree.nodes
  unkept : ∀ id : NodeId, world.supply.nextNode ≤ id.number → world.resolution.cache.get? id = none

namespace World.Hosts

variable {world : World} {tree copied : Node} {supply : Supply}

/-- The tree and its copy can be told apart. -/
theorem identified_copy (hosts : world.Hosts tree)
    (h : Returns tree.copy world.supply copied supply) :
    Node.Identified (copied.nodes ++ tree.nodes) := by
  have apart : ∀ made ∈ copied.nodes, ∀ part ∈ tree.nodes, made.id ≠ part.id := by
    intro made hmade part hpart same
    have low := hosts.allocated part.id (Node.id_mem_ids hpart)
    have high := ((Node.issues_of_copy h).bounds (Node.id_mem_ids hmade)).1
    rw [same] at high
    omega
  intro a ha b hb same
  rcases List.mem_append.mp ha with ha | ha <;> rcases List.mem_append.mp hb with hb | hb
  · obtain rfl := List.inj_on_of_nodup_map (Node.issues_of_copy h).nodup ha hb same
    exact ⟨rfl, rfl⟩
  · exact absurd same (apart a ha b hb)
  · exact absurd same.symm (apart b hb a ha)
  · exact hosts.identified a ha b hb same

end World.Hosts

/-- If the resolver still answers what was kept, the symbol is the resolver's answer. -/
theorem Header.effectiveSymbol_eq_answer {header : Header} {state : Resolution}
    (kept : ∀ symbol, header.cached? state = some symbol →
      ∃ id, header.resolver = some id ∧ state.answer id header.handle = some symbol) :
    header.effectiveSymbol state =
      header.resolver.bind fun id => state.answer id header.handle := by
  unfold effectiveSymbol
  cases hresolver : header.resolver with
  | none => rfl
  | some id =>
      cases hcached : header.cached? state with
      | none => rfl
      | some symbol =>
          obtain ⟨id', asked, answered⟩ := kept symbol hcached
          obtain rfl : id = id' := Option.some.inj (hresolver.symm.trans asked)
          exact answered.symm

/-- A copy asks the resolvers for nothing that its original does not ask for. -/
theorem Node.CopyOf.unchanged {tree copied : Node} (h : CopyOf tree copied)
    {before after : Resolution} (unchanged : Resolution.Unchanged tree.typeDecls before after) :
    Resolution.Unchanged (tree.declsWith copied) before after := by
  intro node hnode
  rcases List.mem_append.mp hnode with hnode | hnode
  · exact unchanged node hnode
  · obtain ⟨below, hk⟩ := mem_typeDecls.mp hnode
    obtain ⟨part, hpart, hcopy⟩ := exists_of_forall₂ h.nodes below
    have same := unchanged part (mem_typeDecls.mpr ⟨hpart, hcopy.repeats.kind_eq ▸ hk⟩)
    rw [Header.answer?, Header.answer?, hcopy.repeats.resolver, hcopy.repeats.handle]
    exact same

/-- A tree and its copy have the same intent, in both directions, as long as the symbols kept in
the tree are still the ones its resolvers answer and its payloads pass on their keys. A tagged
payload always does. -/
theorem Node.copy_keeps_intent (world : World) (tree copied : Node) (supply : Supply)
    (catalog : tree.Catalog) (hosts : world.Hosts tree)
    (copying : tree.copy.run world.supply = (.ok copied, supply))
    (kept : ∀ node ∈ tree.nodes, node.kind = .typeDecl →
      ∀ symbol, node.header.cached? world.resolution = some symbol →
        ∃ id, node.header.resolver = some id ∧
          world.resolution.answer id node.header.handle = some symbol)
    (payloads : ∀ node ∈ tree.nodes, ∀ payload payload', node.body = .extension payload →
      payload.duplicate? = some payload' → payload'.intentKey = payload.intentKey)
    (options : CompareOptions) :
    (Resolution.Unchanged tree.typeDecls world.resolution
        (copied.mismatch? options tree world.resolution).2 →
      (copied.mismatch? options tree world.resolution).1 = none) ∧
    (Resolution.Unchanged tree.typeDecls world.resolution
        (tree.mismatch? options copied world.resolution).2 →
      (tree.mismatch? options copied world.resolution).1 = none) ∧
    ∀ tag value, (Payload.tagged tag value).duplicate? = some (Payload.tagged tag value) := by
  have copyOf := CopyOf.of_returns copying
  let symbolOf := fun header : Header => header.effectiveSymbol world.resolution
  have agree : Agree symbolOf options tree copied := by
    refine copyOf.agree catalog (fun part hpart made hmade hk hcopy => ?_) payloads options
    -- The copy has nothing kept, so its symbol is the answer too.
    have new := ((issues_of_copy copying).bounds (id_mem_ids hmade)).1
    have unkept : made.header.cached? world.resolution = none := hosts.unkept made.id new
    have symbol := Header.effectiveSymbol_eq_answer (kept part hpart hk)
    have symbol' : made.header.effectiveSymbol world.resolution = _ :=
      Header.effectiveSymbol_eq_answer fun symbol hkept => by simp [unkept] at hkept
    rw [hcopy.repeats.resolver, hcopy.repeats.handle] at symbol'
    exact symbol'.trans symbol.symm
  have same := agree.same
  have same' := (sameWith_equivalenceOn symbolOf options).symm agree.left agree.right same
  rw [sameWith, Option.isNone_iff_eq_none] at same same'
  have identified := (hosts.identified_copy copying).mono (declsWith_subset_nodes copied tree)
  refine ⟨fun unchanged => ?_, fun unchanged => ?_, Payload.duplicate?_tagged⟩
  · have unchanged' := (copyOf.unchanged unchanged).mono (declsWith_comm_subset tree copied)
    rw [mismatch?_of_unchanged identified unchanged']
    exact same'
  · have identified' := identified.mono (declsWith_comm_subset copied tree)
    rw [mismatch?_of_unchanged identified' (copyOf.unchanged unchanged)]
    exact same

namespace Node

/-- A class with two equal methods, an attribute given twice and a payload, with a NaN in each of
the attributes and in the payload. Its symbol is kept. -/
def sampleTree : Node :=
  let nan : Value := .float ⟨0x7ff8000000000000⟩
  let header (number : Nat) (name kind : String) : Header :=
    { id := ⟨number⟩, name, handle := .synthetic kind, parent := some ⟨1⟩ }
  let marked (number : Nat) : Node :=
    ofHeader (header number "A" "attribute") (.attribute (.cons ⟨none, nan⟩ []))
  ((sampleClass 1 ["f", "f"]).setList .attributes ⟨⟨1⟩, [marked 4, marked 5]⟩).setList
    .extensions ⟨⟨1⟩, [ofHeader (header 6 "e" "extension") (.extension (.tagged "t" nan))]⟩

def sampleWorld : World where
  supply := { nextNode := 7 }
  resolution :=
    { sampleResolution with cache := ⟨[(⟨1⟩, { name := "C", namespaceName := "N" })]⟩ }

theorem sampleWorld_hosts : sampleWorld.Hosts sampleTree where
  allocated := by decide +kernel
  identified := by decide +kernel
  unkept id hid := by
    have other : (⟨1⟩ : NodeId) ≠ id := by
      rintro rfl
      exact absurd hid (by decide)
    simp [sampleWorld, Table.get?, Table.lookup, other]

/-- The copy of a tree with NaN values, equal members and repeated attributes. -/
theorem copy_keeps_intent_of_sampleTree :
    ∃ copied supply, sampleTree.copy.run sampleWorld.supply = (.ok copied, supply) ∧
      ∀ options, (copied.mismatch? options sampleTree sampleWorld.resolution).1 = none ∧
        (sampleTree.mismatch? options copied sampleWorld.resolution).1 = none := by
  have done : (outcome sampleTree.copy sampleWorld.supply).1.isOk = true := by decide +kernel
  rcases copying : outcome sampleTree.copy sampleWorld.supply with ⟨_ | copied, supply⟩
  · simp [copying, Except.isOk, Except.toBool] at done
  refine ⟨copied, supply, copying, fun options => ?_⟩
  have settled : sampleWorld.resolution.Reads _ sampleTree.typeDecls :=
    .of_refusals_eq_zero (by decide +kernel)
  have unchanged := fun left right : Node =>
    (settled.steadyFor (readsOnly_mismatch? (List.Subset.refl (left.declsWith right))
      options)).unchanged
  have keeps := copy_keeps_intent sampleWorld sampleTree copied supply (by decide +kernel)
    sampleWorld_hosts copying ?_ ?_ options
  · exact ⟨keeps.1 (unchanged copied sampleTree), keeps.2.1 (unchanged sampleTree copied)⟩
  · have answers : ∀ node ∈ sampleTree.nodes,
        (node.header.cached? sampleWorld.resolution).all (fun symbol =>
          node.header.resolver.bind (fun id =>
            sampleWorld.resolution.answer id node.header.handle) = some symbol) = true := by
      decide +kernel
    intro node hnode _ symbol hkept
    have answered := answers node hnode
    rw [hkept, Option.all_some, decide_eq_true_eq] at answered
    exact Option.bind_eq_some_iff.mp answered
  · have stable : ∀ node ∈ sampleTree.nodes,
        node.body.duplicate.toOption.all (fun copied => copied.sameContent node.body) = true := by
      decide +kernel
    intro node hnode payload payload' hbody duplicated
    have same := stable node hnode
    simpa [hbody, Body.duplicate, duplicated, Body.sameContent, Except.toOption] using same

end Node

end DeclTree
