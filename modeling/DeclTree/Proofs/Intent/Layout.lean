import DeclTree.Proofs.Intent.Isomorphism
import DeclTree.Proofs.Intent.Refinement
import DeclTree.Proofs.Intent.Replacement
import Mathlib.Logic.Relation

/-!
# Layout and order

A tree can be rearranged without changing its intent: identities, links to owners, places in the
source text and the order of what has no order can all be changed, at any depth and any number of
times. For a type declaration a change of handle or resolver must leave the names that are read
through them as they were.

One change at one node is a `Rearrangement`. It keeps the intent of that node, hence that of the
tree around it, and so do many changes one after the other.
-/

namespace DeclTree

open Matching

/-! ## Data in another layout -/

/-- The names that are read through the symbol of a node stay the same. -/
structure Header.SameNames (state : Resolution) (old new : Header) : Prop where
  namespaceName : (old.effectiveSymbol state).map Symbol.namespaceName =
    (new.effectiveSymbol state).map Symbol.namespaceName
  outerName : ((old.effectiveSymbol state).map fun symbol => symbol.outerName old.name) =
    (new.effectiveSymbol state).map fun symbol => symbol.outerName new.name

/-- The qualified name is put together from the other two. -/
theorem Header.SameNames.read_eq {state : Resolution} {old new : Header}
    (h : SameNames state old new) :
    (Node.NameSource.symbolOf old).read (fun header => header.effectiveSymbol state) =
      (Node.NameSource.symbolOf new).read fun header => header.effectiveSymbol state := by
  obtain ⟨spaces, outers⟩ := h
  simp only [Node.NameSource.read]
  cases hold : old.effectiveSymbol state with
  | none =>
      cases hnew : new.effectiveSymbol state with
      | none => rfl
      | some symbol => simp [hold, hnew] at spaces
  | some symbol =>
      cases hnew : new.effectiveSymbol state with
      | none => simp [hold, hnew] at spaces
      | some symbol' =>
          simp only [hold, hnew, Option.map_some, Option.some.injEq] at spaces outers
          simp [Symbol.qualifiedName, spaces, outers]

/-- Named arguments may move, and positional ones too as long as they keep their order. -/
theorem Argument.sameIntentAll_of_perm {old new : List Argument} (perm : old.Perm new)
    (positional : (old.filter fun argument => !argument.isNamed) =
      new.filter fun argument => !argument.isNamed) :
    sameIntentAll old new = true := by
  have ordered : Matching.ordered sameIntent (old.filter fun argument => !argument.isNamed)
      (new.filter fun argument => !argument.isNamed) = true := by
    rw [positional]
    exact (ordered_equivalenceOn sameIntent_equivalenceOn).refl fun _ _ => trivial
  have named : coversBoth sameIntent (old.filter isNamed) (new.filter isNamed) = true :=
    coversBoth_of_perm sameIntent_equivalenceOn (fun _ _ => trivial) (perm.filter isNamed)
  exact Bool.and_eq_true_iff.mpr ⟨ordered, named⟩

namespace Node

/-! ## Changes at one node -/

/-- What hangs where, whoever owns it. -/
def contents (node : Node) : List (Place × List Node) :=
  node.branches.map fun branch => (branch.place, branch.items)

/-- One change to the layout of a node. -/
inductive Rearrangement (state : Resolution) : Node → Node → Prop
  /-- Annotations in another order. -/
  | annotations (node : Node) (entries : List Annotation)
      (perm : node.header.annotations.entries.Perm entries) :
      Rearrangement state node
        { node with header := { node.header with annotations := ⟨entries⟩ } }
  /-- Annotations under other identities. -/
  | annotationIds (node : Node) (entries : List Annotation)
      (same : List.Forall₂ (fun old new => old.key = new.key ∧ old.value = new.value)
        node.header.annotations.entries entries) :
      Rearrangement state node
        { node with header := { node.header with annotations := ⟨entries⟩ } }
  /-- Another identity, owner, handle and resolver, and with the identity another kept symbol. -/
  | header (node : Node) (header : Header) (name : header.name = node.header.name)
      (annotations : header.annotations = node.header.annotations)
      (names : node.kind = .typeDecl → node.header.SameNames state header) :
      Rearrangement state node { node with header }
  /-- Another identity of the owner on the branches. -/
  | owners (node : Node) (branches : List (Branch Node))
      (same : node.contents = contents { node with branches }) :
      Rearrangement state node { node with branches }
  /-- Members in another order. -/
  | order (node : Node) (role : Role) (items : List Node)
      (free : role ∈ [.attributes, .methods, .properties, .nested, .extensions])
      (perm : (node.itemsOf (.list role)).Perm items) :
      Rearrangement state node (node.withItems (.list role) items)
  /-- Arguments of an attribute in another order, except among the positional ones. -/
  | arguments (header : Header) (branches : List (Branch Node)) (old new : List Argument)
      (perm : old.Perm new)
      (positional : (old.filter fun argument => !argument.isNamed) =
        new.filter fun argument => !argument.isNamed) :
      Rearrangement state ⟨header, .attribute old, branches⟩ ⟨header, .attribute new, branches⟩
  /-- Another position noted with a parameter. -/
  | ordinal (header : Header) (branches : List (Branch Node)) (data : ParameterData)
      (ordinal : Nat) :
      Rearrangement state ⟨header, .parameter data, branches⟩
        ⟨header, .parameter { data with ordinal }, branches⟩

/-- One change to the layout of a tree, at some node of it. -/
def Rearranged (state : Resolution) (left right : Node) : Prop :=
  ∃ address old new, left.occupant? address = some old ∧ Rearrangement state old new ∧
    right = left.replaceAt address new

/-! ## Changes keep the intent -/

/-- Two nodes of one kind with the same nodes in the same places. -/
structure SameBelow (left right : Node) : Prop where
  kind : left.kind = right.kind
  places : left.places = right.places
  items : ∀ place, left.itemsOf place = right.itemsOf place

section Changes

variable {symbolOf : Header → Option Symbol} {options : CompareOptions} {left right : Node}

theorem SameBelow.catalog (h : SameBelow left right) (hleft : left.Catalog) : right.Catalog := by
  obtain ⟨known, places, items⟩ := catalog_iff.mp hleft
  refine catalog_iff.mpr ⟨h.kind ▸ known, ?_, fun place item hitem => ?_⟩
  · rw [← h.places, places, h.kind]
  · rw [← h.items] at hitem
    exact items place item hitem

theorem SameBelow.sameWith (h : SameBelow left right) (hleft : left.Catalog)
    (data : SameData symbolOf options left right) :
    sameWith symbolOf options left right = true := by
  refine (hleft.sameWith_iff symbolOf options (h.catalog hleft)).mpr ⟨h.kind, data, fun place => ?_⟩
  rw [← h.items place]
  exact (listsSame_equivalenceOn (sameWith_equivalenceOn symbolOf options) _).refl
    (hleft.within_itemsOf place)

/-- Order makes no difference where lists are not compared by position. -/
theorem listsSame_of_perm {items items' : List Node} (hitems : Within Catalog items)
    (perm : items.Perm items') {pairing : Pairing} (free : pairing ≠ .ordered) :
    listsSame (Node.sameWith symbolOf options) pairing items items' = true := by
  have laws := sameWith_equivalenceOn symbolOf options
  cases pairing with
  | ordered => contradiction
  | unordered => exact unordered_of_perm laws hitems perm
  | coverage => exact coversBoth_of_perm ((EquivalenceOn.kernel name).and laws) hitems perm

theorem SameBelow.of_contents (kind : left.kind = right.kind)
    (contents : left.contents = right.contents) : SameBelow left right := by
  have read : ∀ (node : Node) (place : Place), node.itemsOf place =
      (node.contents.findSome? fun content =>
        if content.1 = place then some content.2 else none).getD [] := by
    intro node place
    simp [itemsOf, itemsAt, Node.contents, List.findSome?_map, Function.comp_def]
  have places : ∀ node : Node, node.places = node.contents.map Prod.fst := by
    intro node
    simp [Node.places, Node.contents]
  refine ⟨kind, ?_, fun place => ?_⟩
  · rw [places, places, contents]
  · rw [read, read, contents]

/-- One change keeps the node in the catalog, with its kind and its intent. -/
theorem Rearrangement.sameWith {state : Resolution} (h : Rearrangement state left right)
    (hleft : left.Catalog) (options : CompareOptions) :
    right.Catalog ∧ right.kind = left.kind ∧
      Node.sameWith (fun header => header.effectiveSymbol state) options left right = true := by
  -- All changes but that of an order leave the same nodes in the same places.
  have keep : left.contents = right.contents → right.kind = left.kind →
      SameData (fun header => header.effectiveSymbol state) options left right →
      right.Catalog ∧ right.kind = left.kind ∧
        Node.sameWith (fun header => header.effectiveSymbol state) options left right = true := by
    intro contents kind data
    have below := SameBelow.of_contents kind.symm contents
    exact ⟨below.catalog hleft, kind, below.sameWith hleft data⟩
  have stores := AnnotationStore.equivalent_equivalenceOn
  cases h with
  | annotations _ entries perm =>
      refine keep rfl rfl (.of_body rfl rfl (fun _ => rfl) fun _ => ?_)
      exact coversBoth_of_perm Annotation.sameIntent_equivalenceOn (fun _ _ => trivial) perm
  | annotationIds _ entries same =>
      refine keep rfl rfl (.of_body rfl rfl (fun _ => rfl) fun _ => ?_)
      exact AnnotationStore.equivalent_of_forall₂ same
  | header _ header name annotations names =>
      refine keep rfl rfl (.of_body rfl name.symm (fun kind => (names kind).read_eq) fun _ => ?_)
      rw [annotations]
      exact stores.refl trivial
  | owners _ branches same => exact keep same rfl (.of_eq rfl rfl)
  | order _ role items free perm =>
      have length := perm.symm.length_eq
      have catalog : (left.withItems (.list role) items).Catalog := by
        refine hleft.withItems length fun item hitem => ?_
        exact (catalog_iff.mp hleft).2.2 _ item (perm.mem_iff.mpr hitem)
      refine ⟨catalog, rfl, (hleft.sameWith_withItems_iff length catalog).mpr ?_⟩
      -- Only parameters and type arguments are compared by position.
      have pairing : role.pairing ≠ .ordered := by
        revert free
        cases role <;> decide
      exact listsSame_of_perm (hleft.within_itemsOf _) perm pairing
  | arguments header branches old new perm positional =>
      refine keep rfl rfl ⟨rfl, rfl, rfl, rfl, rfl, fun _ => stores.refl trivial, ?_⟩
      exact Argument.sameIntentAll_of_perm perm positional
  | ordinal header branches data ordinal =>
      refine keep rfl rfl ⟨rfl, rfl, rfl, rfl, rfl, fun _ => stores.refl trivial, ?_⟩
      exact (Body.sameContent_equivalenceOn .parameter).refl (a := .parameter data) rfl

/-- A change at a node keeps the intent of the tree around it. -/
theorem Rearranged.sameWith {state : Resolution} (h : Rearranged state left right)
    (hleft : left.Catalog) (options : CompareOptions) :
    right.Catalog ∧
      Node.sameWith (fun header => header.effectiveSymbol state) options left right = true := by
  obtain ⟨address, old, new, hold, change, rfl⟩ := h
  have below := hleft.of_mem_nodes (mem_nodes_of_occupant? hold)
  obtain ⟨catalog, kind, same⟩ := change.sameWith below options
  exact ⟨(hleft.replaceAt hold catalog kind).2.1, hleft.sameWith_replaceAt hold catalog same⟩

/-- So do many changes, one after the other. -/
theorem Rearranged.sameWith_of_many {state : Resolution}
    (h : Relation.ReflTransGen (Rearranged state) left right) (hleft : left.Catalog)
    (options : CompareOptions) :
    right.Catalog ∧
      Node.sameWith (fun header => header.effectiveSymbol state) options left right = true := by
  have laws := sameWith_equivalenceOn (fun header => header.effectiveSymbol state) options
  induction h with
  | refl => exact ⟨hleft, laws.refl hleft⟩
  | tail _ change ih =>
      obtain ⟨middle, before⟩ := ih
      obtain ⟨last, after⟩ := change.sameWith middle options
      exact ⟨last, laws.trans hleft middle last before after⟩

end Changes

/-- A comparison finds no mismatch between a tree and what any changes to its layout have made of
it. -/
theorem layout_makes_no_difference {left right : Node} {state : Resolution} (hleft : left.Catalog)
    (rearranged : Relation.ReflTransGen (Rearranged state) left right)
    (identified : Identified (left.declsWith right)) (options : CompareOptions)
    (unchanged : Resolution.Unchanged (left.declsWith right) state
      (left.mismatch? options right state).2) :
    right.Catalog ∧ (left.mismatch? options right state).1 = none := by
  obtain ⟨hright, same⟩ := Rearranged.sameWith_of_many rearranged hleft options
  refine ⟨hright, ?_⟩
  rw [mismatch?_of_unchanged identified unchanged]
  exact Option.isNone_iff_eq_none.mp same

/-- The node with one of its lists turned round. -/
def turned (node : Node) (role : Role) : Node :=
  node.withItems (.list role) (node.itemsOf (.list role)).reverse

def sampleTurned : Node :=
  ((sampleMarked 1 ["A", "B"] ["f", "g"]).turned .methods).turned .attributes

/-- The second method of the sample class under the header of another one. -/
def movedMethod : Node :=
  { ofHeader { id := ⟨3⟩, name := "g", handle := .synthetic "method", parent := some ⟨1⟩ }
      (.method {}) with
    header := sampleMethod.header }

/-- The turned class elsewhere in the text, with a resolver that does not know it. -/
def sampleMoved : Node :=
  { sampleTurned.replaceAt [⟨.list .methods, 0⟩] movedMethod with
    header :=
      { id := ⟨42⟩, name := "C", handle := .parsed ⟨9⟩ "class" ⟨300, 310, 3, 1⟩,
        resolver := some (.named "other"), parent := some ⟨50⟩ } }

/-- Keeps a symbol for the moved class that agrees with the old one in the namespace. -/
def movedResolution : Resolution :=
  { sampleResolution with cache := ⟨[(⟨42⟩, { name := "D", namespaceName := "N" })]⟩ }

/-- Lists are turned round, then a method and the class itself are moved. -/
theorem layout_makes_no_difference_of_sampleMoved :
    Relation.ReflTransGen (Rearranged movedResolution) (sampleMarked 1 ["A", "B"] ["f", "g"])
        sampleMoved ∧
      ((sampleMarked 1 ["A", "B"] ["f", "g"]).mismatch? {} sampleMoved movedResolution).1 =
        none := by
  have turn : ∀ (node : Node) (role : Role),
      role ∈ [Role.attributes, .methods, .properties, .nested, .extensions] →
      Rearranged movedResolution node (node.turned role) := by
    intro node role free
    exact ⟨[], node, _, rfl, .order node role _ free (List.reverse_perm _).symm, rfl⟩
  have methods := turn (sampleMarked 1 ["A", "B"] ["f", "g"]) .methods (by decide)
  have attributes : Rearranged movedResolution _ sampleTurned := turn _ .attributes (by decide)
  have method : Rearranged movedResolution sampleTurned
      (sampleTurned.replaceAt [⟨.list .methods, 0⟩] movedMethod) :=
    ⟨[⟨.list .methods, 0⟩], _, _, rfl, .header _ sampleMethod.header rfl rfl nofun, rfl⟩
  have moved : Rearranged movedResolution
      (sampleTurned.replaceAt [⟨.list .methods, 0⟩] movedMethod) sampleMoved :=
    ⟨[], _, _, rfl, .header _ sampleMoved.header rfl rfl fun _ => ⟨rfl, rfl⟩, rfl⟩
  have rearranged : Relation.ReflTransGen (Rearranged movedResolution)
      (sampleMarked 1 ["A", "B"] ["f", "g"]) sampleMoved :=
    (((Relation.ReflTransGen.single methods).tail attributes).tail method).tail moved
  obtain ⟨-, none⟩ := layout_makes_no_difference (by decide +kernel) rearranged (by decide +kernel)
    {} (by decide +kernel)
  exact ⟨rearranged, none⟩

end Node

end DeclTree
