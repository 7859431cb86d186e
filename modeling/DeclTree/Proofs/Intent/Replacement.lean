import DeclTree.Proofs.Intent.Laws
import DeclTree.Proofs.Intent.Places

/-!
# Replacing a subtree

A tree in which one node is replaced has the same intent as before exactly if the new node has the
intent of the old one. That same intent is passed up from the node to the tree holds in every place.
That a difference is passed up too fails for attributes, which are compared by coverage: there a
second attribute of the old intent hides the change. In the other places nothing can hide it, since
each member has a partner of its own.
-/

namespace DeclTree.Node

open Matching

section Level

variable {symbolOf : Header → Option Symbol} {options : CompareOptions}
variable {node old new : Node} {step : Position}

/-- One member replaced by another of the same intent makes no difference to a list. -/
theorem listsSame_set {items : List Node} (hitems : Within Catalog items) {index : Nat}
    (hold : items[index]? = some old) (hnew : new.Catalog)
    (same : sameWith symbolOf options old new = true) (pairing : Pairing) :
    listsSame (sameWith symbolOf options) pairing items (items.set index new) = true := by
  have laws := sameWith_equivalenceOn symbolOf options
  have hset : Within Catalog (items.set index new) := by
    intro item hitem
    rcases List.mem_or_eq_of_mem_set hitem with hitem | rfl
    · exact hitems item hitem
    · exact hnew
  exact listsSame_of_forall₂ hitems hset
    (forall₂_set (fun item hitem => laws.refl (hitems item hitem)) hold same) pairing

theorem sameWith_of_listsSame_set {items : List Node} (hitems : Within Catalog items) {index : Nat}
    (hold : items[index]? = some old) (hnew : new.Catalog) {pairing : Pairing}
    (hpairing : pairing ≠ .coverage)
    (h : listsSame (sameWith symbolOf options) pairing items (items.set index new) = true) :
    sameWith symbolOf options old new = true := by
  cases pairing with
  | ordered => exact test_of_ordered_set hold h
  | unordered =>
      exact test_of_unordered_set (sameWith_equivalenceOn symbolOf options) hitems hold hnew h
  | coverage => contradiction

theorem Catalog.pairing_ne_coverage (h : node.Catalog) (hold : node.child? step = some old)
    (hkind : old.kind ≠ .attribute) : step.place.pairing ≠ .coverage := by
  obtain ⟨kind, -⟩ := (catalog_iff.mp h).2.2 step.place old (mem_itemsOf_of_child? hold)
  intro covered
  match hplace : step.place, covered, kind with
  | .list .attributes, _, kind => exact hkind (Option.some.inj kind).symm
  | .heldAttributes, _, kind => simp [Place.kind?] at kind

end Level

section Tree

variable {symbolOf : Header → Option Symbol} {options : CompareOptions}
variable {tree old new : Node} {address : Address}

/-- A node of the same intent in the place of another leaves a tree of the same intent. -/
theorem Catalog.sameWith_replaceAt (h : tree.Catalog) (hold : tree.occupant? address = some old)
    (hnew : new.Catalog) (same : sameWith symbolOf options old new = true) :
    sameWith symbolOf options tree (tree.replaceAt address new) = true := by
  induction address generalizing tree with
  | nil =>
      obtain rfl : tree = old := Option.some.inj hold
      exact same
  | cons step rest ih =>
      obtain ⟨child, hchild, hrest⟩ := occupant?_cons_eq_some.mp hold
      have below := h.of_mem_parts (mem_parts_of_child? hchild)
      have kind := (kind_eq_of_sameWith symbolOf options same).symm
      obtain ⟨hkind, catalog, -⟩ := below.replaceAt hrest hnew kind
      rw [replaceAt_cons hchild]
      refine (h.sameWith_withItems_iff (by simp) (h.setChild hchild catalog hkind)).mpr ?_
      exact listsSame_set (h.within_itemsOf step.place) hchild catalog (ih below hrest) _

/-- No node around a replaced one hides that its intent changed. -/
theorem Catalog.sameWith_of_replaceAt (h : tree.Catalog) (hold : tree.occupant? address = some old)
    (hkind : old.kind ≠ .attribute) (hnew : new.Catalog) (kind : new.kind = old.kind)
    (same : sameWith symbolOf options tree (tree.replaceAt address new) = true) :
    sameWith symbolOf options old new = true := by
  induction address generalizing tree with
  | nil =>
      obtain rfl : tree = old := Option.some.inj hold
      exact same
  | cons step rest ih =>
      obtain ⟨child, hchild, hrest⟩ := occupant?_cons_eq_some.mp hold
      have below := h.of_mem_parts (mem_parts_of_child? hchild)
      obtain ⟨hkind', catalog, -⟩ := below.replaceAt hrest hnew kind
      -- An attribute holds no other node, so the child is none either.
      have other : child.kind ≠ .attribute := by
        intro isAttribute
        cases rest with
        | nil =>
            obtain rfl : child = old := Option.some.inj hrest
            exact hkind isAttribute
        | cons next _ =>
            obtain ⟨grandchild, found, -⟩ := occupant?_cons_eq_some.mp hrest
            rw [child?, below.itemsOf_of_attribute isAttribute] at found
            simp at found
      rw [replaceAt_cons hchild] at same
      have here := (h.sameWith_withItems_iff (by simp) (h.setChild hchild catalog hkind')).mp same
      exact ih below hrest (sameWith_of_listsSame_set (h.within_itemsOf step.place) hchild catalog
        (h.pairing_ne_coverage hchild other) here)

end Tree

/-- Replacing a node that is no attribute by one of its kind, at any depth, gives a tree of the
catalog with the new node at the address of the old one. The tree keeps its intent exactly if the
two nodes have the same. -/
theorem replacement_keeps_intent_iff {tree old new : Node} {address : Address}
    (htree : tree.Catalog) (hold : tree.occupant? address = some old)
    (hkind : old.kind ≠ .attribute) (hnew : new.Catalog) (kind : new.kind = old.kind)
    (identified : Identified (tree.declsWith (tree.replaceAt address new)))
    {symbolOf : Header → Option Symbol} (options : CompareOptions)
    (s₁ : Steady symbolOf options tree (tree.replaceAt address new))
    (s₂ : Steady symbolOf options old new) :
    (tree.replaceAt address new).Catalog ∧
      (tree.replaceAt address new).occupant? address = some new ∧
      ((tree.sameIntent options (tree.replaceAt address new) s₁).1 = true ↔
        (old.sameIntent options new s₂).1 = true) := by
  obtain ⟨-, catalog, found⟩ := htree.replaceAt hold hnew kind
  refine ⟨catalog, found, ?_⟩
  have within : old.declsWith new ⊆ tree.declsWith (tree.replaceAt address new) :=
    declsWith_subset (mem_nodes_of_occupant? hold) (mem_nodes_of_occupant? found)
  rw [sameIntent_of_steady identified s₁, sameIntent_of_steady (identified.mono within) s₂]
  constructor
  · exact htree.sameWith_of_replaceAt hold hkind hnew kind
  · exact htree.sameWith_replaceAt hold hnew

/-- A class with two nested ones, of which the second has only methods called `g`. -/
def sampleOuter : Node :=
  (sampleClass 1 ["f"]).setList .nested
    ⟨⟨1⟩, [sampleClass 11 ["f", "g"], sampleClass 21 ["g", "g"]]⟩

def sampleMethod : Node :=
  ofHeader { id := ⟨31⟩, name := "g", handle := .synthetic "method" } (.method {})

/-- The first method of the first nested class. -/
def sampleAddress : Address := [⟨.list .nested, 0⟩, ⟨.list .methods, 0⟩]

/-- With the method replaced the two nested classes have the same intent, and still the class around
them has lost its own. -/
theorem replacement_keeps_intent_iff_of_nested_method :
    ∃ old, sampleOuter.occupant? sampleAddress = some old ∧
      (old.sameIntent {} sampleMethod sampleResolution).1 = false ∧
      (sampleOuter.sameIntent {} (sampleOuter.replaceAt sampleAddress sampleMethod)
        sampleResolution).1 = false := by
  obtain ⟨old, hold⟩ : ∃ old, sampleOuter.occupant? sampleAddress = some old := ⟨_, rfl⟩
  have found := Option.some.inj hold
  have kind : sampleMethod.kind = old.kind := by
    rw [← found]
    rfl
  have differ : (old.sameIntent {} sampleMethod sampleResolution).1 = false := by
    rw [← found]
    decide +kernel
  have unchanged : Resolution.Unchanged (old.declsWith sampleMethod) sampleResolution
      (old.mismatch? {} sampleMethod sampleResolution).2 := by
    rw [← found]
    decide +kernel
  obtain ⟨-, -, keeps⟩ := replacement_keeps_intent_iff (by decide +kernel) hold
    (by rw [← kind]; decide) (by decide +kernel) kind (by decide +kernel) {}
    (⟨sampleResolution, fun _ _ => rfl, by decide +kernel⟩ : Steady sampleSymbol _ _ _)
    ⟨sampleResolution, fun _ _ => rfl, unchanged⟩
  refine ⟨old, hold, differ, ?_⟩
  rw [← Bool.not_eq_true, keeps, differ]
  decide

end DeclTree.Node
