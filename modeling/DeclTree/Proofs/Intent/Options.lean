import DeclTree.Proofs.Intent.Laws
import DeclTree.Proofs.Matching.OneToOne
import DeclTree.Proofs.Running

/-!
# Comparisons that leave annotations out

Leaving annotations out only makes a comparison looser. Since the option holds at every depth, each
check that compares nodes below gets looser too, and a check that comes before the annotations may
be the one that changes. Members that are paired off may then get other partners, so nothing is
known about single choices; but a pairing that exists for the stricter comparison is also one for
the looser comparison, and the greedy search finds a pairing if there is one.

Outcomes are ordered by the check that fails. The looser comparison never fails earlier.
-/

namespace DeclTree

open Matching

/-! ## The order of outcomes -/

namespace Mismatch

/-- All mismatches in the order of their checks. -/
def inOrder : List Mismatch :=
  [.shape, .name] ++ Facet.all.map .facet ++ [.annotations, .content]

/-- All outcomes of a comparison in the order of the checks. No mismatch comes last. -/
def outcomes : List (Option Mismatch) := inOrder.map some ++ [none]

theorem mem_inOrder (mismatch : Mismatch) : mismatch ∈ inOrder := by
  cases mismatch with
  | facet facet => simp [inOrder, Facet.mem_all]
  | shape | name | annotations | content => simp [inOrder]

/-- The first entry that passes a test comes as late as its position says. -/
theorem idxOf_find? (test : Mismatch → Bool) (order : List Mismatch) :
    (order.map some ++ [none]).idxOf (order.find? test) = order.findIdx test := by
  induction order with
  | nil => rfl
  | cons mismatch order ih =>
      rw [List.find?_cons, List.findIdx_cons, List.map_cons, List.cons_append]
      cases passes : test mismatch with
      | true => exact List.idxOf_cons_self
      | false =>
          have later : some mismatch ≠ order.find? test := by
            intro found
            rw [List.find?_some found.symm] at passes
            contradiction
          rw [List.idxOf_cons_ne _ later, ih]
          rfl

end Mismatch

theorem firstFalse_map (holds : Mismatch → Bool) (order : List Mismatch) :
    firstFalse (order.map fun mismatch => (mismatch, holds mismatch)) =
      order.find? fun mismatch => !holds mismatch := by
  induction order with
  | nil => rfl
  | cons mismatch order ih => cases h : holds mismatch <;> simp [firstFalse, h, ih]

/-! ## Looser tests -/

theorem Matching.covers_imp {α : Type} {test looser : α → α → Bool} {source target : List α}
    (imp : ∀ a ∈ source, ∀ b ∈ target, test a b = true → looser a b = true)
    (h : covers test source target = true) : covers looser source target = true := by
  simp only [covers, List.all_eq_true, List.any_eq_true] at h ⊢
  intro a ha
  obtain ⟨b, hb, passes⟩ := h a ha
  exact ⟨b, hb, imp a ha b hb passes⟩

theorem Matching.coversBoth_imp {α : Type} {test looser : α → α → Bool} {left right : List α}
    (forth : ∀ a ∈ left, ∀ b ∈ right, test a b = true → looser a b = true)
    (back : ∀ b ∈ right, ∀ a ∈ left, test b a = true → looser b a = true)
    (h : coversBoth test left right = true) : coversBoth looser left right = true := by
  simp only [coversBoth, Bool.and_eq_true] at h ⊢
  obtain ⟨⟨length, covered⟩, covering⟩ := h
  exact ⟨⟨length, covers_imp forth covered⟩, covers_imp back covering⟩

theorem optionAlike_imp {α : Type} {test looser : α → α → Bool} {left right : Option α}
    (imp : ∀ a, left = some a → ∀ b, right = some b → test a b = true → looser a b = true)
    (h : optionAlike test left right = true) : optionAlike looser left right = true := by
  cases left with
  | none => cases right <;> exact h
  | some a =>
      cases right with
      | none => exact h
      | some b => exact imp a rfl b rfl h

namespace Node

/-- Whether two nodes pass the check that reports the mismatch. -/
def passes (symbolOf : Header → Option Symbol) (options : CompareOptions)
    (same : Node → Node → Bool) (left right : Node) : Mismatch → Bool
  | .shape => left.body.sameType right.body
  | .name => left.name == right.name
  | .facet facet => facetSame symbolOf same left right facet
  | .annotations =>
      !options.annotations || left.header.annotations.equivalent right.header.annotations
  | .content => contentSame same left right

theorem Catalog.mismatchWith_eq_find? {left right : Node} (hleft : left.Catalog)
    (hright : right.Catalog) (kind : left.kind = right.kind) (symbolOf : Header → Option Symbol)
    (options : CompareOptions) :
    mismatchWith symbolOf options left right = Mismatch.inOrder.find? fun mismatch =>
      !passes symbolOf options (sameWith symbolOf options) left right mismatch := by
  rw [(hleft.above rfl).mismatchWith_eq symbolOf options (hright.above kind.symm), ← firstFalse_map]
  rfl

theorem Catalog.sameWith_iff_passes {left right : Node} (hleft : left.Catalog)
    (hright : right.Catalog) (kind : left.kind = right.kind) (symbolOf : Header → Option Symbol)
    (options : CompareOptions) :
    sameWith symbolOf options left right = true ↔
      ∀ mismatch, passes symbolOf options (sameWith symbolOf options) left right mismatch = true := by
  rw [sameWith, hleft.mismatchWith_eq_find? hright kind, Option.isNone_iff_eq_none,
    List.find?_eq_none]
  simp [Mismatch.mem_inOrder]

section Level

variable {D : Node → Prop} {same looser : Node → Node → Bool} (laws : EquivalenceOn D looser)
variable (imp : ∀ {l r}, D l → D r → same l r = true → looser l r = true)

include laws imp

theorem listsSame_imp (pairing : Pairing) {left right : List Node} (hleft : Within D left)
    (hright : Within D right) (h : listsSame same pairing left right = true) :
    listsSame looser pairing left right = true := by
  cases pairing with
  | ordered =>
      rw [listsSame, ordered_iff] at h ⊢
      exact forall₂_imp_of_mem (fun l hl r hr => imp (hleft l hl) (hright r hr)) h
  | unordered =>
      -- The two runs need not choose the same partners.
      have paired := (oneToOne_of_unordered h).imp fun l hl r hr => imp (hleft l hl) (hright r hr)
      exact (unordered_iff_oneToOne laws hleft hright).mpr paired
  | coverage =>
      refine coversBoth_imp (fun l hl r hr both => ?_) (fun r hr l hl both => ?_) h
      · rw [Bool.and_eq_true] at both ⊢
        exact ⟨both.1, imp (hleft l hl) (hright r hr) both.2⟩
      · rw [Bool.and_eq_true] at both ⊢
        exact ⟨both.1, imp (hright r hr) (hleft l hl) both.2⟩

variable {left right : Node} (hleft : ∀ part ∈ left.parts, D part)
variable (hright : ∀ part ∈ right.parts, D part)

include hleft hright

theorem facetSame_imp (symbolOf : Header → Option Symbol) {facet : Facet}
    (h : facetSame symbolOf same left right facet = true) :
    facetSame symbolOf looser left right facet = true := by
  cases facet with
  | namespaced | accessModifier | isStatic | memberTraits => exact h
  | attributes =>
      refine optionAlike_imp (fun l hl r hr => ?_) h
      exact listsSame_imp laws imp .coverage
        (fun part hpart => hleft part (mem_parts_of_attributes? hl hpart))
        (fun part hpart => hright part (mem_parts_of_attributes? hr hpart))
  | returnType =>
      refine optionAlike_imp (fun l hl r hr => optionAlike_imp fun a ha b hb => ?_) h
      rw [ha] at hl
      rw [hb] at hr
      exact imp (hleft a (mem_parts_of_type? hl)) (hright b (mem_parts_of_type? hr))

theorem contentSame_imp (h : contentSame same left right = true) :
    contentSame looser left right = true := by
  rw [contentSame, Bool.and_eq_true, List.all_eq_true] at h ⊢
  refine ⟨h.1, fun role hrole => ?_⟩
  exact listsSame_imp laws imp role.pairing
    (fun part hpart => hleft part (mem_parts_of_itemsIn hpart))
    (fun part hpart => hright part (mem_parts_of_itemsIn hpart)) (h.2 role hrole)

theorem passes_imp (symbolOf : Header → Option Symbol) {options fewer : CompareOptions}
    (less : fewer.annotations = true → options.annotations = true) {mismatch : Mismatch}
    (h : passes symbolOf options same left right mismatch = true) :
    passes symbolOf fewer looser left right mismatch = true := by
  cases mismatch with
  | shape | name => exact h
  | facet facet => exact facetSame_imp laws imp hleft hright symbolOf h
  | annotations =>
      rw [passes, Bool.or_eq_true, Bool.not_eq_true'] at h ⊢
      cases hfewer : fewer.annotations with
      | false => exact .inl rfl
      | true =>
          rw [less hfewer] at h
          exact h
  | content => exact contentSame_imp laws imp hleft hright h

end Level

/-! ## Fewer options -/

section Fewer

variable (symbolOf : Header → Option Symbol) {options fewer : CompareOptions}
variable (less : fewer.annotations = true → options.annotations = true)

include less

theorem sameWith_imp_height (height : Nat) : ∀ {left right : Node},
    left.Catalog ∧ left.height < height → right.Catalog ∧ right.height < height →
      sameWith symbolOf options left right = true → sameWith symbolOf fewer left right = true := by
  induction height with
  | zero => omega
  | succ height ih =>
      intro left right hleft hright same
      have kind := kind_eq_of_sameWith symbolOf options same
      rw [hleft.1.sameWith_iff_passes hright.1 kind] at same ⊢
      have laws : EquivalenceOn (fun node : Node => node.Catalog ∧ node.height < height)
          (sameWith symbolOf fewer) := (sameWith_equivalenceOn symbolOf fewer).mono And.left
      intro mismatch
      refine passes_imp laws ih (fun part hpart => ?_) (fun part hpart => ?_) symbolOf less
        (same mismatch)
      · have := height_lt_of_mem_parts hpart
        exact ⟨hleft.1.of_mem_parts hpart, by omega⟩
      · have := height_lt_of_mem_parts hpart
        exact ⟨hright.1.of_mem_parts hpart, by omega⟩

variable {left right : Node} (hleft : left.Catalog) (hright : right.Catalog)

include hleft hright

theorem sameWith_imp (same : sameWith symbolOf options left right = true) :
    sameWith symbolOf fewer left right = true :=
  sameWith_imp_height symbolOf less (left.height + right.height + 1) ⟨hleft, by omega⟩
    ⟨hright, by omega⟩ same

/-- With fewer options a comparison fails no earlier. -/
theorem idxOf_mismatchWith_le :
    Mismatch.outcomes.idxOf (mismatchWith symbolOf options left right) ≤
      Mismatch.outcomes.idxOf (mismatchWith symbolOf fewer left right) := by
  by_cases kind : left.kind = right.kind
  · rw [hleft.mismatchWith_eq_find? hright kind, hleft.mismatchWith_eq_find? hright kind,
      Mismatch.outcomes, Mismatch.idxOf_find?, Mismatch.idxOf_find?]
    refine List.findIdx_le_findIdx fun mismatch _ fails => ?_
    rw [Bool.not_eq_true'] at fails ⊢
    rw [Bool.eq_false_iff] at fails ⊢
    intro holds
    refine fails (passes_imp (sameWith_equivalenceOn symbolOf fewer)
      (sameWith_imp symbolOf less) (fun _ => hleft.of_mem_parts) (fun _ => hright.of_mem_parts)
      symbolOf less holds)
  · rw [mismatchWith_of_kind_ne symbolOf options kind, mismatchWith_of_kind_ne symbolOf fewer kind]

end Fewer

/-! ## Trees without annotations -/

/-- No node of the tree carries an annotation. -/
def Bare (tree : Node) : Prop := ∀ node ∈ tree.nodes, node.header.annotations.entries = []

instance (tree : Node) : Decidable tree.Bare :=
  inferInstanceAs (Decidable (∀ node ∈ tree.nodes, node.header.annotations.entries = []))

theorem Bare.of_mem_parts {node part : Node} (h : node.Bare) (hpart : part ∈ node.parts) :
    part.Bare :=
  fun _ hnode => h _ (mem_nodes_of_mem_parts hpart hnode)

theorem Bare.equivalent {left right : Node} (hleft : left.Bare) (hright : right.Bare) :
    left.header.annotations.equivalent right.header.annotations = true := by
  have emptyLeft := hleft left left.self_mem_nodes
  have emptyRight := hright right right.self_mem_nodes
  simp [AnnotationStore.equivalent, coversBoth, covers, emptyLeft, emptyRight]

/-- Without annotations the options make no difference, in whatever monad symbols are found. -/
theorem Bare.mismatchBy_eq {m : Type → Type} [Monad m] [LawfulMonad m]
    (symbolOf : Header → m (Option Symbol)) (options others : CompareOptions) {left right : Node}
    (hleft : left.Bare) (hright : right.Bare) :
    mismatchBy symbolOf options left right = mismatchBy symbolOf others left right := by
  induction height : left.height + right.height using Nat.strongRecOn
    generalizing left right with
  | _ height' ih =>
      have below : AgreeBelow (sameIntentBy symbolOf options) (sameIntentBy symbolOf others)
          left right := by
        intro l hl r hr
        have lowerLeft := height_lt_of_mem_parts hl
        have lowerRight := height_lt_of_mem_parts hr
        have bareLeft := hleft.of_mem_parts hl
        have bareRight := hright.of_mem_parts hr
        constructor
        · rw [sameIntentBy, sameIntentBy, ih _ (by omega) bareLeft bareRight rfl]
        · rw [sameIntentBy, sameIntentBy, ih _ (by omega) bareRight bareLeft rfl]
      rw [Node.mismatchBy_eq, Node.mismatchBy_eq, checks_congr below]
      simp only [checks, hleft.equivalent hright, Bool.or_true]

/-! ## Comparisons with resolvers -/

/-- Leaving annotations out only loosens a comparison: it fails no earlier, it accepts whatever was
accepted before, and on trees without annotations it comes to the same. -/
theorem without_annotations_fails_no_earlier {left right : Node} (hleft : left.Catalog)
    (hright : right.Catalog) (identified : Identified (left.declsWith right))
    {symbolOf : Header → Option Symbol} (s : Steady symbolOf { annotations := true } left right)
    (t : Steady symbolOf { annotations := false } left right) :
    Mismatch.outcomes.idxOf (left.mismatch? { annotations := true } right s).1 ≤
        Mismatch.outcomes.idxOf (left.mismatch? { annotations := false } right t).1 ∧
      ((left.sameIntent { annotations := true } right s).1 = true →
        (left.sameIntent { annotations := false } right t).1 = true) ∧
      (left.Bare → right.Bare →
        (left.mismatch? { annotations := true } right s).1 =
          (left.mismatch? { annotations := false } right t).1) := by
  have less : ({ annotations := false } : CompareOptions).annotations = true →
      ({ annotations := true } : CompareOptions).annotations = true := fun _ => rfl
  rw [mismatch?_of_steady identified s, mismatch?_of_steady identified t,
    sameIntent_of_steady identified s, sameIntent_of_steady identified t]
  refine ⟨?_, ?_, ?_⟩
  · exact idxOf_mismatchWith_le symbolOf less hleft hright
  · exact sameWith_imp symbolOf less hleft hright
  · intro bareLeft bareRight
    exact Bare.mismatchBy_eq (m := Id) symbolOf _ _ bareLeft bareRight

/-- A class with one method, and one attribute that carries an annotation. -/
def sampleNoted (number : Nat) (note method : String) : Node :=
  (sampleClass number [method]).setList .attributes
    ⟨⟨number⟩, [ofHeader
      { id := ⟨number + 2⟩, name := "A", handle := .synthetic "attribute",
        parent := some ⟨number⟩, annotations := ⟨[⟨⟨number⟩, "note", .string note⟩]⟩ }
      (.attribute [])]⟩

/-- The annotation of the attribute decides about the attributes of the class. Without it, the
method is what differs. -/
theorem without_annotations_fails_no_earlier_of_sampleNoted :
    ((sampleNoted 1 "a" "f").mismatch? { annotations := true } (sampleNoted 4 "b" "g")
        sampleResolution).1 = some (.facet .attributes) ∧
      ((sampleNoted 1 "a" "f").mismatch? { annotations := false } (sampleNoted 4 "b" "g")
        sampleResolution).1 = some .content ∧
      Mismatch.outcomes.idxOf (some (.facet .attributes)) ≤
        Mismatch.outcomes.idxOf (some .content) ∧
      ((sampleNoted 1 "a" "f").sameIntent { annotations := false } (sampleNoted 4 "a" "f")
        sampleResolution).1 = true ∧
      ((sampleClass 1 ["f"]).mismatch? { annotations := true } (sampleClass 4 ["g"])
          sampleResolution).1 =
        ((sampleClass 1 ["f"]).mismatch? { annotations := false } (sampleClass 4 ["g"])
          sampleResolution).1 := by
  have strict : ((sampleNoted 1 "a" "f").mismatch? { annotations := true } (sampleNoted 4 "b" "g")
      sampleResolution).1 = some (.facet .attributes) := by decide +kernel
  have loose : ((sampleNoted 1 "a" "f").mismatch? { annotations := false } (sampleNoted 4 "b" "g")
      sampleResolution).1 = some .content := by decide +kernel
  have accepted : ((sampleNoted 1 "a" "f").sameIntent { annotations := true }
      (sampleNoted 4 "a" "f") sampleResolution).1 = true := by decide +kernel
  have steady : ∀ left right : Node,
      (∀ node ∈ left.declsWith right, ∀ id ∈ node.header.resolver,
        sampleResolution.refusals id = 0) →
      ∀ options, sampleResolution.SteadyFor sampleSymbol (left.declsWith right)
        (left.mismatch? options right) := fun left right answers options =>
    (Resolution.Reads.of_refusals_eq_zero answers).steadyFor
      (readsOnly_mismatch? (List.Subset.refl (left.declsWith right)) options)
  have noted := steady (sampleNoted 1 "a" "f") (sampleNoted 4 "b" "g") (by decide +kernel)
  have alike := steady (sampleNoted 1 "a" "f") (sampleNoted 4 "a" "f") (by decide +kernel)
  have plain := steady (sampleClass 1 ["f"]) (sampleClass 4 ["g"]) (by decide +kernel)
  have order := (without_annotations_fails_no_earlier (by decide +kernel) (by decide +kernel)
    (by decide +kernel) ⟨_, noted _⟩ ⟨_, noted _⟩).1
  have same := (without_annotations_fails_no_earlier (by decide +kernel) (by decide +kernel)
    (by decide +kernel) ⟨_, alike _⟩ ⟨_, alike _⟩).2.1 accepted
  have bare := (without_annotations_fails_no_earlier (by decide +kernel) (by decide +kernel)
    (by decide +kernel) ⟨_, plain _⟩ ⟨_, plain _⟩).2.2 (by decide +kernel) (by decide +kernel)
  rw [strict, loose] at order
  exact ⟨strict, loose, order, same, bare⟩

end Node

end DeclTree
