import DeclTree.Intent.Comparison

/-!
# What a comparison looks at

The checks of two nodes compare only nodes that hang on the branches of the two. Such nodes are
lower than the ones they hang on, so the comparison unfolds without its guard: `mismatchBy_eq`
states its checks with the comparison itself for the nodes below.
-/

namespace DeclTree.Node

/-! ## Nodes on the branches -/

theorem mem_parts_of_mem_branch {node part : Node} {branch : Branch Node}
    (hbranch : branch ∈ node.branches) (hpart : part ∈ branch.items) : part ∈ node.parts :=
  List.mem_flatMap.mpr ⟨branch, hbranch, hpart⟩

theorem mem_parts_of_list? {node part : Node} {role : Role} {list : ChildList Node}
    (h : node.list? role = some list) (hpart : part ∈ list.items) : part ∈ node.parts := by
  obtain ⟨branch, hbranch, found⟩ := List.exists_of_findSome?_eq_some h
  refine mem_parts_of_mem_branch hbranch ?_
  match branch, found with
  | .list r children, found =>
      by_cases hr : r = role
      · simp only [hr, if_true, Option.some.injEq] at found
        simpa [Branch.items, found] using hpart
      · simp [hr] at found

theorem mem_parts_of_itemsIn {node part : Node} {role : Role}
    (hpart : part ∈ node.itemsIn role) : part ∈ node.parts := by
  unfold itemsIn at hpart
  cases h : node.list? role with
  | none => simp [h] at hpart
  | some list => exact mem_parts_of_list? h (by simpa [h] using hpart)

theorem mem_parts_of_attributes? {node part : Node} {attributes : List Node}
    (h : node.attributes? = some attributes) (hpart : part ∈ attributes) :
    part ∈ node.parts := by
  obtain ⟨branch, hbranch, found⟩ := List.exists_of_findSome?_eq_some h
  refine mem_parts_of_mem_branch hbranch ?_
  match branch, found with
  | .list .attributes children, found =>
      simp only [Option.some.injEq] at found
      simpa [Branch.items, found] using hpart
  | .heldAttributes items, found =>
      simp only [Option.some.injEq] at found
      simpa [Branch.items, found] using hpart

theorem mem_parts_of_type? {node type : Node} (h : node.type? = some (some type)) :
    type ∈ node.parts := by
  obtain ⟨branch, hbranch, found⟩ := List.exists_of_findSome?_eq_some h
  refine mem_parts_of_mem_branch hbranch ?_
  match branch, found with
  | .slot child, found =>
      simp only [Option.some.injEq] at found
      simp [Branch.items, found]
  | .heldType item, found =>
      simp only [Option.some.injEq] at found
      simp [Branch.items, found]

theorem mem_parts_of_members {node part : Node} {role : Role} {items : List Node}
    (h : (role, items) ∈ node.members) (hpart : part ∈ items) : part ∈ node.parts := by
  obtain ⟨branch, hbranch, found⟩ := List.mem_filterMap.mp h
  refine mem_parts_of_mem_branch hbranch ?_
  match branch with
  | .list r children =>
      cases r <;> simp_all [Branch.items]
  | .slot _ => simp at found
  | .heldAttributes _ => simp at found
  | .heldType _ => simp at found

/-! ## Checks -/

section Checks

variable {m : Type → Type} [Monad m] [LawfulMonad m]

/-- Two ways to compare nodes that agree on all nodes below `left` and `right`. -/
def AgreeBelow (same same' : Node → Node → m Bool) (left right : Node) : Prop :=
  ∀ l ∈ left.parts, ∀ r ∈ right.parts, same l r = same' l r ∧ same r l = same' r l

theorem listsAlike_congr {same same' : Node → Node → m Bool} {left right : List Node}
    (h : ∀ l ∈ left, ∀ r ∈ right, same l r = same' l r ∧ same r l = same' r l)
    (pairing : Pairing) :
    listsAlike same pairing left right = listsAlike same' pairing left right := by
  cases pairing with
  | ordered => exact Matching.orderedM_congr fun l hl r hr => (h l hl r hr).1
  | unordered => exact Matching.unorderedM_congr fun l hl r hr => (h l hl r hr).1
  | coverage =>
      refine Matching.coversBothM_congr (fun l hl r hr => ?_) (fun r hr l hl => ?_)
      · rw [(h l hl r hr).1]
      · rw [(h l hl r hr).2]

theorem facetAlike_congr {same same' : Node → Node → m Bool} {left right : Node}
    (h : AgreeBelow same same' left right) (symbolOf : Header → m (Option Symbol))
    (facet : Facet) :
    facetAlike symbolOf same left right facet = facetAlike symbolOf same' left right facet := by
  cases facet with
  | namespaced | accessModifier | isStatic | memberTraits => rfl
  | attributes =>
      simp only [facetAlike]
      split
      next l r hl hr =>
        exact listsAlike_congr (fun a ha b hb =>
          h a (mem_parts_of_attributes? hl ha) b (mem_parts_of_attributes? hr hb)) .coverage
      · rfl
  | returnType =>
      simp only [facetAlike]
      split
      next l r hl hr =>
        exact (h l (mem_parts_of_type? hl) r (mem_parts_of_type? hr)).1
      · rfl
      · rfl

theorem contentAlike_congr {same same' : Node → Node → m Bool} {left right : Node}
    (h : AgreeBelow same same' left right) :
    contentAlike same left right = contentAlike same' left right := by
  unfold contentAlike
  congr 1
  refine Matching.allM_congr fun member hmember => ?_
  exact listsAlike_congr (fun a ha b hb =>
    h a (mem_parts_of_members hmember ha) b (mem_parts_of_itemsIn hb)) _

/-- The checks compare no nodes but those below the two. -/
theorem checks_congr {same same' : Node → Node → m Bool} {left right : Node}
    (h : AgreeBelow same same' left right) (symbolOf : Header → m (Option Symbol))
    (options : CompareOptions) :
    checks symbolOf options left right same = checks symbolOf options left right same' := by
  have facets : facetCheck symbolOf same left right = facetCheck symbolOf same' left right := by
    funext facet
    simp only [facetCheck, facetAlike_congr h]
  simp only [checks, facets, contentAlike_congr h]

/-- The first failing check, where the nodes below are compared in the same way. -/
theorem mismatchBy_eq (symbolOf : Header → m (Option Symbol)) (options : CompareOptions)
    (left right : Node) :
    mismatchBy symbolOf options left right =
      firstFailing (checks symbolOf options left right (sameIntentBy symbolOf options)) := by
  rw [mismatchBy]
  congr 1
  refine checks_congr (fun l hl r hr => ?_) symbolOf options
  have hleft := height_lt_of_mem_parts hl
  have hright := height_lt_of_mem_parts hr
  constructor
  · rw [dif_pos (by omega)]
    rfl
  · rw [dif_pos (by omega)]
    rfl

end Checks

end DeclTree.Node
