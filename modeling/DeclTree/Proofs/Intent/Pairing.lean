import DeclTree.Proofs.Intent.Isomorphism
import DeclTree.Proofs.Matching.OneToOne

/-!
# Lists compared in any order

Comparisons of lists, stated against one-to-one pairings of nodes of the same intent. Members are
paired off greedily, and this finds a pairing whenever there is one. Attributes, annotations and
named arguments only have to cover each other, which is the same as long as one of the two sides has
no duplicates.

The comparisons ask resolvers while they run. As long as they find the same symbols they judge like
the test that compares two nodes on their own, each time in a state of its own.
-/

namespace DeclTree

open Matching

namespace Node

/-! ## Comparisons of lists without effects -/

section Steady

variable {symbolOf : Header → Option Symbol} {trees : List Node}

/-- For every two of the trees, a state in which their comparison finds these symbols. -/
abbrev SteadyAmong (symbolOf : Header → Option Symbol) (options : CompareOptions)
    (trees : List Node) : Type :=
  { state : Node → Node → Resolution // ∀ a ∈ trees, ∀ b ∈ trees,
    (state a b).SteadyFor symbolOf (a.declsWith b) (a.mismatch? options b) }

/-- Whether two nodes have the same intent when compared in their state. -/
def sameIn (options : CompareOptions) (state : Node → Node → Resolution) (left right : Node) :
    Bool :=
  (left.sameIntent options right (state left right)).1

theorem sameIn_eq (identified : Identified (trees.flatMap typeDecls)) {options : CompareOptions}
    (t : SteadyAmong symbolOf options trees) {left right : Node} (hleft : left ∈ trees)
    (hright : right ∈ trees) :
    sameIn options t.1 left right = sameWith symbolOf options left right :=
  sameIntent_of_steady (identified.mono (declsWith_subset_flatMap hleft hright))
    ⟨_, t.2 left hleft right hright⟩

theorem sameIn_equivalenceOn (catalog : ∀ tree ∈ trees, tree.Catalog)
    (identified : Identified (trees.flatMap typeDecls)) {options : CompareOptions}
    (t : SteadyAmong symbolOf options trees) :
    EquivalenceOn (fun tree => tree ∈ trees) (sameIn options t.1) :=
  ((sameWith_equivalenceOn symbolOf options).mono fun {tree} htree => catalog tree htree).of_eq
    fun hleft hright => sameIn_eq identified t hleft hright

/-- In a run, two trees compare as they do on their own. -/
theorem reading_sameIntent (identified : Identified (trees.flatMap typeDecls))
    {options : CompareOptions} (t : SteadyAmong symbolOf options trees) {left right : Node}
    (hleft : left ∈ trees) (hright : right ∈ trees) :
    (reading symbolOf identified).rel (left.sameIntent options right)
      (pure (sameIn options t.1 left right)) := by
  rw [sameIn_eq identified t hleft hright]
  exact (reading symbolOf identified).map (reading_mismatch? symbolOf identified
    (declsWith_subset_flatMap hleft hright) options) Option.isNone

variable {left right : List Node} (hleft : left ⊆ trees) (hright : right ⊆ trees)

include hleft hright

theorem fst_sameIntentUnordered (identified : Identified (trees.flatMap typeDecls))
    {options : CompareOptions}
    (s : Resolution.Steady symbolOf (trees.flatMap typeDecls)
      (sameIntentUnordered options left right))
    (t : SteadyAmong symbolOf options trees) :
    (sameIntentUnordered options left right s).1 = unordered (sameIn options t.1) left right := by
  have run := (reading symbolOf identified).unorderedM
    fun l hl r hr => reading_sameIntent identified t (hleft hl) (hright hr)
  rw [unorderedM_pure] at run
  exact run.2 s s.2

/-- Names need not be looked at apart: nodes of the same intent have one name. -/
theorem fst_listsAlike_coverage (catalog : ∀ tree ∈ trees, tree.Catalog)
    (identified : Identified (trees.flatMap typeDecls)) {options : CompareOptions}
    (s : Resolution.Steady symbolOf (trees.flatMap typeDecls)
      (listsAlike (sameIntent options) .coverage left right))
    (t : SteadyAmong symbolOf options trees) :
    (listsAlike (sameIntent options) .coverage left right s).1 =
      coversBoth (sameIn options t.1) left right := by
  have named : ∀ l ∈ trees, ∀ r ∈ trees,
      (reading symbolOf identified).rel
        (provided (l.name == r.name) (l.sameIntent options r)) (pure (sameIn options t.1 l r)) := by
    intro l hl r hr
    by_cases name : l.name = r.name
    · simp only [provided, name, beq_self_eq_true, if_true]
      exact reading_sameIntent identified t hl hr
    · have differ : sameIn options t.1 l r = false := by
        rw [sameIn_eq identified t hl hr, Bool.eq_false_iff]
        exact fun same => name (name_eq_of_sameWith (catalog l hl) (catalog r hr) same)
      simp only [provided, beq_eq_false_iff_ne.mpr name, differ]
      exact MonadRelation.pure _ false
  have run := (reading symbolOf identified).coversBothM
    (fun l hl r hr => named l (hleft hl) r (hright hr))
    (fun r hr l hl => named r (hright hr) l (hleft hl))
  rw [coversBothM_pure] at run
  exact run.2 s s.2

end Steady

/-! ## Members -/

/-- The greedy pairing of two lists succeeds exactly if there is a bijection of their positions that
pairs nodes of the same intent. So the order of the lists makes no difference. -/
theorem greedy_pairing_is_complete {left right : List Node}
    (catalog : ∀ node ∈ left ++ right, node.Catalog)
    (identified : Identified ((left ++ right).flatMap typeDecls))
    {symbolOf : Header → Option Symbol} (options : CompareOptions)
    (s : Resolution.Steady symbolOf ((left ++ right).flatMap typeDecls)
      (sameIntentUnordered options left right))
    (t : SteadyAmong symbolOf options (left ++ right)) :
    ((sameIntentUnordered options left right s).1 = true ↔
      ∃ σ : Fin left.length ≃ Fin right.length, ∀ i,
        ((left.get i).sameIntent options (right.get (σ i))
          (t.1 (left.get i) (right.get (σ i)))).1 = true) ∧
    ∀ left' right' : List Node, left'.Perm left → right'.Perm right →
      ∀ s' : Resolution.Steady symbolOf ((left ++ right).flatMap typeDecls)
        (sameIntentUnordered options left' right'),
      (sameIntentUnordered options left' right' s').1 =
        (sameIntentUnordered options left right s).1 := by
  have laws := sameIn_equivalenceOn catalog identified t
  have hleft := List.subset_append_left left right
  have hright := List.subset_append_right left right
  have judged := fst_sameIntentUnordered hleft hright identified s t
  refine ⟨?_, fun left' right' permLeft permRight s' => ?_⟩
  · rw [judged]
    exact unordered_iff_oneToOne laws hleft hright
  · have hleft' : left' ⊆ left ++ right := List.Subset.trans permLeft.subset hleft
    have hright' : right' ⊆ left ++ right := List.Subset.trans permRight.subset hright
    rw [judged, fst_sameIntentUnordered hleft' hright' identified s' t]
    exact unordered_congr_perm laws hleft hright permLeft permRight

/-- Every comparison among the nodes made in the sample resolution. -/
def sampleAmong (nodes : List Node)
    (unchanged : ∀ a ∈ nodes, ∀ b ∈ nodes, Resolution.Unchanged (a.declsWith b) sampleResolution
      (a.mismatch? {} b sampleResolution).2) : SteadyAmong sampleSymbol {} nodes :=
  ⟨fun _ _ => sampleResolution, fun a ha b hb => ⟨fun _ _ => rfl, unchanged a ha b hb⟩⟩

/-- Two classes of the same intent and a method. -/
def samplePool : List Node :=
  [sampleClass 1 ["f", "g"], sampleClass 4 ["g", "f"]] ++ (sampleClass 7 ["f"]).children

/-- The same in another order. -/
def sampleOtherPool : List Node :=
  (sampleClass 11 ["f"]).children ++ [sampleClass 14 ["g", "f"], sampleClass 17 ["f", "g"]]

/-- Each of the two classes could take either partner, and the method has only one. -/
theorem greedy_pairing_is_complete_of_samplePool :
    (sameIntentUnordered {} samplePool sampleOtherPool sampleResolution).1 = true ∧
      (∃ σ : Fin samplePool.length ≃ Fin sampleOtherPool.length, ∀ i,
        ((samplePool.get i).sameIntent {} (sampleOtherPool.get (σ i)) sampleResolution).1 = true) ∧
      (sameIntentUnordered {} samplePool.reverse sampleOtherPool sampleResolution).1 = true := by
  have paired : (sameIntentUnordered {} samplePool sampleOtherPool sampleResolution).1 = true := by
    decide +kernel
  obtain ⟨complete, order⟩ := greedy_pairing_is_complete (by decide +kernel) (by decide +kernel) {}
    ⟨sampleResolution, fun _ _ => rfl, by decide +kernel⟩
    (sampleAmong (samplePool ++ sampleOtherPool) (by decide +kernel))
  refine ⟨paired, complete.mp paired, ?_⟩
  rw [order _ _ (List.reverse_perm _) (.refl _)
    ⟨sampleResolution, fun _ _ => rfl, by decide +kernel⟩, paired]

end Node

/-! ## Attributes, annotations and named arguments -/

/-- The part of the comparison of arguments that deals with the named ones. -/
def Argument.namedAlike (left right : List Argument) : Bool :=
  coversBoth sameIntent (left.filter isNamed) (right.filter isNamed)

theorem Argument.sameIntentAll_eq (left right : List Argument) :
    sameIntentAll left right =
      (ordered sameIntent (left.filter fun argument => !argument.isNamed)
        (right.filter fun argument => !argument.isNamed) && namedAlike left right) :=
  rfl

/-- The three comparisons by coverage against pairings of their entries. Whatever can be paired one
to one is accepted, and if one side has no duplicates then nothing else is. -/
theorem coverage_against_pairing :
    (∀ left right : AnnotationStore,
      CoverageLaw Annotation.sameIntent left.entries right.entries (left.equivalent right)) ∧
    (∀ left right : List Argument,
      Argument.sameIntentAll left right =
        (ordered Argument.sameIntent (left.filter fun argument => !argument.isNamed)
          (right.filter fun argument => !argument.isNamed) && Argument.namedAlike left right) ∧
      CoverageLaw Argument.sameIntent (left.filter Argument.isNamed)
        (right.filter Argument.isNamed) (Argument.namedAlike left right)) ∧
    ∀ left right : List Node, (∀ node ∈ left ++ right, node.Catalog) →
      Node.Identified ((left ++ right).flatMap Node.typeDecls) →
      ∀ (symbolOf : Header → Option Symbol) (options : CompareOptions)
        (s : Resolution.Steady symbolOf ((left ++ right).flatMap Node.typeDecls)
          (Node.listsAlike (Node.sameIntent options) .coverage left right))
        (t : Node.SteadyAmong symbolOf options (left ++ right)),
        CoverageLaw (fun a b => (a.sameIntent options b (t.1 a b)).1) left right
          (Node.listsAlike (Node.sameIntent options) .coverage left right s).1 := by
  refine ⟨fun left right => ?_, fun left right => ⟨Argument.sameIntentAll_eq left right, ?_⟩, ?_⟩
  · exact coverageLaw Annotation.sameIntent_equivalenceOn (fun _ _ => trivial) fun _ _ => trivial
  · exact coverageLaw Argument.sameIntent_equivalenceOn (fun _ _ => trivial) fun _ _ => trivial
  · intro left right catalog identified symbolOf options s t
    have hleft := List.subset_append_left left right
    have hright := List.subset_append_right left right
    rw [Node.fst_listsAlike_coverage hleft hright catalog identified s t]
    exact coverageLaw (Node.sameIn_equivalenceOn catalog identified t) hleft hright

/-- The attributes of a sample class. -/
def sampleAttributes (number : Nat) (names : List String) : List Node :=
  (Node.sampleMarked number names []).itemsIn .attributes

/-- Whether two nodes have the same intent for the sample resolution. -/
def sampleSame : Node → Node → Bool := Node.sameIn {} fun _ _ => Node.sampleResolution

/-- A NaN and a zero under one key. -/
def sampleFloats (nan zero : UInt64) : AnnotationStore :=
  ⟨[⟨⟨1⟩, "k", .float ⟨nan⟩⟩, ⟨⟨2⟩, "k", .float ⟨zero⟩⟩]⟩

/-- Attributes that cover each other in unequal numbers repeat themselves on both sides. Attributes
and annotations that do not repeat themselves are paired. -/
theorem coverage_against_pairing_of_samples :
    (Node.listsAlike (Node.sameIntent {}) .coverage (sampleAttributes 1 ["A", "A", "B"])
        (sampleAttributes 21 ["A", "B", "B"]) Node.sampleResolution).1 = true ∧
      ¬ Distinct sampleSame (sampleAttributes 1 ["A", "A", "B"]) ∧
      ¬ Distinct sampleSame (sampleAttributes 21 ["A", "B", "B"]) ∧
      OneToOne sampleSame (sampleAttributes 1 ["A", "B"]) (sampleAttributes 21 ["B", "A"]) ∧
      OneToOne Annotation.sameIntent (sampleFloats 0x7ff8000000000000 0).entries
        (sampleFloats 0xfff8000000000001 0x8000000000000000).entries := by
  have covered : (Node.listsAlike (Node.sameIntent {}) .coverage
      (sampleAttributes 1 ["A", "A", "B"]) (sampleAttributes 21 ["A", "B", "B"])
      Node.sampleResolution).1 = true := by decide +kernel
  have covered' : (Node.listsAlike (Node.sameIntent {}) .coverage (sampleAttributes 1 ["A", "B"])
      (sampleAttributes 21 ["B", "A"]) Node.sampleResolution).1 = true := by decide +kernel
  obtain ⟨first, there, more⟩ : ∃ first ∈ (sampleAttributes 1 ["A", "A", "B"]).head?,
      (sampleAttributes 1 ["A", "A", "B"]).countP (sampleSame first) ≠
        (sampleAttributes 21 ["A", "B", "B"]).countP (sampleSame first) :=
    ⟨_, rfl, by decide +kernel⟩
  have distinct : Distinct sampleSame (sampleAttributes 1 ["A", "B"]) := by decide +kernel
  obtain ⟨stores, -, attributes⟩ := coverage_against_pairing
  have repeated := (attributes _ _ (by decide +kernel) (by decide +kernel) Node.sampleSymbol {}
    ⟨Node.sampleResolution, fun _ _ => rfl, by decide +kernel⟩
    (Node.sampleAmong _ (by decide +kernel))).duplicates covered first
      (List.mem_append_left _ (List.mem_of_mem_head? there)) more
  have paired := ((attributes _ _ (by decide +kernel) (by decide +kernel) Node.sampleSymbol {}
    ⟨Node.sampleResolution, fun _ _ => rfl, by decide +kernel⟩
    (Node.sampleAmong _ (by decide +kernel))).iff_of_distinct (.inl distinct)).mp covered'
  refine ⟨covered, repeated.1, repeated.2, paired, ?_⟩
  exact ((stores _ _).iff_of_distinct (.inl (by decide +kernel))).mp (by decide +kernel)

end DeclTree
