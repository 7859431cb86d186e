import DeclTree.Proofs.Intent.Symmetry

/-!
# Laws of comparison

The laws of the stateless comparison, carried over to comparisons that ask resolvers. A law about
several comparisons lets each of them start in a state of its own, as long as all of them find the
same symbols and no answer changes during a comparison; since the symbols are still there
afterwards, the comparisons may also be made one after the other.
-/

namespace DeclTree

namespace Expectation

variable {symbolOf : Header → Option Symbol} {left right : Node}

/-- An expectation about nodes with one diagnosis for both directions judges that diagnosis. -/
theorem fst_verify_of_steady (identified : Node.Identified (left.declsWith right))
    (expectation : Expectation) (check : String)
    (comm : Node.mismatchWith symbolOf expectation.options left right =
      Node.mismatchWith symbolOf expectation.options right left)
    (s : Resolution.Steady symbolOf (left.declsWith right)
      (expectation.verify check left right)) :
    (left.mismatch? expectation.options right s).1 =
        Node.mismatchWith symbolOf expectation.options left right ∧
      (expectation.verify check left right s).1 =
        expectation.judge check (left.mismatch? expectation.options right s).1 := by
  have forward := Node.reading_mismatch? symbolOf identified (List.Subset.refl _)
    expectation.options
  have backward := Node.reading_mismatch? symbolOf identified (Node.declsWith_comm_subset left right)
    expectation.options
  obtain ⟨here, there⟩ := s.2.of_bind identified forward.1 fun _ =>
    backward.1.bind fun _ => by split <;> exact .pure _
  obtain ⟨there, -⟩ := there.of_bind identified backward.1 fun _ => by split <;> exact .pure _
  have report := forward.2 s here
  have agree := report.trans (comm.trans (backward.2 _ there).symm)
  exact ⟨report, expectation.fst_verify_of_eq check agree⟩

end Expectation

namespace Node

/-- A class whose symbol stands in the registry of the handle source. Its methods are numbered from
its own number on. -/
def sampleClass (number : Nat) (methods : List String) : Node :=
  (ofHeader
    { id := ⟨number⟩, name := "C", handle := .parsed ⟨1⟩ "class" {}, resolver := some .source }
    (.typeDecl {})).setList .methods
      ⟨⟨number⟩, methods.mapIdx fun index name =>
        ofHeader
          { id := ⟨number + 1 + index⟩, name, handle := .synthetic "method",
            parent := some ⟨number⟩ }
          (.method {})⟩

def sampleTrees : List Node :=
  [sampleClass 1 ["f", "g"], sampleClass 4 ["g", "f"], sampleClass 7 ["f", "f"],
    sampleClass 10 ["f", "f"]]

/-- Knows the symbol of the sample classes. -/
def sampleResolution : Resolution :=
  { source := { registry := { symbols := ⟨[(⟨1⟩, { name := "C", namespaceName := "N" })]⟩ } } }

def sampleSymbol (header : Header) : Option Symbol := header.effectiveSymbol sampleResolution

/-- Same intent is an equivalence on trees of the catalog, and a report does not change when the
nodes compared are replaced by others of the same intent. Comparisons can be chained: the symbols
are still there after each of them, and answers that no requests change let every comparison among
the trees find them. -/
theorem reports_respect_sameIntent {trees : List Node} (catalog : ∀ tree ∈ trees, tree.Catalog)
    (identified : Identified (trees.flatMap typeDecls)) (symbolOf : Header → Option Symbol)
    (options : CompareOptions) :
    (∀ n ∈ trees, ∀ s : Steady symbolOf options n n, (n.mismatch? options n s).1 = none) ∧
    (∀ l ∈ trees, ∀ l' ∈ trees, ∀ r ∈ trees, ∀ r' ∈ trees,
      ∀ (s₁ : Steady symbolOf options l l') (s₂ : Steady symbolOf options r r')
        (s₃ : Steady symbolOf options l r) (s₄ : Steady symbolOf options l' r'),
        (l.sameIntent options l' s₁).1 = true → (r.sameIntent options r' s₂).1 = true →
          (l.mismatch? options r s₃).1 = (l'.mismatch? options r' s₄).1) ∧
    (∀ a ∈ trees, ∀ s : Steady symbolOf options a a, (a.sameIntent options a s).1 = true) ∧
    (∀ a ∈ trees, ∀ b ∈ trees,
      ∀ (s₁ : Steady symbolOf options a b) (s₂ : Steady symbolOf options b a),
        (a.sameIntent options b s₁).1 = true → (b.sameIntent options a s₂).1 = true) ∧
    (∀ a ∈ trees, ∀ b ∈ trees, ∀ c ∈ trees,
      ∀ (s₁ : Steady symbolOf options a b) (s₂ : Steady symbolOf options b c)
        (s₃ : Steady symbolOf options a c),
        (a.sameIntent options b s₁).1 = true → (b.sameIntent options c s₂).1 = true →
          (a.sameIntent options c s₃).1 = true) ∧
    (∀ a ∈ trees, ∀ b ∈ trees,
      ∀ s : Resolution.Steady symbolOf (trees.flatMap typeDecls) (a.mismatch? options b),
      ∀ node ∈ trees.flatMap typeDecls,
        node.header.effectiveSymbol (a.mismatch? options b s).2 = symbolOf node.header) ∧
    (∀ state : Resolution, state.Reads symbolOf (trees.flatMap typeDecls) →
      ∀ a ∈ trees, ∀ b ∈ trees,
        state.SteadyFor symbolOf (a.declsWith b) (a.mismatch? options b) ∧
          (a.mismatch? options b state).2.Reads symbolOf (trees.flatMap typeDecls)) := by
  have laws := sameWith_equivalenceOn symbolOf options
  have reads : ∀ {l r}, l ∈ trees → r ∈ trees →
      ReadsOnly (trees.flatMap typeDecls) (l.mismatch? options r) := fun hl hr =>
    readsOnly_mismatch? (declsWith_subset_flatMap hl hr) options
  have report : ∀ {l r}, l ∈ trees → r ∈ trees → ∀ s : Steady symbolOf options l r,
      (l.mismatch? options r s).1 = mismatchWith symbolOf options l r := fun hl hr s =>
    mismatch?_of_steady (identified.mono (declsWith_subset_flatMap hl hr)) s
  have same : ∀ {l r}, l ∈ trees → r ∈ trees → ∀ s : Steady symbolOf options l r,
      (l.sameIntent options r s).1 = sameWith symbolOf options l r := fun hl hr s =>
    sameIntent_of_steady (identified.mono (declsWith_subset_flatMap hl hr)) s
  refine ⟨?_, ?_, ?_, ?_, ?_, ?_, ?_⟩
  · intro n hn s
    have itself := laws.refl (catalog n hn)
    rw [sameWith, Option.isNone_iff_eq_none] at itself
    rw [report hn hn s, itself]
  · intro l hl l' hl' r hr r' hr' s₁ s₂ s₃ s₄ sameLeft sameRight
    rw [same hl hl' s₁] at sameLeft
    rw [same hr hr' s₂] at sameRight
    rw [report hl hr s₃, report hl' hr' s₄]
    exact mismatchWith_congr symbolOf options (catalog l hl) (catalog l' hl') (catalog r hr)
      (catalog r' hr') sameLeft sameRight
  · intro a ha s
    rw [same ha ha s]
    exact laws.refl (catalog a ha)
  · intro a ha b hb s₁ s₂ hab
    rw [same ha hb s₁] at hab
    rw [same hb ha s₂]
    exact laws.symm (catalog a ha) (catalog b hb) hab
  · intro a ha b hb c hc s₁ s₂ s₃ hab hbc
    rw [same ha hb s₁] at hab
    rw [same hb hc s₂] at hbc
    rw [same ha hc s₃]
    exact laws.trans (catalog a ha) (catalog b hb) (catalog c hc) hab hbc
  · intro a ha b hb s
    exact s.2.symbols_after identified (reads ha hb)
  · intro state settled a ha b hb
    exact ⟨(settled.steadyFor (reads ha hb)).mono (declsWith_subset_flatMap ha hb),
      settled.after identified (reads ha hb)⟩

/-- Methods in another order make no difference to the report. -/
theorem reports_respect_sameIntent_of_reordered_methods :
    ((sampleClass 1 ["f", "g"]).sameIntent {} (sampleClass 4 ["g", "f"]) sampleResolution).1 =
        true ∧
      ((sampleClass 7 ["f", "f"]).sameIntent {} (sampleClass 10 ["f", "f"]) sampleResolution).1 =
        true ∧
      ((sampleClass 1 ["f", "g"]).mismatch? {} (sampleClass 7 ["f", "f"]) sampleResolution).1 =
        ((sampleClass 4 ["g", "f"]).mismatch? {} (sampleClass 10 ["f", "f"]) sampleResolution).1 := by
  have sameLeft : ((sampleClass 1 ["f", "g"]).sameIntent {} (sampleClass 4 ["g", "f"])
      sampleResolution).1 = true := by decide +kernel
  have sameRight : ((sampleClass 7 ["f", "f"]).sameIntent {} (sampleClass 10 ["f", "f"])
      sampleResolution).1 = true := by decide +kernel
  have catalog : ∀ tree ∈ sampleTrees, tree.Catalog := by decide +kernel
  have identified : Identified (sampleTrees.flatMap typeDecls) := by decide +kernel
  have settled : sampleResolution.Reads sampleSymbol (sampleTrees.flatMap typeDecls) :=
    .of_refusals_eq_zero (by decide +kernel)
  obtain ⟨-, respect, -, -, -, -, steady⟩ :=
    reports_respect_sameIntent catalog identified sampleSymbol {}
  have one : sampleClass 1 ["f", "g"] ∈ sampleTrees := by simp [sampleTrees]
  have two : sampleClass 4 ["g", "f"] ∈ sampleTrees := by simp [sampleTrees]
  have three : sampleClass 7 ["f", "f"] ∈ sampleTrees := by simp [sampleTrees]
  have four : sampleClass 10 ["f", "f"] ∈ sampleTrees := by simp [sampleTrees]
  have start := fun {a b} ha hb => (steady sampleResolution settled a ha b hb).1
  exact ⟨sameLeft, sameRight, respect _ one _ two _ three _ four ⟨_, start one two⟩
    ⟨_, start three four⟩ ⟨_, start one three⟩ ⟨_, start two four⟩ sameLeft sameRight⟩

/-- Whichever node stands on the left, a comparison reports the same, as long as nodes of one type
expose the same facets. Nodes of the catalog always do. An expectation about such nodes never
finds the two directions apart, and is met in both directions or in neither. -/
theorem diagnosis_of_both_directions (left right : Node) (hleft : left.WellFormed)
    (hright : right.WellFormed) (identified : Identified (left.declsWith right))
    (symbolOf : Header → Option Symbol) :
    (left.Catalog → right.Catalog → FacetsAlike (left.nodes ++ right.nodes)) ∧
    (FacetsAlike (left.nodes ++ right.nodes) →
      (∀ options (s₁ : Steady symbolOf options left right) (s₂ : Steady symbolOf options right left),
        (left.mismatch? options right s₁).1 = (right.mismatch? options left s₂).1) ∧
      ∀ (expectation : Expectation) (check : String)
        (s₁ : Resolution.Steady symbolOf (left.declsWith right)
          (expectation.verify check left right))
        (s₂ : Resolution.Steady symbolOf (right.declsWith left)
          (expectation.verify check right left)),
          (expectation.verify check left right s₁).1 =
            expectation.judge check (left.mismatch? expectation.options right s₁).1 ∧
          ((expectation.verify check left right s₁).1 = .ok () ↔
            (expectation.verify check right left s₂).1 = .ok ())) := by
  have identified' := identified.mono (declsWith_comm_subset left right)
  refine ⟨fun catalog catalog' => ?_, fun alike => ?_⟩
  · refine facetsAlike_of_catalog fun node hnode => ?_
    exact (List.mem_append.mp hnode).elim catalog.of_mem_nodes catalog'.of_mem_nodes
  · have comm := fun options => mismatchWith_comm symbolOf options hleft hright alike
    refine ⟨fun options s₁ s₂ => ?_, fun expectation check s₁ s₂ => ?_⟩
    · rw [mismatch?_of_steady identified s₁, mismatch?_of_steady identified' s₂, comm options]
    · obtain ⟨forward, judged⟩ :=
        expectation.fst_verify_of_steady identified check (comm _) s₁
      obtain ⟨backward, judged'⟩ :=
        expectation.fst_verify_of_steady identified' check (comm _).symm s₂
      refine ⟨judged, ?_⟩
      rw [judged, judged', forward, backward, comm]

/-- A node of a type outside the catalog that holds a sample class as its type. -/
def sampleProbe (number : Nat) (methods : List String) : Node :=
  { ofHeader { id := ⟨number⟩, name := "P", handle := .synthetic "probe" }
      (.probe { type := "gauge", content := "dial" }) with
    branches := [.heldType (some (sampleClass (number + 1) methods))] }

/-- Two probes that hold different classes fail in their types, from both sides. -/
theorem diagnosis_of_both_directions_of_probes :
    FacetsAlike ((sampleProbe 1 ["f", "g"]).nodes ++ (sampleProbe 5 ["g", "g"]).nodes) ∧
      ((sampleProbe 1 ["f", "g"]).mismatch? {} (sampleProbe 5 ["g", "g"]) sampleResolution).1 =
        some (.facet .returnType) ∧
      ((sampleProbe 1 ["f", "g"]).mismatch? {} (sampleProbe 5 ["g", "g"]) sampleResolution).1 =
        ((sampleProbe 5 ["g", "g"]).mismatch? {} (sampleProbe 1 ["f", "g"]) sampleResolution).1 := by
  have alike : FacetsAlike ((sampleProbe 1 ["f", "g"]).nodes ++ (sampleProbe 5 ["g", "g"]).nodes) :=
    by decide +kernel
  obtain ⟨-, directions⟩ := diagnosis_of_both_directions (sampleProbe 1 ["f", "g"])
    (sampleProbe 5 ["g", "g"]) (by decide +kernel) (by decide +kernel) (by decide +kernel)
    sampleSymbol
  exact ⟨alike, by decide +kernel, (directions alike).1 {}
    ⟨sampleResolution, fun _ _ => rfl, by decide +kernel⟩
    ⟨sampleResolution, fun _ _ => rfl, by decide +kernel⟩⟩

end Node

end DeclTree
