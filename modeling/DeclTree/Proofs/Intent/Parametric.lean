import DeclTree.Field
import DeclTree.Proofs.Shape
import Mathlib.Data.List.Forall2

/-!
# Comparisons in related monads

The comparison is written over any monad, and all it knows of the monad is `pure` and `bind`.
So if computations of two monads are related in a way that `pure` and `bind` respect, and finding
the symbols of type declarations is related, then the two comparisons are related as well. No
other node is ever asked for its symbol by a comparison. A look at a field is related likewise.
-/

namespace DeclTree

/-- A relation between computations of two monads that is kept by `pure` and `bind`. -/
structure MonadRelation (m m' : Type → Type) [Monad m] [Monad m'] where
  rel : {α : Type} → m α → m' α → Prop
  pure : ∀ {α : Type} (a : α), rel (Pure.pure a) (Pure.pure a)
  bind : ∀ {α β : Type} {x : m α} {x' : m' α} {f : α → m β} {f' : α → m' β},
    rel x x' → (∀ a, rel (f a) (f' a)) → rel (x >>= f) (x' >>= f')

namespace MonadRelation

variable {m m' : Type → Type} [Monad m] [Monad m'] (R : MonadRelation m m')
variable {α β : Type}

theorem map [LawfulMonad m] [LawfulMonad m'] {x : m α} {x' : m' α} (h : R.rel x x') (f : α → β) :
    R.rel (f <$> x) (f <$> x') := by
  rw [map_eq_pure_bind, map_eq_pure_bind]
  exact R.bind h fun a => R.pure (f a)

theorem ite {x y : m α} {x' y' : m' α} (condition : Bool) (hx : R.rel x x') (hy : R.rel y y') :
    R.rel (if condition then x else y) (if condition then x' else y') := by
  cases condition
  · exact hy
  · exact hx

/-! ## Matching -/

open Matching

theorem both {x y : m Bool} {x' y' : m' Bool} (hx : R.rel x x') (hy : R.rel y y') :
    R.rel (both x y) (both x' y') :=
  R.bind hx fun holds => R.ite holds hy (R.pure false)

theorem provided {x : m Bool} {x' : m' Bool} (condition : Bool) (h : R.rel x x') :
    R.rel (provided condition x) (provided condition x') :=
  R.ite condition h (R.pure false)

theorem allM {f : α → m Bool} {f' : α → m' Bool} {items : List α}
    (h : ∀ a ∈ items, R.rel (f a) (f' a)) : R.rel (items.allM f) (items.allM f') := by
  induction items with
  | nil => exact R.pure true
  | cons a items ih =>
      rw [List.forall_mem_cons] at h
      refine R.bind h.1 fun holds => ?_
      cases holds with
      | true => exact ih h.2
      | false => exact R.pure false

theorem anyM {f : α → m Bool} {f' : α → m' Bool} {items : List α}
    (h : ∀ a ∈ items, R.rel (f a) (f' a)) : R.rel (items.anyM f) (items.anyM f') := by
  induction items with
  | nil => exact R.pure false
  | cons a items ih =>
      rw [List.forall_mem_cons] at h
      refine R.bind h.1 fun holds => ?_
      cases holds with
      | true => exact R.pure true
      | false => exact ih h.2

theorem coversBothM {f : α → α → m Bool} {f' : α → α → m' Bool} {left right : List α}
    (forth : ∀ a ∈ left, ∀ b ∈ right, R.rel (f a b) (f' a b))
    (back : ∀ b ∈ right, ∀ a ∈ left, R.rel (f b a) (f' b a)) :
    R.rel (coversBothM f left right) (coversBothM f' left right) :=
  R.provided _ <| R.both
    (R.allM fun a ha => R.anyM fun b hb => forth a ha b hb)
    (R.allM fun b hb => R.anyM fun a ha => back b hb a ha)

theorem orderedM {f : α → β → m Bool} {f' : α → β → m' Bool} {left : List α} {right : List β}
    (h : ∀ a ∈ left, ∀ b ∈ right, R.rel (f a b) (f' a b)) :
    R.rel (orderedM f left right) (orderedM f' left right) := by
  refine R.provided _ (R.allM fun pair hpair => ?_)
  exact h pair.1 (List.of_mem_zip hpair).1 pair.2 (List.of_mem_zip hpair).2

variable [LawfulMonad m] [LawfulMonad m']

/-- Removals are related as runs that only ever leave entries of the list. -/
theorem removeFirstM {f : β → m Bool} {f' : β → m' Bool} {items : List β}
    (h : ∀ b ∈ items, R.rel (f b) (f' b)) :
    ∃ (run : m (Option { rest : List β // rest ⊆ items }))
      (run' : m' (Option { rest : List β // rest ⊆ items })),
      R.rel run run' ∧ removeFirstM f items = Option.map Subtype.val <$> run ∧
        removeFirstM f' items = Option.map Subtype.val <$> run' := by
  induction items with
  | nil =>
      refine ⟨Pure.pure none, Pure.pure none, R.pure none, ?_, ?_⟩ <;>
        simp [Matching.removeFirstM]
  | cons b items ih =>
      rw [List.forall_mem_cons] at h
      obtain ⟨run, run', hrun, eq, eq'⟩ := ih h.2
      let keep : { rest : List β // rest ⊆ items } → { rest : List β // rest ⊆ b :: items } :=
        fun rest => ⟨b :: rest.1, List.cons_subset_cons b rest.2⟩
      let found : { rest : List β // rest ⊆ b :: items } := ⟨items, List.subset_cons_self b items⟩
      refine ⟨do if ← f b then Pure.pure (some found) else Option.map keep <$> run,
        do if ← f' b then Pure.pure (some found) else Option.map keep <$> run', ?_, ?_, ?_⟩
      · exact R.bind h.1 fun holds => R.ite holds (R.pure _) (R.map hrun _)
      · simp only [Matching.removeFirstM, eq, map_bind]
        refine bind_congr fun holds => ?_
        cases holds <;> simp [found, keep, Function.comp_def]
      · simp only [Matching.removeFirstM, eq', map_bind]
        refine bind_congr fun holds => ?_
        cases holds <;> simp [found, keep, Function.comp_def]

theorem pairOffM {f : α → β → m Bool} {f' : α → β → m' Bool} {left : List α} {right : List β}
    (h : ∀ a ∈ left, ∀ b ∈ right, R.rel (f a b) (f' a b)) :
    R.rel (pairOffM f left right) (pairOffM f' left right) := by
  induction left generalizing right with
  | nil => exact R.pure true
  | cons a left ih =>
      rw [List.forall_mem_cons] at h
      obtain ⟨run, run', hrun, eq, eq'⟩ := R.removeFirstM h.1
      simp only [Matching.pairOffM, eq, eq', bind_map_left]
      refine R.bind hrun fun rest => ?_
      cases rest with
      | none => exact R.pure false
      | some rest => exact ih fun c hc b hb => h.2 c hc b (rest.2 hb)

theorem unorderedM {f : α → β → m Bool} {f' : α → β → m' Bool} {left : List α} {right : List β}
    (h : ∀ a ∈ left, ∀ b ∈ right, R.rel (f a b) (f' a b)) :
    R.rel (unorderedM f left right) (unorderedM f' left right) :=
  R.provided _ (R.pairOffM h)

/-! ## Checks -/

omit [LawfulMonad m] [LawfulMonad m'] in
theorem firstFailing {checks : List (Mismatch × m Bool)} {checks' : List (Mismatch × m' Bool)}
    (h : List.Forall₂ (fun c c' => c.1 = c'.1 ∧ R.rel c.2 c'.2) checks checks') :
    R.rel (firstFailing checks) (firstFailing checks') := by
  induction h with
  | nil => exact R.pure none
  | @cons c c' _ _ head _ ih =>
      obtain ⟨mismatch, check⟩ := c
      obtain ⟨mismatch', check'⟩ := c'
      obtain ⟨rfl, hcheck⟩ : mismatch = mismatch' ∧ R.rel check check' := head
      exact R.bind hcheck fun holds => R.ite holds ih (R.pure _)

section Checks

open Node

variable {symbolOf : Header → m (Option Symbol)} {symbolOf' : Header → m' (Option Symbol)}
variable {same : Node → Node → m Bool} {same' : Node → Node → m' Bool}

omit [LawfulMonad m] [LawfulMonad m'] in
theorem readAlike {read : α → m (Option String)} {read' : α → m' (Option String)} {left right : α}
    (hleft : R.rel (read left) (read' left)) (hright : R.rel (read right) (read' right)) :
    R.rel (readAlike read left right) (readAlike read' left right) :=
  R.bind hleft fun _ => R.bind hright fun _ => R.pure _

/-- The names of a source can be found in both monads alike. -/
def NamesRelated (symbolOf : Header → m (Option Symbol)) (symbolOf' : Header → m' (Option Symbol))
    (source : NameSource) : Prop :=
  ∀ header, source = .symbolOf header → R.rel (symbolOf header) (symbolOf' header)

section Names

variable {R} {source : NameSource}

omit [LawfulMonad m] [LawfulMonad m'] in
theorem NamesRelated.outerName (h : R.NamesRelated symbolOf symbolOf' source) :
    R.rel (source.outerNameBy symbolOf) (source.outerNameBy symbolOf') := by
  cases source with
  | symbolOf header => exact R.bind (h header rfl) fun _ => R.pure _
  | fixed names => exact R.pure _

omit [LawfulMonad m] [LawfulMonad m'] in
theorem NamesRelated.namespaceName (h : R.NamesRelated symbolOf symbolOf' source) :
    R.rel (source.namespaceNameBy symbolOf) (source.namespaceNameBy symbolOf') := by
  cases source with
  | symbolOf header => exact R.bind (h header rfl) fun _ => R.pure _
  | fixed names => exact R.pure _

omit [LawfulMonad m] [LawfulMonad m'] in
theorem NamesRelated.qualifiedName (h : R.NamesRelated symbolOf symbolOf' source) :
    R.rel (source.qualifiedNameBy symbolOf) (source.qualifiedNameBy symbolOf') := by
  cases source with
  | symbolOf header => exact R.bind (h header rfl) fun _ => R.pure _
  | fixed names => exact R.pure _

end Names

omit [LawfulMonad m] [LawfulMonad m'] in
theorem namesAlike {left right : NameSource} (hleft : R.NamesRelated symbolOf symbolOf' left)
    (hright : R.NamesRelated symbolOf symbolOf' right) :
    R.rel (namesAlike symbolOf left right) (namesAlike symbolOf' left right) :=
  R.both (R.readAlike hleft.outerName hright.outerName) <|
    R.both (R.readAlike hleft.namespaceName hright.namespaceName)
      (R.readAlike hleft.qualifiedName hright.qualifiedName)

theorem listsAlike {left right : List Node} (pairing : Pairing)
    (h : ∀ l ∈ left, ∀ r ∈ right, R.rel (same l r) (same' l r) ∧ R.rel (same r l) (same' r l)) :
    R.rel (listsAlike same pairing left right) (listsAlike same' pairing left right) := by
  cases pairing with
  | ordered => exact R.orderedM fun l hl r hr => (h l hl r hr).1
  | unordered => exact R.unorderedM fun l hl r hr => (h l hl r hr).1
  | coverage =>
      refine R.coversBothM (fun l hl r hr => ?_) (fun r hr l hl => ?_)
      · exact R.provided _ (h l hl r hr).1
      · exact R.provided _ (h l hl r hr).2

/-- All comparisons of a part of the one node with a part of the other are related. -/
def RelatedBelow (same : Node → Node → m Bool) (same' : Node → Node → m' Bool)
    (left right : Node) : Prop :=
  ∀ l ∈ left.parts, ∀ r ∈ right.parts, R.rel (same l r) (same' l r) ∧ R.rel (same r l) (same' r l)

/-- The symbol of a node is found in both monads alike, if it is ever asked for. -/
def SymbolRelated (symbolOf : Header → m (Option Symbol)) (symbolOf' : Header → m' (Option Symbol))
    (node : Node) : Prop :=
  node.kind = .typeDecl → R.rel (symbolOf node.header) (symbolOf' node.header)

omit [LawfulMonad m] [LawfulMonad m'] in
theorem SymbolRelated.names {R : MonadRelation m m'} {node : Node} {source : NameSource}
    (h : R.SymbolRelated symbolOf symbolOf' node) (hnames : node.names? = some source) :
    R.NamesRelated symbolOf symbolOf' source := by
  rintro header rfl
  obtain ⟨nodeHeader, body, branches⟩ := node
  cases body <;> simp_all [names?, SymbolRelated, Node.kind, Body.kind]

theorem facetAlike {left right : Node} (hleft : R.SymbolRelated symbolOf symbolOf' left)
    (hright : R.SymbolRelated symbolOf symbolOf' right) (below : R.RelatedBelow same same' left right)
    (facet : Facet) :
    R.rel (facetAlike symbolOf same left right facet)
      (facetAlike symbolOf' same' left right facet) := by
  cases facet with
  | namespaced =>
      simp only [Node.facetAlike]
      split
      next l r hl hr => exact R.namesAlike (hleft.names hl) (hright.names hr)
      · exact R.pure false
  | accessModifier | isStatic | memberTraits =>
      simp only [Node.facetAlike]
      split <;> exact R.pure _
  | attributes =>
      simp only [Node.facetAlike]
      split
      next l r hl hr =>
        exact R.listsAlike .coverage fun a ha b hb =>
          below a (mem_parts_of_attributes? hl ha) b (mem_parts_of_attributes? hr hb)
      · exact R.pure false
  | returnType =>
      simp only [Node.facetAlike]
      split
      next l r hl hr => exact (below l (mem_parts_of_type? hl) r (mem_parts_of_type? hr)).1
      · exact R.pure true
      · exact R.pure false

theorem contentAlike {left right : Node} (below : R.RelatedBelow same same' left right) :
    R.rel (contentAlike same left right) (contentAlike same' left right) := by
  refine R.provided _ (R.allM fun member hmember => ?_)
  exact R.listsAlike _ fun a ha b hb =>
    below a (mem_parts_of_members hmember ha) b (mem_parts_of_itemsIn hb)

theorem checks {left right : Node} (options : CompareOptions)
    (hleft : R.SymbolRelated symbolOf symbolOf' left)
    (hright : R.SymbolRelated symbolOf symbolOf' right)
    (below : R.RelatedBelow same same' left right) :
    R.rel (DeclTree.firstFailing (checks symbolOf options left right same))
      (DeclTree.firstFailing (checks symbolOf' options left right same')) := by
  refine R.firstFailing ?_
  have facets : List.Forall₂ (fun c c' => c.1 = c'.1 ∧ R.rel c.2 c'.2)
      (Facet.all.map (facetCheck symbolOf same left right))
      (Facet.all.map (facetCheck symbolOf' same' left right)) := by
    rw [List.forall₂_map_left_iff, List.forall₂_map_right_iff, List.forall₂_same]
    intro facet _
    exact ⟨rfl, R.ite _ (R.facetAlike hleft hright below facet) (R.pure true)⟩
  refine List.rel_append (List.rel_append ?_ facets) ?_
  · exact .cons ⟨rfl, R.pure _⟩ (.cons ⟨rfl, R.pure _⟩ .nil)
  · exact .cons ⟨rfl, R.pure _⟩ (.cons ⟨rfl, R.contentAlike below⟩ .nil)

/-- Related ways to find the symbols of the type declarations make related comparisons. -/
theorem mismatchBy {left right : Node} (options : CompareOptions)
    (hleft : ∀ node ∈ left.nodes, R.SymbolRelated symbolOf symbolOf' node)
    (hright : ∀ node ∈ right.nodes, R.SymbolRelated symbolOf symbolOf' node) :
    R.rel (mismatchBy symbolOf options left right) (mismatchBy symbolOf' options left right) := by
  induction height : left.height + right.height using Nat.strongRecOn
    generalizing left right with
  | _ height' ih =>
      rw [mismatchBy_eq, mismatchBy_eq]
      refine R.checks options (hleft left left.self_mem_nodes) (hright right right.self_mem_nodes) ?_
      intro l hl r hr
      have lowerLeft := height_lt_of_mem_parts hl
      have lowerRight := height_lt_of_mem_parts hr
      have symbolsLeft : ∀ node ∈ l.nodes, R.SymbolRelated symbolOf symbolOf' node :=
        fun node hnode => hleft node (mem_nodes_of_mem_parts hl hnode)
      have symbolsRight : ∀ node ∈ r.nodes, R.SymbolRelated symbolOf symbolOf' node :=
        fun node hnode => hright node (mem_nodes_of_mem_parts hr hnode)
      constructor
      · exact R.map (ih _ (by omega) symbolsLeft symbolsRight rfl) _
      · exact R.map (ih _ (by omega) symbolsRight symbolsLeft rfl) _

/-! ## Fields -/

omit [LawfulMonad m] [LawfulMonad m'] in
/-- Apart from the outer name, only a type declaration needs its symbol. -/
theorem fieldBy {node : Node} {field : Field} (names : R.SymbolRelated symbolOf symbolOf' node)
    (outer : field = .outerName → R.rel (symbolOf node.header) (symbolOf' node.header)) :
    R.rel (node.fieldBy symbolOf field) (node.fieldBy symbolOf' field) := by
  cases field with
  | outerName => exact R.bind (R.bind (outer rfl) fun _ => R.pure _) fun _ => R.pure _
  | namespaceName =>
      simp only [Node.fieldBy]
      split
      next source hsource => exact R.bind (names.names hsource).namespaceName fun _ => R.pure _
      next => exact R.pure none
  | qualifiedName =>
      simp only [Node.fieldBy]
      split
      next source hsource => exact R.bind (names.names hsource).qualifiedName fun _ => R.pure _
      next => exact R.pure none
  | _ => exact R.pure _

end Checks

end MonadRelation

end DeclTree
