import DeclTree.Intent.Expectation
import DeclTree.Proofs.Intent.Equivalence
import DeclTree.Proofs.Intent.Lazy

/-!
# The diagnosis in both directions

A comparison looks at the facets of the left node only, and pairs members off in the order of the
left list. All the same it reports one diagnosis whichever node stands on the left, as long as
nodes of one kind expose the same facets. Among nodes of the catalog every check is an
equivalence. A probe has no members, so of the nodes below it only the type is left, which is
compared in the same way.
-/

namespace DeclTree

open Matching

namespace Matching

variable {α : Type}

/-- Coverage asks the same of both sides, whatever the test. -/
theorem coversBoth_comm (test : α → α → Bool) (left right : List α) :
    coversBoth test left right = coversBoth test right left := by
  simp only [coversBoth, BEq.comm (a := left.length), Bool.and_assoc]
  rw [Bool.and_comm (covers test left right)]

end Matching

theorem optionAlike_comm {α : Type} {test : α → α → Bool} {a b : Option α}
    (h : ∀ x ∈ a, ∀ y ∈ b, test x y = test y x) : optionAlike test a b = optionAlike test b a := by
  cases a <;> cases b <;> simp_all [optionAlike]

namespace Node

/-- Nodes of one type expose the same facets. -/
def FacetsAlike (nodes : List Node) : Prop :=
  ∀ a ∈ nodes, ∀ b ∈ nodes, a.body.sameType b.body = true → a.facets = b.facets

instance (nodes : List Node) : Decidable (FacetsAlike nodes) :=
  inferInstanceAs
    (Decidable (∀ a ∈ nodes, ∀ b ∈ nodes, a.body.sameType b.body = true → a.facets = b.facets))

theorem exposes_eq_of_facets_eq {a b : Node} (h : a.facets = b.facets) (facet : Facet) :
    a.exposes facet = b.exposes facet := by
  have := congrArg (FacetSet.contains · facet) h
  simpa [facets] using this

/-- In the catalog the kind decides the facets. -/
theorem facetsAlike_of_catalog {nodes : List Node} (h : ∀ node ∈ nodes, node.Catalog) :
    FacetsAlike nodes := by
  intro a ha b hb same
  have hk : a.kind = b.kind := (Body.sameType_iff.mp same).1
  rw [(h a ha).facets_eq, (h b hb).facets_eq, hk]

section Stateless

variable (symbolOf : Header → Option Symbol) (options : CompareOptions)

theorem facetSame_comm {same : Node → Node → Bool} {left right : Node}
    (types : ∀ l ∈ left.parts, ∀ r ∈ right.parts, same l r = same r l) (facet : Facet) :
    facetSame symbolOf same left right facet = facetSame symbolOf same right left facet := by
  cases facet with
  | namespaced | accessModifier | isStatic | memberTraits => exact BEq.comm
  | attributes => exact optionAlike_comm fun _ _ _ _ => coversBoth_comm _ _ _
  | returnType =>
      refine optionAlike_comm fun l hl r hr => optionAlike_comm fun a ha b hb => ?_
      obtain rfl : l = some a := ha
      obtain rfl : r = some b := hb
      exact types a (mem_parts_of_type? hl) b (mem_parts_of_type? hr)

theorem Shaped.contentSame_probe {same : Node → Node → Bool} {left right : Node}
    (h : left.Shaped) (hk : left.kind = .probe) :
    contentSame same left right = left.body.sameContent right.body := by
  have roles : left.memberRoles = [] := by
    simp only [Shaped, hk] at h
    have none : [Place.heldAttributes, Place.heldType].filterMap Place.memberRole? = [] := rfl
    have sub := h.filterMap Place.memberRole?
    rw [none] at sub
    exact List.sublist_nil.mp sub
  rw [contentSame, roles, List.all_nil, Bool.and_true]

/-- Between probes the order of the two does not matter, if it does not for their types. -/
theorem verdicts_comm_of_probe {same : Node → Node → Bool} {left right : Node}
    (hleft : left.Shaped) (hright : right.Shaped) (hk : left.kind = .probe)
    (hk' : right.kind = .probe)
    (types : ∀ l ∈ left.parts, ∀ r ∈ right.parts, same l r = same r l) :
    verdicts symbolOf options same left right = verdicts symbolOf options same right left := by
  refine List.map_congr_left fun test htest => ?_
  simp only [tests, List.cons_append, List.nil_append, List.mem_cons, List.mem_append,
    List.mem_map, List.not_mem_nil, or_false] at htest
  rw [Prod.mk.injEq]
  refine ⟨rfl, ?_⟩
  rcases htest with rfl | rfl | ⟨facet, -, rfl⟩ | rfl | rfl
  · exact congrArg₂ (· && ·) BEq.comm BEq.comm
  · exact BEq.comm
  · exact facetSame_comm symbolOf types facet
  · exact congrArg (!options.annotations || ·)
      (AnnotationStore.equivalent_equivalenceOn.comm trivial trivial)
  · change contentSame same left right = contentSame same right left
    rw [hleft.contentSame_probe hk, hright.contentSame_probe hk']
    exact (Body.sameContent_equivalenceOn .probe).comm hk hk'

theorem verdicts_comm_of_catalog {left right : Node} (hleft : left.Catalog)
    (hright : right.Catalog) (hk : left.kind = right.kind) :
    verdicts symbolOf options (sameWith symbolOf options) left right =
      verdicts symbolOf options (sameWith symbolOf options) right left := by
  refine List.map_congr_left fun test htest => ?_
  have laws := tests_equivalenceOn (sameWith_equivalenceOn symbolOf options) symbolOf options
    left.kind test htest
  rw [laws.comm (hleft.above rfl) (hright.above hk.symm)]

/-- Left and right can be exchanged. -/
theorem mismatchWith_comm {left right : Node} (hleft : left.WellFormed)
    (hright : right.WellFormed) (alike : FacetsAlike (left.nodes ++ right.nodes)) :
    mismatchWith symbolOf options left right = mismatchWith symbolOf options right left := by
  induction left using Node.induction generalizing right with
  | step left ih =>
      cases same : left.body.sameType right.body with
      | true =>
        have hk : left.kind = right.kind := (Body.sameType_iff.mp same).1
        have facets : left.facets = right.facets :=
          alike left (by simp [self_mem_nodes]) right (by simp [self_mem_nodes]) same
        have exposed := exposes_eq_of_facets_eq facets
        rw [mismatchWith_eq symbolOf options exposed hleft.shaped.nodup_places,
          mismatchWith_eq symbolOf options (fun facet => (exposed facet).symm)
            hright.shaped.nodup_places]
        congr 1
        by_cases probe : left.kind = .probe
        · refine verdicts_comm_of_probe symbolOf options hleft.shaped hright.shaped probe
            (hk ▸ probe) fun l hl r hr => ?_
          have below : FacetsAlike (l.nodes ++ r.nodes) := by
            have sub : ∀ node ∈ l.nodes ++ r.nodes, node ∈ left.nodes ++ right.nodes := by
              intro node hnode
              rcases List.mem_append.mp hnode with hnode | hnode
              · exact List.mem_append_left _ (mem_nodes_of_mem_parts hl hnode)
              · exact List.mem_append_right _ (mem_nodes_of_mem_parts hr hnode)
            exact fun a ha b hb => alike a (sub a ha) b (sub b hb)
          rw [sameWith, sameWith,
            ih l hl (hleft.of_mem_parts hl) (hright.of_mem_parts hr) below]
        · exact verdicts_comm_of_catalog symbolOf options ⟨probe, hleft⟩ ⟨hk ▸ probe, hright⟩ hk
      | false =>
        have same' : right.body.sameType left.body = false :=
          (congrArg₂ (· && ·) BEq.comm BEq.comm).trans same
        rw [mismatchWith_of_not_sameType symbolOf options same,
          mismatchWith_of_not_sameType symbolOf options same']

end Stateless

end Node

/-! ## Lazy comparisons and expectations -/

namespace Expectation

/-- A single outcome as the answer to an expectation. -/
def judge (expectation : Expectation) (check : String) (outcome : Option Mismatch) :
    Except CheckFailure Unit :=
  if outcome = expectation.expected then .ok ()
  else .error ⟨check, "expected " ++ Mismatch.outcomeText expectation.expected ++ ", got " ++
    Mismatch.outcomeText outcome⟩

/-- When both directions agree, only the one outcome is judged. -/
theorem fst_verify_of_eq (expectation : Expectation) (check : String) {left right : Node}
    {state : Resolution}
    (agree : (left.mismatch? expectation.options right state).1 =
      (right.mismatch? expectation.options left
        (left.mismatch? expectation.options right state).2).1) :
    (expectation.verify check left right state).1 =
      expectation.judge check (left.mismatch? expectation.options right state).1 := by
  rcases forward : left.mismatch? expectation.options right state with ⟨outcome, middle⟩
  rcases backward : right.mismatch? expectation.options left middle with ⟨outcome', last⟩
  simp only [forward, backward] at agree
  subst agree
  simp only [verify, bind, StateT.bind, forward, backward]
  rw [complaint?, judge, if_neg (by simp)]
  by_cases met : outcome = expectation.expected
  · rw [if_neg (by simpa using met), if_pos met]
    rfl
  · rw [if_pos met, if_neg met]
    rfl

end Expectation

end DeclTree
