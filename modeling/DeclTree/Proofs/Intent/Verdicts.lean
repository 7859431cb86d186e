import DeclTree.Proofs.Body
import DeclTree.Proofs.Shape

/-!
# The stateless comparison as a list of verdicts

When symbols are given by a function, the checks of a comparison have no effects and become a
list of verdicts, of which the first false one is reported. Between nodes that expose the same
facets every verdict is a test on what the two nodes show, with left and right in like parts;
the facet loop, which is driven by the left node alone, no longer stands out.
-/

namespace DeclTree

open Matching

/-- The first verdict that is false. -/
def firstFalse : List (Mismatch × Bool) → Option Mismatch
  | [] => none
  | (mismatch, holds) :: rest => if holds then firstFalse rest else some mismatch

theorem firstFalse_eq_none_iff {verdicts : List (Mismatch × Bool)} :
    firstFalse verdicts = none ↔ ∀ verdict ∈ verdicts, verdict.2 = true := by
  induction verdicts with
  | nil => simp [firstFalse]
  | cons verdict rest ih =>
      cases h : verdict.2 <;> simp [firstFalse, h, ih]

theorem firstFailing_pure {m : Type → Type} [Monad m] [LawfulMonad m]
    (verdicts : List (Mismatch × Bool)) :
    firstFailing (verdicts.map fun verdict => (verdict.1, (pure verdict.2 : m Bool))) =
      pure (firstFalse verdicts) := by
  induction verdicts with
  | nil => rfl
  | cons verdict rest ih =>
      cases h : verdict.2 <;> simp [firstFailing, firstFalse, h, ih]

namespace Node

/-- Outer name, namespace and qualified name. -/
def NameSource.read (symbolOf : Header → Option Symbol) :
    NameSource → Option String × Option String × Option String
  | .symbolOf header =>
      ((symbolOf header).map fun symbol => symbol.outerName header.name,
        (symbolOf header).map Symbol.namespaceName,
        (symbolOf header).map fun symbol => symbol.qualifiedName header.name)
  | .fixed names => (names.outerName, names.namespaceName, names.qualifiedName)

/-- Compares two lists in the way that their role asks for. -/
def listsSame (same : Node → Node → Bool) : Pairing → List Node → List Node → Bool
  | .ordered => ordered same
  | .unordered => unordered same
  | .coverage => coversBoth fun a b => a.name == b.name && same a b

/-- Whether two nodes show the same under a facet. -/
def facetSame (symbolOf : Header → Option Symbol) (same : Node → Node → Bool)
    (left right : Node) : Facet → Bool
  | .namespaced =>
      left.names?.map (NameSource.read symbolOf) == right.names?.map (NameSource.read symbolOf)
  | .accessModifier => left.body.access? == right.body.access?
  | .attributes => optionAlike (listsSame same .coverage) left.attributes? right.attributes?
  | .isStatic => left.body.isStatic? == right.body.isStatic?
  | .returnType => optionAlike (optionAlike same) left.type? right.type?
  | .memberTraits => left.body.traits? == right.body.traits?

/-- The roles of the lists that no facet covers. -/
def memberRoles (node : Node) : List Role := node.places.filterMap Place.memberRole?

def contentSame (same : Node → Node → Bool) (left right : Node) : Bool :=
  left.body.sameContent right.body &&
    left.memberRoles.all fun role =>
      listsSame same role.pairing (left.itemsIn role) (right.itemsIn role)

/-- The tests behind the checks, in their order. -/
def tests (symbolOf : Header → Option Symbol) (options : CompareOptions)
    (same : Node → Node → Bool) : List (Mismatch × (Node → Node → Bool)) :=
  [(.shape, fun left right => left.body.sameType right.body),
    (.name, fun left right => left.name == right.name)] ++
  Facet.all.map (fun facet =>
    (.facet facet, fun left right => facetSame symbolOf same left right facet)) ++
  [(.annotations, fun left right =>
      !options.annotations || left.header.annotations.equivalent right.header.annotations),
    (.content, contentSame same)]

/-- One verdict for each check. -/
def verdicts (symbolOf : Header → Option Symbol) (options : CompareOptions)
    (same : Node → Node → Bool) (left right : Node) : List (Mismatch × Bool) :=
  (tests symbolOf options same).map fun test => (test.1, test.2 left right)

/-- Whether no check fails when symbols are given by a function. -/
def sameWith (symbolOf : Header → Option Symbol) (options : CompareOptions)
    (left right : Node) : Bool :=
  (mismatchWith symbolOf options left right).isNone

/-! ## Checks without effects -/

section Pure

variable {m : Type → Type} [Monad m] [LawfulMonad m]
variable (symbolOf : Header → Option Symbol) (same : Node → Node → Bool)

theorem namesAlike_pure (left right : NameSource) :
    namesAlike (fun header => (pure (symbolOf header) : m _)) left right =
      pure (left.read symbolOf == right.read symbolOf) := by
  cases left <;> cases right <;>
    simp [namesAlike, readAlike, NameSource.outerNameBy, NameSource.namespaceNameBy,
      NameSource.qualifiedNameBy, Header.outerNameBy, Header.namespaceNameBy,
      Header.qualifiedNameBy, NameSource.read] <;>
    rfl

theorem listsAlike_pure (pairing : Pairing) (left right : List Node) :
    listsAlike (fun a b => (pure (same a b) : m Bool)) pairing left right =
      pure (listsSame same pairing left right) := by
  cases pairing with
  | ordered => exact orderedM_pure same left right
  | unordered => exact unorderedM_pure same left right
  | coverage =>
      simp only [listsAlike, provided_pure]
      exact coversBothM_pure (m := m) (fun a b => a.name == b.name && same a b) left right

/-- On nodes that both expose a facet, or both do not, its check is a test on what they show. -/
theorem facetCheck_pure {left right : Node} {facet : Facet}
    (exposed : left.exposes facet = right.exposes facet) :
    facetCheck (fun header => (pure (symbolOf header) : m _)) (fun a b => pure (same a b))
      left right facet =
      (.facet facet, pure (facetSame symbolOf same left right facet)) := by
  cases facet with
  | namespaced =>
      simp only [exposes] at exposed
      cases hl : left.names? <;> cases hr : right.names? <;>
        simp_all [facetCheck, exposes, facetAlike, facetSame, namesAlike_pure]
  | accessModifier =>
      simp only [exposes] at exposed
      cases hl : left.body.access? <;> cases hr : right.body.access? <;>
        simp_all [facetCheck, exposes, facetAlike, facetSame]
  | attributes =>
      simp only [exposes] at exposed
      cases hl : left.attributes? <;> cases hr : right.attributes? <;>
        simp_all [facetCheck, exposes, facetAlike, facetSame, listsAlike_pure, optionAlike]
  | isStatic =>
      simp only [exposes] at exposed
      cases hl : left.body.isStatic? <;> cases hr : right.body.isStatic? <;>
        simp_all [facetCheck, exposes, facetAlike, facetSame]
  | returnType =>
      simp only [exposes] at exposed
      rcases hl : left.type? with _ | _ | l <;> rcases hr : right.type? with _ | _ | r <;>
        simp_all [facetCheck, exposes, facetAlike, facetSame, optionAlike]
  | memberTraits =>
      simp only [exposes] at exposed
      cases hl : left.body.traits? <;> cases hr : right.body.traits? <;>
        simp_all [facetCheck, exposes, facetAlike, facetSame]

theorem contentAlike_pure {left : Node} (nodup : left.places.Nodup) (right : Node) :
    contentAlike (fun a b => (pure (same a b) : m Bool)) left right =
      pure (contentSame same left right) := by
  simp [contentAlike, contentSame, members_eq nodup, listsAlike_pure, memberRoles,
    Function.comp_def]

theorem checks_pure (options : CompareOptions) {left right : Node}
    (exposed : ∀ facet, left.exposes facet = right.exposes facet) (nodup : left.places.Nodup) :
    checks (fun header => (pure (symbolOf header) : m _)) options left right
        (fun a b => pure (same a b)) =
      (verdicts symbolOf options same left right).map
        fun verdict => (verdict.1, pure verdict.2) := by
  have facets : facetCheck (fun header => (pure (symbolOf header) : m _))
      (fun a b => pure (same a b)) left right =
      fun facet => (.facet facet, pure (facetSame symbolOf same left right facet)) := by
    funext facet
    exact facetCheck_pure symbolOf same (exposed facet)
  simp [checks, verdicts, tests, facets, contentAlike_pure same nodup, Function.comp_def]

end Pure

variable (symbolOf : Header → Option Symbol) (options : CompareOptions)

theorem mismatchWith_eq {left right : Node}
    (exposed : ∀ facet, left.exposes facet = right.exposes facet) (nodup : left.places.Nodup) :
    mismatchWith symbolOf options left right =
      firstFalse (verdicts symbolOf options (sameWith symbolOf options) left right) := by
  have unfolded := mismatchBy_eq (m := Id) symbolOf options left right
  have pureChecks := checks_pure (m := Id) symbolOf (sameWith symbolOf options) options exposed nodup
  exact unfolded.trans ((congrArg firstFailing pureChecks).trans (firstFailing_pure _))

theorem mismatchWith_of_not_sameType {left right : Node}
    (h : left.body.sameType right.body = false) :
    mismatchWith symbolOf options left right = some .shape := by
  have unfolded := mismatchBy_eq (m := Id) symbolOf options left right
  refine unfolded.trans ?_
  simp only [checks, List.cons_append, firstFailing, h]
  rfl

theorem mismatchWith_of_kind_ne {left right : Node} (h : left.kind ≠ right.kind) :
    mismatchWith symbolOf options left right = some .shape := by
  apply mismatchWith_of_not_sameType
  rw [Bool.eq_false_iff]
  exact fun same => h (Body.sameType_iff.mp same).1

theorem kind_eq_of_sameWith {left right : Node}
    (h : sameWith symbolOf options left right = true) : left.kind = right.kind := by
  by_contra ne
  simp [sameWith, mismatchWith_of_kind_ne symbolOf options ne] at h

end Node

end DeclTree
