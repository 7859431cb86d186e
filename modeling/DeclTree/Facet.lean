/-!
# Facets

A facet is a capability that nodes of several kinds share. Facets are compared and listed in
one fixed order, `Facet.all`.
-/

namespace DeclTree

inductive Facet where
  | namespaced
  | accessModifier
  | attributes
  | isStatic
  | returnType
  | memberTraits
deriving DecidableEq, Repr

namespace Facet

/-- All facets, in the order in which they are compared. -/
def all : List Facet :=
  [.namespaced, .accessModifier, .attributes, .isStatic, .returnType, .memberTraits]

def name : Facet → String
  | .namespaced => "has-namespace"
  | .accessModifier => "has-access-modifier"
  | .attributes => "has-attributes"
  | .isStatic => "can-be-static"
  | .returnType => "has-return-type"
  | .memberTraits => "property-or-method-traits"

theorem mem_all (facet : Facet) : facet ∈ all := by
  cases facet <;> simp [all]

end Facet

/-- A set of facets, listed in the order of `Facet.all`. -/
structure FacetSet where
  facets : List Facet := []
deriving DecidableEq, Repr

namespace FacetSet

def empty : FacetSet := ⟨[]⟩

def contains (set : FacetSet) (facet : Facet) : Bool := set.facets.contains facet

/-- The facets that pass a test. -/
def ofPredicate (test : Facet → Bool) : FacetSet := ⟨Facet.all.filter test⟩

def insert (set : FacetSet) (facet : Facet) : FacetSet :=
  ofPredicate fun f => f == facet || set.contains f

def ofList (facets : List Facet) : FacetSet := facets.foldl insert empty

def size (set : FacetSet) : Nat := set.facets.length

def isEmpty (set : FacetSet) : Bool := set.facets.isEmpty

@[simp] theorem contains_empty (facet : Facet) : empty.contains facet = false := rfl

@[simp] theorem contains_ofPredicate (test : Facet → Bool) (facet : Facet) :
    (ofPredicate test).contains facet = test facet := by
  rw [Bool.eq_iff_iff]
  simp [contains, ofPredicate, Facet.mem_all]

theorem contains_insert (set : FacetSet) (added facet : Facet) :
    (set.insert added).contains facet = (facet == added || set.contains facet) := by
  simp [insert]

end FacetSet

end DeclTree
