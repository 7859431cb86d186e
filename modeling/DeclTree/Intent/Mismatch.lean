import DeclTree.Facet

/-!
# Mismatches

The checks of a comparison, in the order in which they run, and what it means for one of them
to fail first.
-/

namespace DeclTree

/-- The first check that two nodes fail. -/
inductive Mismatch where
  /-- The nodes are of different kinds. -/
  | shape
  | name
  | facet (facet : Facet)
  | annotations
  /-- What belongs to the kind of node alone: parameters, arguments, members and the like. -/
  | content
deriving DecidableEq, Repr

namespace Mismatch

def text : Mismatch → String
  | .shape => "shape"
  | .name => "name"
  | .facet f => f.name
  | .annotations => "annotations"
  | .content => "content"

/-- What an expectation calls an outcome. -/
def outcomeText : Option Mismatch → String
  | none => "same intent"
  | some mismatch => mismatch.text ++ " mismatch"

/-- The facet as it is spelled out when two outcomes are set side by side. -/
def facetTag : Facet → String
  | .namespaced => "Namespace"
  | .accessModifier => "AccessModifier"
  | .attributes => "Attributes"
  | .isStatic => "Static"
  | .returnType => "ReturnType"
  | .memberTraits => "MemberTraits"

/-- The mismatch as it is spelled out when two outcomes are set side by side. -/
def tag : Mismatch → String
  | .shape => "Shape"
  | .name => "Name"
  | .facet f => "Facet(" ++ facetTag f ++ ")"
  | .annotations => "Annotations"
  | .content => "Content"

def outcomeTag : Option Mismatch → String
  | none => "None"
  | some mismatch => "Some(" ++ mismatch.tag ++ ")"

end Mismatch

/-- Runs checks in order and reports the first that fails. -/
def firstFailing {m : Type → Type} [Monad m] : List (Mismatch × m Bool) → m (Option Mismatch)
  | [] => pure none
  | (mismatch, check) :: rest => do
      if ← check then firstFailing rest else pure (some mismatch)

end DeclTree
