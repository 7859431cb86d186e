import DeclTree.Intent.Mismatch
import DeclTree.Node.Measure

/-!
# Same-intent comparison

Two nodes have the same intent when they say the same thing, whatever their identities, their
place in the source text and the order of what has no order. The checks run in a fixed order
and stop at the first that fails: kind, name, one check for each facet of the left node,
annotations, and the content that belongs to the kind alone.

The comparison is written once over a monad in which symbols are found. `mismatch?` finds them
lazily, by asking resolvers and keeping the answers. `mismatchWith` takes them from a given
function and has no effects.
-/

namespace DeclTree

structure CompareOptions where
  /-- Whether annotations count. -/
  annotations : Bool := true
deriving DecidableEq, Repr

namespace Node

open Matching

section Checks

variable {m : Type → Type} [Monad m]

/-- Compares what is read from the left with what is read from the right, in this order. -/
def readAlike {α : Type} (read : α → m (Option String)) (left right : α) : m Bool := do
  let l ← read left
  let r ← read right
  return l == r

/-- Outer name, namespace and qualified name agree, each looked at only if the ones before do. -/
def namesAlike (symbolOf : Header → m (Option Symbol)) (left right : NameSource) : m Bool :=
  both (readAlike (NameSource.outerNameBy symbolOf) left right) <|
    both (readAlike (NameSource.namespaceNameBy symbolOf) left right)
      (readAlike (NameSource.qualifiedNameBy symbolOf) left right)

/-- Compares two lists in the way that their role asks for. Coverage only considers partners of
the same name. -/
def listsAlike (same : Node → Node → m Bool) :
    Pairing → List Node → List Node → m Bool
  | .ordered => orderedM same
  | .unordered => unorderedM same
  | .coverage => coversBothM fun a b => provided (a.name == b.name) (same a b)

/-- Whether a facet agrees. Both nodes have to expose it. -/
def facetAlike (symbolOf : Header → m (Option Symbol)) (same : Node → Node → m Bool)
    (left right : Node) : Facet → m Bool
  | .namespaced =>
      match left.names?, right.names? with
      | some l, some r => namesAlike symbolOf l r
      | _, _ => pure false
  | .accessModifier =>
      match left.body.access?, right.body.access? with
      | some l, some r => pure (l == r)
      | _, _ => pure false
  | .attributes =>
      match left.attributes?, right.attributes? with
      | some l, some r => listsAlike same .coverage l r
      | _, _ => pure false
  | .isStatic =>
      match left.body.isStatic?, right.body.isStatic? with
      | some l, some r => pure (l == r)
      | _, _ => pure false
  | .returnType =>
      match left.type?, right.type? with
      | some (some l), some (some r) => same l r
      | some none, some none => pure true
      | _, _ => pure false
  | .memberTraits =>
      match left.body.traits?, right.body.traits? with
      | some l, some r => pure (l == r)
      | _, _ => pure false

/-- Whether the content that belongs to the kind alone agrees: data first, then the members role
by role. -/
def contentAlike (same : Node → Node → m Bool) (left right : Node) : m Bool :=
  provided (left.body.sameContent right.body) <|
    left.members.allM fun (role, items) =>
      listsAlike same role.pairing items (right.itemsIn role)

/-- The check for a facet, which passes if the left node does not expose it. -/
def facetCheck (symbolOf : Header → m (Option Symbol)) (same : Node → Node → m Bool)
    (left right : Node) (facet : Facet) : Mismatch × m Bool :=
  (.facet facet,
    if left.exposes facet then facetAlike symbolOf same left right facet else pure true)

/-- All checks in order, given how the nodes below are compared. -/
def checks (symbolOf : Header → m (Option Symbol)) (options : CompareOptions)
    (left right : Node) (same : Node → Node → m Bool) : List (Mismatch × m Bool) :=
  [(.shape, pure (left.body.sameType right.body)), (.name, pure (left.name == right.name))] ++
  Facet.all.map (facetCheck symbolOf same left right) ++
  [(.annotations,
      pure (!options.annotations ||
        left.header.annotations.equivalent right.header.annotations)),
    (.content, contentAlike same left right)]

/-- The first check that fails. The nodes below are compared in the same way; they are lower than
the nodes they hang on, so the guard always holds. -/
def mismatchBy (symbolOf : Header → m (Option Symbol)) (options : CompareOptions)
    (left right : Node) : m (Option Mismatch) :=
  firstFailing <| checks symbolOf options left right fun l r =>
    if _h : l.height + r.height < left.height + right.height then
      Option.isNone <$> mismatchBy symbolOf options l r
    else pure false
termination_by left.height + right.height

/-- Whether no check fails. -/
def sameIntentBy (symbolOf : Header → m (Option Symbol)) (options : CompareOptions)
    (left right : Node) : m Bool :=
  Option.isNone <$> mismatchBy symbolOf options left right

end Checks

/-! ## Lazy and stateless comparison -/

/-- The first check that fails, with symbols resolved as they are needed. -/
def mismatch? (options : CompareOptions) (left right : Node) : ResolveM (Option Mismatch) :=
  mismatchBy Header.symbol? options left right

def sameIntent (options : CompareOptions) (left right : Node) : ResolveM Bool :=
  sameIntentBy Header.symbol? options left right

/-- Whether the content that belongs to the kind alone agrees. -/
def sameContent (options : CompareOptions) (left right : Node) : ResolveM Bool :=
  contentAlike (sameIntent options) left right

/-- Whether two lists of nodes agree position by position. -/
def sameIntentOrdered (options : CompareOptions) (left right : List Node) : ResolveM Bool :=
  orderedM (sameIntent options) left right

/-- Whether the nodes of two lists can be paired off. -/
def sameIntentUnordered (options : CompareOptions) (left right : List Node) : ResolveM Bool :=
  unorderedM (sameIntent options) left right

/-- The first check that fails, with symbols given by a function. -/
def mismatchWith (symbolOf : Header → Option Symbol) (options : CompareOptions)
    (left right : Node) : Option Mismatch :=
  mismatchBy (m := Id) symbolOf options left right

end Node

end DeclTree
