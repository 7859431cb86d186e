import DeclTree.Resolver

/-!
# The world of a tree

What building and reading trees may change: the supply of identities and the state of symbol
resolution. Computations that need only one of the two say so in their type.
-/

namespace DeclTree

structure World where
  supply : Supply := {}
  resolution : Resolution := {}

namespace World

/-- The state of resolution as it is now. -/
def readResolution : StateM World Resolution := fun world => (world.resolution, world)

/-- Runs a computation that only takes identities. -/
def allocating {α : Type} (run : StateM Supply α) : StateM World α := fun world =>
  let (result, supply) := run world.supply
  (result, { world with supply })

/-- Runs a computation that only resolves symbols. -/
def resolving {α : Type} (run : ResolveM α) : StateM World α := fun world =>
  let (result, resolution) := run world.resolution
  (result, { world with resolution })

end World

end DeclTree
