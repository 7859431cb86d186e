import DeclTree.Workbench.Answer

/-!
# Steps on resolvers and the handle source
-/

namespace DeclTree

inductive ResolverStep where
  | register (resolver : ResolverId) (id : SyntaxId) (symbol : Symbol)
  | unregister (resolver : ResolverId) (id : SyntaxId)
  /-- Sets how many of the next requests are refused. -/
  | failNext (resolver : String) (count : Nat)
  | skipLines (count : Nat)
  | calls (resolver : ResolverId)
  | handle (plan : HandlePlan)
  | fresh
deriving Repr

open BenchM in
def ResolverStep.run : ResolverStep → BenchM Answer
  | .register resolver id symbol => do
      resolving (modify fun state => state.modifyRegistry resolver (·.register id symbol))
      return .done
  | .unregister resolver id => do
      resolving (modify fun state => state.modifyRegistry resolver (·.unregister id))
      return .done
  | .failNext name count => do
      resolving (modify fun state => state.failNext name count)
      return .done
  | .skipLines count => do
      resolving (modify fun state => { state with source := state.source.skipLines count })
      return .done
  | .calls resolver => do
      resolving (modify fun state => state.declare resolver)
      let state := (← get).world.resolution
      match resolver with
      | .source => return .calls state.source.registry.lookups none
      | .named name =>
          let resolver := state.resolver name
          return .calls resolver.registry.lookups (some (resolver.log.map Handle.id))
  | .handle plan => return .handle (← resolving plan.realize)
  | .fresh => return .id (← allocating Supply.freshNode)

end DeclTree
