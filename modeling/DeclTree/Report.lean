import DeclTree.Intent.Comparison
import DeclTree.Workbench.Answer

/-!
# Reports

Two ways to look at freshly built trees: a comparison of two of them from all sides, and an
inspection of one, with a copy and all fields. One resolver knows the given symbols, and each
report ends with what it was asked.
-/

namespace DeclTree

/-- The name of the resolver that reports use. -/
def Report.resolverName : String := "r"

/-- The world in which a report starts. -/
def Report.start (symbols : List (SyntaxId × Symbol)) : World :=
  let registry := symbols.foldl (fun registry (id, symbol) => registry.register id symbol) {}
  { resolution := Resolution.setResolver {} resolverName { registry } }

/-- The requests made so far. -/
def Report.log : StateM World (List SyntaxId) := do
  return ((← World.readResolution).resolver resolverName).log.map Handle.id

structure ComparisonReport where
  forward : Option Mismatch
  backward : Option Mismatch
  /-- Forwards, without annotations. -/
  unannotated : Option Mismatch
  same : Bool
  /-- Each child on the left against each child on the right. -/
  children : List (List (Option Mismatch))
  log : List SyntaxId
deriving Repr

/-- Builds two trees and compares them. -/
def ComparisonReport.make (left right : Blueprint) : BuildM ComparisonReport := do
  let left ← left.build
  let right ← right.build
  let mismatch (options : CompareOptions) (l r : Node) : BuildM (Option Mismatch) :=
    BuildM.resolving (Node.mismatch? options l r)
  return {
    forward := ← mismatch {} left right
    backward := ← mismatch {} right left
    unannotated := ← mismatch { annotations := false } left right
    same := ← BuildM.resolving (Node.sameIntent {} left right)
    children := ← left.children.mapM fun l => right.children.mapM fun r => mismatch {} l r
    log := ← Report.log }

structure TreeReport where
  before : List NodeView
  /-- The copy and its comparison with the tree, or why there is none. -/
  copy : Except TreeError (List NodeView × Option Mismatch)
  /-- Fields and facets of every node. -/
  nodes : List (List (Field × Value) × FacetSet)
  after : List NodeView
  log : List SyntaxId
  nextNode : NodeId
deriving Repr

/-- Builds a tree and inspects it. -/
def TreeReport.make (plan : Blueprint) : BuildM TreeReport := do
  let node ← plan.build
  let before := node.views (← World.readResolution)
  let copied ← BuildM.allocating node.copy.run
  let copy : Except TreeError (List NodeView × Option Mismatch) ← match copied with
    | .ok copy => do
        let views := copy.views (← World.readResolution)
        let mismatch ← BuildM.resolving (Node.mismatch? {} copy node)
        pure (.ok (views, mismatch))
    | .error error => pure (.error error)
  let nodes ← node.descendants.mapM fun descendant => do
    return (← BuildM.resolving descendant.fields, descendant.facets)
  return {
    before, copy, nodes
    after := node.views (← World.readResolution)
    log := ← Report.log
    nextNode := ← BuildM.allocating Supply.freshNode }

end DeclTree
