import DeclTree.Workbench.Run

/-!
# What is left on a workbench
-/

namespace DeclTree

inductive ItemView where
  | tree (views : List NodeView)
  | list (children : ChildList Node)
  | slot (child : ChildSlot Node)
  | entries (store : AnnotationStore)
deriving Repr

def Item.view (state : Resolution) : Item → ItemView
  | .node root => .tree (root.views state)
  | .list _ children => .list children
  | .slot _ child => .slot child
  | .store annotations => .entries annotations

structure Summary where
  items : List (String × ItemView)
  /-- The requests that each resolver got. -/
  logs : List (String × List SyntaxId)
  /-- Look-ups in the registry of the handle source. -/
  sourceLookups : Nat
  nextNode : NodeId
  nextAnnotation : AnnotationId
deriving Repr

def Workbench.summary (bench : Workbench) : Summary :=
  let resolution := bench.world.resolution
  { items := bench.items.entries.map fun (name, item) => (name, item.view resolution)
    logs := resolution.resolvers.entries.map fun (name, resolver) => (name, resolver.log.map Handle.id)
    sourceLookups := resolution.source.registry.lookups
    nextNode := ⟨bench.world.supply.nextNode⟩
    nextAnnotation := ⟨bench.world.supply.nextAnnotation⟩ }

end DeclTree
