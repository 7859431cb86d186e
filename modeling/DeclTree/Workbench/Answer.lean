import DeclTree.Field
import DeclTree.Intent.Mismatch
import DeclTree.Node.Walk
import DeclTree.Workbench.Basic

/-!
# Answers

What steps on the workbench answer.
-/

namespace DeclTree

/-- A node together with the symbol it has kept. -/
structure NodeView where
  node : Node
  cached : Option Symbol
deriving Repr

inductive Answer where
  | done
  | flag (holds : Bool)
  | text (text : Option String)
  | value (value : Option Value)
  | fields (values : List (Field × Value))
  | facets (set : FacetSet)
  | handle (handle : Handle)
  | symbol (symbol : Option Symbol)
  | cached (symbol : Option Symbol)
  | id (id : NodeId)
  /-- All nodes of a tree. -/
  | tree (views : List NodeView)
  /-- One node without those below it. -/
  | view (view : NodeView)
  | node (node : Option Node)
  | exchanged (placed taken : Node)
  | mismatch (mismatch : Option Mismatch)
  /-- Look-ups in a registry, with the log of the resolver around it, if any. -/
  | calls (lookups : Nat) (log : Option (List SyntaxId))
  | list (list : Option (ChildList Node))
  | removed (node : Option Node) (rest : ChildList Node)
  | moved (source target : ChildList Node)
  | parameters (list : ChildList Node)
  | removedParameter (node : Option Node) (rest : ChildList Node)
  | movedParameter (source target : ChildList Node)
  | typeSet (previous : Option Node) (views : List NodeView)
  | slot (slot : ChildSlot Node)
  | slotSet (previous : Option Node) (slot : ChildSlot Node)
  | entries (store : AnnotationStore)
  | removedEntries (count : Nat) (store : AnnotationStore)
  | store (store : AnnotationStore)
deriving Repr

/-- All nodes of a tree with what they have kept. Asks no resolver. -/
def Node.views (node : Node) (state : Resolution) : List NodeView :=
  node.descendants.map fun descendant => ⟨descendant, descendant.header.cached? state⟩

namespace BenchM

def viewsOf (node : Node) : BenchM (List NodeView) := do
  return node.views (← get).world.resolution

def answerTree (node : Node) : BenchM Answer := do
  return .tree (← viewsOf node)

end BenchM

end DeclTree
