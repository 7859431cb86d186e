import DeclTree.Blueprint
import DeclTree.Error

/-!
# The workbench

A workbench holds things by name: nodes, lists, slots and annotation stores that stand on their
own. A step takes things up, works on them and puts them back. A step that is refused keeps
what it had taken by then.
-/

namespace DeclTree

/-- A thing on the workbench. Lists and slots hold nodes of one kind. -/
inductive Item where
  | node (node : Node)
  | list (kind : Kind) (list : ChildList Node)
  | slot (kind : Kind) (slot : ChildSlot Node)
  | store (store : AnnotationStore)
deriving Repr

structure Workbench where
  world : World := {}
  items : Table String Item := {}

/-- Why a step was refused. -/
inductive Refusal where
  | tree (error : TreeError)
  | resolution (error : ResolutionError)
  | check (failure : CheckFailure)
  /-- The step names something that is not there or does not fit. -/
  | malformed
deriving Repr

/-- Computations on the workbench. -/
abbrev BenchM := ExceptT Refusal (StateM Workbench)

namespace BenchM

variable {α : Type}

def onWorld (run : StateM World α) : BenchM α := ExceptT.mk fun bench =>
  let (result, world) := run bench.world
  (.ok result, { bench with world })

def resolving (run : ResolveM α) : BenchM α := onWorld (World.resolving run)

def allocating (run : StateM Supply α) : BenchM α := onWorld (World.allocating run)

def ofExcept (result : Except Refusal α) : BenchM α := ExceptT.mk (pure result)

/-- Lets an operation on trees take part in a step. -/
def ofTree (result : Except TreeError α) : BenchM α := ofExcept (result.mapError .tree)

/-- Runs a computation that builds nodes. -/
def building (run : BuildM α) : BenchM α := do
  ofTree (← onWorld run.run)

/-- Runs a computation that copies nodes. -/
def copying (run : AllocM α) : BenchM α := do
  ofTree (← allocating run.run)

/-- What has to be there for the step to make sense. -/
def require (found : Option α) : BenchM α :=
  ofExcept (found.elim (.error .malformed) .ok)

def requireThat (condition : Bool) : BenchM Unit :=
  ofExcept (if condition then .ok () else .error .malformed)

/-! ## Things by name -/

def item (name : String) : BenchM Item := do
  require ((← get).items.get? name)

def put (name : String) (item : Item) : BenchM Unit :=
  modify fun bench => { bench with items := bench.items.insert name item }

def drop (name : String) : BenchM Unit :=
  modify fun bench => { bench with items := bench.items.erase name }

/-- Takes a node off the workbench. -/
def takeNode (name : String) : BenchM Node := do
  match ← item name with
  | .node node =>
      drop name
      return node
  | _ => throw .malformed

/-- Takes a node off the workbench that has the kind asked for. -/
def takeOfKind (kind : BenchM Kind) (name : String) : BenchM Node := do
  let node ← takeNode name
  requireThat (node.kind = (← kind))
  return node

/-- Refuses with what was refused. The node that comes with the refusal is put under a name. -/
def orPutBack {α : Type} (name : String) : Except (TreeError × Node) α → BenchM α
  | .ok a => return a
  | .error (error, node) => do
      put name (.node node)
      throw (.tree error)

/-- Puts a node that was left over under a name, if there are both. -/
def putNode? (name : Option String) (node : Option Node) : BenchM Unit :=
  match name, node with
  | some name, some node => put name (.node node)
  | _, _ => return ()

end BenchM

end DeclTree
