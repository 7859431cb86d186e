import DeclTree.Node.Create

/-!
# Parameters of methods

The ordinal of a parameter is its position in its method. Every change to a method's
parameters numbers them anew, and a parameter that is taken out goes back to zero.
-/

namespace DeclTree.Node

/-- Gives a parameter its position. -/
def withOrdinal (ordinal : Nat) (node : Node) : Node :=
  match node.body with
  | .parameter data => { node with body := .parameter { data with ordinal } }
  | _ => node

def ordinal? (node : Node) : Option Nat :=
  match node.body with
  | .parameter data => some data.ordinal
  | _ => none

/-- Numbers the nodes of a list by position. -/
def renumber (list : ChildList Node) : ChildList Node :=
  { list with items := list.items.mapIdx withOrdinal }

/-- Appends a parameter. -/
def addParameter (method parameter : Node) : Except TreeError Node :=
  method.editList .parameters fun list => renumber <$> list.add parameter

/-- Appends all parameters, or none of them. -/
def addParameters (method : Node) (parameters : List Node) : Except TreeError Node :=
  method.editList .parameters fun list => renumber <$> list.addRange parameters

/-- Takes a parameter out of a method. -/
def removeParameter? (method : Node) (id : NodeId) : Option (Node × Node) := do
  let list ← method.list? .parameters
  let (removed, list) ← list.remove? id
  return (removed.withOrdinal 0, method.setList .parameters (renumber list))

/-- Moves a parameter to the end of another method. -/
def moveParameter (source target : Node) (id : NodeId) : Except TreeError (Node × Node) :=
  match source.list? .parameters, target.list? .parameters with
  | some sourceList, some targetList => do
      let (sourceList, targetList) ← sourceList.moveTo targetList id
      return (source.setList .parameters (renumber sourceList),
        target.setList .parameters (renumber targetList))
  | _, _ => .error (.childNotFound id)

end DeclTree.Node
