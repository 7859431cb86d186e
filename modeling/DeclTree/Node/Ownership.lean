import DeclTree.Node.Basic

/-!
# Ownership

A node stands in at most one list or slot, and its parent link names the owner of that
collection. A node that already has an owner cannot be inserted elsewhere, and no node can be
inserted into a collection of its own.
-/

namespace DeclTree

/-- Whether a collection with this owner takes the node, and if not, why. -/
def checkInsertable (owner : NodeId) (node : Node) : Except TreeError Unit :=
  if node.id = owner then .error (.selfOwnership node.id)
  else match node.parent with
    | some current => .error (.alreadyOwned node.id current)
    | none => .ok ()

namespace ChildList

/-- Appends a node. -/
def add (list : ChildList Node) (node : Node) : Except TreeError (ChildList Node) := do
  checkInsertable list.owner node
  return { list with items := list.items ++ [node.withParent list.owner] }

/-- Appends a node, or gives it back with the reason. -/
def tryAdd (list : ChildList Node) (node : Node) :
    Except (TreeError × Node) (ChildList Node) :=
  match list.add node with
  | .ok list => .ok list
  | .error error => .error (error, node)

/-- Appends all nodes, or none of them if one cannot be inserted. -/
def addRange (list : ChildList Node) (nodes : List Node) : Except TreeError (ChildList Node) := do
  nodes.forM (checkInsertable list.owner)
  return { list with items := list.items ++ nodes.map (Node.withParent list.owner) }

def find? (list : ChildList Node) (id : NodeId) : Option Node :=
  list.items.find? fun node => node.id = id

/-- Takes out the first node with the identity, which then has no owner. -/
def remove? (list : ChildList Node) (id : NodeId) : Option (Node × ChildList Node) :=
  (list.find? id).map fun node =>
    (node.withParent none, { list with items := list.items.eraseP fun node => node.id = id })

/-- Moves the first node with the identity to the end of another list. -/
def moveTo (source target : ChildList Node) (id : NodeId) :
    Except TreeError (ChildList Node × ChildList Node) :=
  match source.find? id with
  | none => .error (.childNotFound id)
  | some node =>
      if id = target.owner then .error (.selfOwnership id)
      else .ok
        ({ source with items := source.items.eraseP fun node => node.id = id },
          { target with items := target.items ++ [node.withParent target.owner] })

/-- Applies a function to the first node with the identity. -/
def modifyFirst? (list : ChildList Node) (id : NodeId) (f : Node → Node) :
    Option (ChildList Node) :=
  if (list.find? id).isSome then some { list with items := go list.items } else none
where
  go : List Node → List Node
    | [] => []
    | node :: rest => if node.id = id then f node :: rest else node :: go rest

end ChildList

namespace ChildSlot

/-- Puts a node into the slot. The previous one comes back without an owner. -/
def set (slot : ChildSlot Node) (node : Node) :
    Except TreeError (Option Node × ChildSlot Node) := do
  checkInsertable slot.owner node
  return (slot.item.map (Node.withParent none),
    { slot with item := some (node.withParent slot.owner) })

/-- Puts a node into the slot, or gives it back with the reason. -/
def trySet (slot : ChildSlot Node) (node : Node) :
    Except (TreeError × Node) (Option Node × ChildSlot Node) :=
  match slot.set node with
  | .ok result => .ok result
  | .error error => .error (error, node)

/-- Empties the slot. -/
def take (slot : ChildSlot Node) : Option Node × ChildSlot Node :=
  (slot.item.map (Node.withParent none), { slot with item := none })

end ChildSlot

end DeclTree
