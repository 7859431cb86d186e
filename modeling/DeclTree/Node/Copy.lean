import DeclTree.Node.Create

/-!
# Copying trees

A copy has new identities throughout, taken from the root downwards in the order of the walk.
It shares handles and resolvers with the tree it was made from, and starts with no symbol of
its own. A payload that cannot be duplicated makes the copy of every tree above it fail.
-/

namespace DeclTree

/-- Runs the copies of a list for a new owner. -/
def ChildList.gather (owner : NodeId) (list : ChildList (AllocM Node)) :
    AllocM (ChildList Node) := do
  return ⟨owner, ← list.items.mapM fun copy => Node.withParent owner <$> copy⟩

/-- Runs the copy of a slot for a new owner. -/
def ChildSlot.gather (owner : NodeId) (slot : ChildSlot (AllocM Node)) :
    AllocM (ChildSlot Node) := do
  match slot.item with
  | some copy => return ⟨owner, some ((← copy).withParent owner)⟩
  | none => return ⟨owner, none⟩

/-- Runs the copies on a branch for a new node. What is only held gets no owner. -/
def Branch.gather (owner : NodeId) : Branch (AllocM Node) → AllocM (Branch Node)
  | .list role children => .list role <$> children.gather owner
  | .slot child => .slot <$> child.gather owner
  | .heldAttributes copies => .heldAttributes <$> copies.mapM fun copy => copy
  | .heldType (some copy) => (fun node => .heldType (some node)) <$> copy
  | .heldType none => return .heldType none

/-- An independent copy of a tree. -/
def Node.copy (node : Node) : AllocM Node :=
  node.fold fun header body branches => do
    match body.duplicate with
    | .error reason => throw (.cannotCopy body.label header.name reason)
    | .ok body =>
        let header ← header.copy
        return ⟨header, body, ← branches.mapM (Branch.gather header.id)⟩

/-- Copies of all nodes of a list, for a new owner. -/
def ChildList.copyFor (list : ChildList Node) (owner : NodeId) : AllocM (ChildList Node) :=
  gather owner ⟨list.owner, list.items.map Node.copy⟩

/-- A copy of what is in a slot, for a new owner. -/
def ChildSlot.copyFor (slot : ChildSlot Node) (owner : NodeId) : AllocM (ChildSlot Node) :=
  gather owner ⟨slot.owner, slot.item.map Node.copy⟩

end DeclTree
