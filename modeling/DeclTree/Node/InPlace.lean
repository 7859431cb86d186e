import DeclTree.Node.Parameters

/-!
# Operations in place

The operations on lists, slots and methods again, as they change a thing that stays where it is. An
operation is a sequence of checks and writes. It is refused by the first check that fails, and what
has been written by then stays written.
-/

namespace DeclTree

/-- Numbers the parameters of a node by position. -/
def Node.numberParameters (method : Node) : Node :=
  match method.list? .parameters with
  | none => method
  | some list => method.setList .parameters (renumber list)

/-- Computations that change something in place and may be refused on the way. -/
abbrev InPlace (ε σ : Type) := ExceptT ε (StateM σ)

namespace InPlace

variable {ε σ τ α : Type}

def ofExcept (result : Except ε α) : InPlace ε σ α := ExceptT.mk (pure result)

/-- Works on a part. The part is written back also if the work is refused. -/
def within (part : τ) (write : τ → σ → σ) (run : InPlace ε τ α) : InPlace ε σ α := do
  let (result, part) := run.run part
  modify (write part)
  ofExcept result

/-! ## Lists -/

/-- Checks whether the list takes the node. -/
def check (node : Node) : InPlace TreeError (ChildList Node) Unit := do
  ofExcept (checkInsertable (← get).owner node)

/-- Appends a node without looking at it. -/
def push (node : Node) : InPlace ε (ChildList Node) Unit :=
  modify fun list => { list with items := list.items ++ [node.withParent list.owner] }

/-- Appends a node, or gives it back with the reason. -/
def tryAdd (node : Node) : InPlace (TreeError × Node) (ChildList Node) Unit := do
  match checkInsertable (← get).owner node with
  | .error error => throw (error, node)
  | .ok _ => push node

def add (node : Node) : InPlace TreeError (ChildList Node) Unit := (tryAdd node).adapt Prod.fst

/-- Appends all nodes after they have all been checked. -/
def addRange (nodes : List Node) : InPlace TreeError (ChildList Node) Unit := do
  nodes.forM check
  nodes.forM push

/-- Takes out the first node with the identity. -/
def remove (id : NodeId) : InPlace ε (ChildList Node) (Option Node) := do
  match (← get).find? id with
  | none => return none
  | some node =>
      modify fun list => { list with items := list.items.eraseP fun node => node.id = id }
      return some (node.withParent none)

/-- Moves the first node with the identity from one list to the end of the other. -/
def moveTo (id : NodeId) : InPlace TreeError (ChildList Node × ChildList Node) Unit := do
  match (← get).1.find? id with
  | none => throw (.childNotFound id)
  | some node =>
      if id = (← get).2.owner then throw (.selfOwnership id)
      modify fun (source, target) =>
        ({ source with items := source.items.eraseP fun node => node.id = id }, target)
      modify fun (source, target) =>
        (source, { target with items := target.items ++ [node.withParent target.owner] })

/-! ## Slots -/

/-- Empties the slot. -/
def take : InPlace ε (ChildSlot Node) (Option Node) := do
  let item := (← get).item
  modify fun slot => { slot with item := none }
  return item.map (Node.withParent none)

/-- Puts a node into the slot, or gives it back with the reason. -/
def trySet (node : Node) : InPlace (TreeError × Node) (ChildSlot Node) (Option Node) := do
  match checkInsertable (← get).owner node with
  | .error error => throw (error, node)
  | .ok _ =>
      let previous ← take
      modify fun slot => { slot with item := some (node.withParent slot.owner) }
      return previous

def set (node : Node) : InPlace TreeError (ChildSlot Node) (Option Node) :=
  (trySet node).adapt Prod.fst

/-! ## Nodes -/

/-- Works on the list with a role. For a node without such a list there is nothing to do. -/
def onList (role : Role) (missing : α) (run : InPlace ε (ChildList Node) α) : InPlace ε Node α := do
  match (← get).list? role with
  | none => return missing
  | some list => within list (fun list node => node.setList role list) run

/-- Puts a type into the slot of a node. -/
def setType (type : Node) : InPlace TreeError Node (Option Node) := do
  match (← get).slot? with
  | none => return some type
  | some slot => within slot (fun slot node => node.setSlot slot) (set type)

/-- Inserts parameters and numbers all anew. -/
def insertParameters (run : InPlace ε (ChildList Node) Unit) : InPlace ε Node Unit := do
  onList .parameters () run
  modify Node.numberParameters

def addParameter (parameter : Node) : InPlace TreeError Node Unit :=
  insertParameters (add parameter)

def addParameters (parameters : List Node) : InPlace TreeError Node Unit :=
  insertParameters (addRange parameters)

/-- Takes a parameter out of a method. -/
def removeParameter (id : NodeId) : InPlace ε Node (Option Node) := do
  match ← onList .parameters none (remove id) with
  | none => return none
  | some parameter =>
      modify Node.numberParameters
      return some (parameter.withOrdinal 0)

/-- Moves a parameter from one method to the end of the other. -/
def moveParameter (id : NodeId) : InPlace TreeError (Node × Node) Unit := do
  let (source, target) ← get
  match source.list? .parameters, target.list? .parameters with
  | some leaving, some joining =>
      within (leaving, joining)
        (fun (leaving, joining) (source, target) =>
          (source.setList .parameters leaving, target.setList .parameters joining))
        (moveTo id)
      modify fun (source, target) => (source.numberParameters, target)
      modify fun (source, target) => (source, target.numberParameters)
  | _, _ => throw (.childNotFound id)

end InPlace

end DeclTree
