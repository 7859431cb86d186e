import DeclTree.Node.Ownership

/-!
# Making nodes

A new node starts with the empty branches of its kind, all owned by itself. A node bound to a
construct also takes over what the construct's symbol says, if the symbol is known.
-/

namespace DeclTree

/-- Computations that take identities and can be refused. What was taken stays taken. -/
abbrev AllocM := ExceptT TreeError (StateM Supply)

/-- The branches of a new node. -/
def Kind.branches (owner : NodeId) : Kind → List (Branch Node)
  | .typeRef => [.list .typeArgs { owner }]
  | .attribute => []
  | .parameter => [.list .attributes { owner }, .slot { owner }]
  | .method => [.list .attributes { owner }, .slot { owner }, .list .parameters { owner }]
  | .property => [.list .attributes { owner }, .slot { owner }]
  | .typeDecl =>
      [.list .attributes { owner }, .list .methods { owner }, .list .properties { owner },
        .list .nested { owner }, .list .extensions { owner }]
  | .extension => []
  | .probe => []

namespace Node

/-- The node with this header and body and nothing on its branches. -/
def ofHeader (header : Header) (body : Body) : Node :=
  ⟨header, body, body.kind.branches header.id⟩

/-- A node made in memory. -/
def create (body : Body) (name : String) : StateM Supply Node := do
  return ofHeader (← Header.detached name body.label) body

/-- A node that stands for a construct. -/
def bind (body : Body) (handle : Handle) (resolver : ResolverId) : StateM World Node := do
  let header ← Header.bind handle resolver
  match header.cached? (← World.readResolution) with
  | some symbol => return ofHeader header (body.seed symbol)
  | none => return ofHeader header body

/-- Replaces the list with a role by what `f` makes of it, if the node has one. -/
def editList (node : Node) (role : Role)
    (f : ChildList Node → Except TreeError (ChildList Node)) : Except TreeError Node :=
  match node.list? role with
  | some list => (f list).map (node.setList role)
  | none => .ok node

/-- Puts a type into the slot of a node; what was there comes back. A node without a slot gives
the type straight back. -/
def setType (node type : Node) : Except TreeError (Option Node × Node) :=
  match node.slot? with
  | some slot => (slot.set type).map fun (previous, slot) => (previous, node.setSlot slot)
  | none => .ok (some type, node)

/-- A type reference with arguments. -/
def generic (name : String) (arguments : List Node) : AllocM Node := do
  let node ← create (.typeRef false) name
  ExceptT.mk (pure (node.editList .typeArgs fun list => list.addRange arguments))

/-- A parameter with a declared type. -/
def typed (name : String) (type : Node) : AllocM Node := do
  let node ← create (.parameter {}) name
  ExceptT.mk (pure ((node.setType type).map Prod.snd))

end Node

end DeclTree
