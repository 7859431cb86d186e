import DeclTree.Facet
import DeclTree.Node.Body
import DeclTree.Node.Header

/-!
# Nodes

A node is a header, a body and the branches on which other nodes hang. Owned nodes hang in
lists or in the slot for the type; a probe only holds its attributes and its type, without
owning them. Functions that go through a whole tree are folds.
-/

namespace DeclTree

/-- Owned nodes in order. -/
structure ChildList (α : Type) where
  owner : NodeId
  items : List α := []
deriving Repr

/-- At most one owned node. -/
structure ChildSlot (α : Type) where
  owner : NodeId
  item : Option α := none
deriving Repr

/-- One way in which nodes hang on a node. -/
inductive Branch (α : Type) where
  | list (role : Role) (children : ChildList α)
  | slot (child : ChildSlot α)
  /-- Attributes that are referred to but not owned. -/
  | heldAttributes (items : List α)
  /-- A type that is referred to but not owned. -/
  | heldType (item : Option α)
deriving Repr

namespace Branch

variable {α β : Type}

def map (f : α → β) : Branch α → Branch β
  | .list role children => .list role ⟨children.owner, children.items.map f⟩
  | .slot child => .slot ⟨child.owner, child.item.map f⟩
  | .heldAttributes items => .heldAttributes (items.map f)
  | .heldType item => .heldType (item.map f)

/-- All nodes on the branch. -/
def items : Branch α → List α
  | .list _ children => children.items
  | .slot child => child.item.toList
  | .heldAttributes items => items
  | .heldType item => item.toList

/-- The nodes on the branch that are owned. -/
def children : Branch α → List α
  | .list _ children => children.items
  | .slot child => child.item.toList
  | .heldAttributes _ | .heldType _ => []

end Branch

structure Node where
  header : Header
  body : Body
  branches : List (Branch Node)
deriving Repr

namespace Node

def id (node : Node) : NodeId := node.header.id

def name (node : Node) : String := node.header.name

def parent (node : Node) : Option NodeId := node.header.parent

def kind (node : Node) : Kind := node.body.kind

def withParent (parent : Option NodeId) (node : Node) : Node :=
  { node with header := { node.header with parent } }

def withName (name : String) (node : Node) : Node :=
  { node with header := { node.header with name } }

/-! ## Folding -/

mutual

/-- Combines header, body and the results for all nodes on the branches. -/
def fold {β : Type} (f : Header → Body → List (Branch β) → β) : Node → β
  | ⟨header, body, branches⟩ => f header body (foldBranches f branches)

def foldBranches {β : Type} (f : Header → Body → List (Branch β) → β) :
    List (Branch Node) → List (Branch β)
  | [] => []
  | .list role ⟨owner, items⟩ :: rest =>
      .list role ⟨owner, foldItems f items⟩ :: foldBranches f rest
  | .slot ⟨owner, none⟩ :: rest => .slot ⟨owner, none⟩ :: foldBranches f rest
  | .slot ⟨owner, some node⟩ :: rest => .slot ⟨owner, some (fold f node)⟩ :: foldBranches f rest
  | .heldAttributes items :: rest => .heldAttributes (foldItems f items) :: foldBranches f rest
  | .heldType none :: rest => .heldType none :: foldBranches f rest
  | .heldType (some node) :: rest => .heldType (some (fold f node)) :: foldBranches f rest

def foldItems {β : Type} (f : Header → Body → List (Branch β) → β) : List Node → List β
  | [] => []
  | node :: rest => fold f node :: foldItems f rest

end

theorem foldItems_eq_map {β : Type} (f : Header → Body → List (Branch β) → β)
    (items : List Node) : foldItems f items = items.map (fold f) := by
  induction items with
  | nil => rfl
  | cons node rest ih => simp [foldItems, ih]

theorem foldBranches_eq_map {β : Type} (f : Header → Body → List (Branch β) → β)
    (branches : List (Branch Node)) :
    foldBranches f branches = branches.map (Branch.map (fold f)) := by
  induction branches with
  | nil => rfl
  | cons branch rest ih =>
      match branch with
      | .list _ ⟨_, _⟩ => simp [foldBranches, Branch.map, ih, foldItems_eq_map]
      | .slot ⟨_, none⟩ => simp [foldBranches, Branch.map, ih]
      | .slot ⟨_, some _⟩ => simp [foldBranches, Branch.map, ih]
      | .heldAttributes _ => simp [foldBranches, Branch.map, ih, foldItems_eq_map]
      | .heldType none => simp [foldBranches, Branch.map, ih]
      | .heldType (some _) => simp [foldBranches, Branch.map, ih]

/-- A fold is its step applied to the folds of the nodes on the branches. -/
theorem fold_eq {β : Type} (f : Header → Body → List (Branch β) → β) (node : Node) :
    node.fold f = f node.header node.body (node.branches.map (Branch.map (fold f))) := by
  obtain ⟨header, body, branches⟩ := node
  simp [fold, foldBranches_eq_map]

/-! ## Reading branches -/

/-- The nodes that a node owns, in order. -/
def children (node : Node) : List Node := node.branches.flatMap Branch.children

/-- All nodes on the branches, owned or held. -/
def parts (node : Node) : List Node := node.branches.flatMap Branch.items

/-- The list with a role, if the node has one. -/
def list? (node : Node) (role : Role) : Option (ChildList Node) :=
  node.branches.findSome? fun
    | .list r children => if r = role then some children else none
    | _ => none

/-- The members of the list with a role. -/
def itemsIn (node : Node) (role : Role) : List Node :=
  ((node.list? role).map ChildList.items).getD []

def slot? (node : Node) : Option (ChildSlot Node) :=
  node.branches.findSome? fun
    | .slot child => some child
    | _ => none

/-- The attributes, if the node is one that can have them. -/
def attributes? (node : Node) : Option (List Node) :=
  node.branches.findSome? fun
    | .list .attributes children => some children.items
    | .heldAttributes items => some items
    | _ => none

/-- The type, if the node is one that can have it. -/
def type? (node : Node) : Option (Option Node) :=
  node.branches.findSome? fun
    | .slot child => some child.item
    | .heldType item => some item
    | _ => none

/-- The lists that no facet covers, in order. -/
def members (node : Node) : List (Role × List Node) :=
  node.branches.filterMap fun
    | .list .attributes _ => none
    | .list role children => some (role, children.items)
    | _ => none

/-! ## Writing branches -/

/-- Replaces the list with a role, if the node has one. -/
def setList (node : Node) (role : Role) (children : ChildList Node) : Node :=
  { node with branches := node.branches.map fun
      | .list r old => .list r (if r = role then children else old)
      | branch => branch }

/-- Replaces the slot, if the node has one. -/
def setSlot (node : Node) (child : ChildSlot Node) : Node :=
  { node with branches := node.branches.map fun
      | .slot _ => .slot child
      | branch => branch }

/-! ## Facets -/

/-- Where a node's qualified names come from. -/
inductive NameSource where
  | symbolOf (header : Header)
  | fixed (names : FixedNames)
deriving Repr

namespace NameSource

variable {m : Type → Type} [Monad m]

def outerNameBy (symbolOf : Header → m (Option Symbol)) : NameSource → m (Option String)
  | .symbolOf header => header.outerNameBy symbolOf
  | .fixed names => pure names.outerName

def namespaceNameBy (symbolOf : Header → m (Option Symbol)) : NameSource → m (Option String)
  | .symbolOf header => header.namespaceNameBy symbolOf
  | .fixed names => pure names.namespaceName

def qualifiedNameBy (symbolOf : Header → m (Option Symbol)) : NameSource → m (Option String)
  | .symbolOf header => header.qualifiedNameBy symbolOf
  | .fixed names => pure names.qualifiedName

end NameSource

def names? (node : Node) : Option NameSource :=
  match node.body with
  | .typeDecl _ => some (.symbolOf node.header)
  | .probe data => data.names.map .fixed
  | _ => none

def exposes (node : Node) : Facet → Bool
  | .namespaced => node.names?.isSome
  | .accessModifier => node.body.access?.isSome
  | .attributes => node.attributes?.isSome
  | .isStatic => node.body.isStatic?.isSome
  | .returnType => node.type?.isSome
  | .memberTraits => node.body.traits?.isSome

def facets (node : Node) : FacetSet := .ofPredicate node.exposes

/-! ## Rendering types -/

/-- The text of a type from its name, the texts of its arguments and whether it is nullable. -/
def typeText (name : String) (arguments : List String) (isNullable : Bool) : String :=
  let base :=
    if arguments.isEmpty then name else name ++ "<" ++ ", ".intercalate arguments ++ ">"
  if isNullable then base ++ "?" else base

/-- The text of a type reference, with its arguments written out. -/
def displayName (node : Node) : String :=
  node.fold fun header body branches =>
    let arguments := branches.flatMap fun
      | .list .typeArgs texts => texts.items
      | _ => []
    typeText header.name arguments (match body with | .typeRef b => b | _ => false)

end Node

end DeclTree
