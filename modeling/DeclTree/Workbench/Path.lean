import DeclTree.Node.InPlace
import DeclTree.Workbench.Basic

/-!
# Paths

A path starts at a thing on the workbench and leads to a node. Nodes can be read through any
path. They can be changed only through lists, and the parameters of a method only one by one,
so that their ordinals stay in step.
-/

namespace DeclTree

/-- One step of a path. What it means depends on where the path has led so far. -/
inductive Segment where
  /-- A place in a list. -/
  | index (index : Nat)
  /-- What is in a slot. -/
  | item
  /-- The type of a node. -/
  | type
  /-- The children of a node. -/
  | children
  /-- The list of a node with a role. -/
  | members (role : Role)
  /-- A name that no node has anything under. -/
  | unknown (name : String)
deriving DecidableEq, Repr

structure Path where
  register : String
  segments : List Segment := []
deriving DecidableEq, Repr

/-- Names a list: one on the workbench, or one of a node. -/
inductive ListPath where
  | register (name : String)
  | branch (node : Path) (role : Role)
deriving DecidableEq, Repr

/-- The thing on the workbench where the path starts. -/
def ListPath.root : ListPath → String
  | .register name => name
  | .branch node _ => node.register

/-- Names an identity. -/
inductive IdRef where
  | given (id : NodeId)
  /-- A new one. -/
  | fresh
  | node (path : Path)
deriving DecidableEq, Repr

/-! ## Reading -/

/-- The node at the end of a path that starts at a node. A list is followed by an index. -/
def Node.at? (node : Node) : List Segment → Option Node
  | [] => some node
  | .members role :: .index index :: rest =>
      match (node.itemsIn role)[index]? with
      | some member => member.at? rest
      | none => none
  | .type :: rest =>
      match node.type?.join with
      | some type => type.at? rest
      | none => none
  | .children :: .index index :: rest =>
      match node.children[index]? with
      | some child => child.at? rest
      | none => none
  | _ => none

/-- The node at the end of a path that starts at a thing on the workbench. A slot has room for one
node: whichever segment follows it leads there, and a path may also stop at the slot. -/
def Item.at? : Item → List Segment → Option Node
  | .node root, segments => root.at? segments
  | .list _ members, .index index :: rest => members.items[index]?.bind (·.at? rest)
  | .slot _ place, segments => place.item.bind (·.at? segments.tail)
  | _, _ => none

/-! ## Changing -/

/-- A change that may be refused and gives something back. -/
abbrev Change (σ α : Type) := σ → Except Refusal (α × σ)

section Changes

variable {α : Type}

/-- Changes the entry of a list at an index. -/
def changeIndex (change : Change Node α) (index : Nat) (nodes : List Node) :
    Except Refusal (α × List Node) :=
  match nodes[index]? with
  | some node => do
      let (result, node) ← change node
      return (result, nodes.set index node)
  | none => .error .malformed

/-- Changes the node at the end of a path that leads through lists. -/
def Node.changeAt (change : Change Node α) : List Segment → Change Node α
  | [], node => change node
  | .members role :: .index index :: rest, node =>
      match node.list? role with
      | some list => do
          let (result, items) ← changeIndex (changeAt change rest) index list.items
          return (result, node.setList role { list with items })
      | none => .error .malformed
  | _, _ => .error .malformed

def Item.changeAt (change : Change Node α) : List Segment → Change Item α
  | segments, .node root => do
      let (result, root) ← Node.changeAt change segments root
      return (result, .node root)
  | .index index :: rest, .list kind members => do
      let (result, items) ← changeIndex (Node.changeAt change rest) index members.items
      return (result, .list kind { members with items })
  | segments, .slot kind place =>
      match place.item with
      | some root => do
          let (result, root) ← Node.changeAt change segments.tail root
          return (result, .slot kind { place with item := some root })
      | none => .error .malformed
  | _, _ => .error .malformed

end Changes

/-! ## Places -/

/-- Whether the segments lead through lists only, where nodes can be changed. -/
def Segment.throughLists : List Segment → Bool
  | [] => true
  | .members _ :: .index _ :: rest => throughLists rest
  | _ => false

/-- The way from a thing to a node in it that can be changed. Every such node has one way only. -/
def Item.way? : Item → List Segment → Option (List Segment)
  | .node _, segments => if Segment.throughLists segments then some segments else none
  | .list _ _, .index index :: rest =>
      if Segment.throughLists rest then some (.index index :: rest) else none
  | .slot _ _, segments => if Segment.throughLists segments.tail then some segments.tail else none
  | _, _ => none

/-- A thing on the workbench, and the way to a node or a list in it. -/
structure Site where
  root : String
  way : List Segment
deriving DecidableEq, Repr

/-- Whether neither of two places lies inside the other. -/
def Site.apart (left right : Site) : Bool :=
  left.root ≠ right.root ||
    (!left.way.isPrefixOf right.way && !right.way.isPrefixOf left.way)

namespace BenchM

variable {α : Type}

def nodeAt (path : Path) : BenchM Node := do
  require ((← item path.register).at? path.segments)

def changeNode (path : Path) (change : Change Node α) : BenchM α := do
  let (result, item) ← ofExcept (Item.changeAt change path.segments (← item path.register))
  put path.register item
  return result

/-- Changes a node in a way that cannot be refused. -/
def modifyNode (path : Path) (f : Node → Node) : BenchM Unit :=
  changeNode path fun node => .ok ((), f node)

def idOf : IdRef → BenchM NodeId
  | .given id => return id
  | .fresh => allocating Supply.freshNode
  | .node path => return (← nodeAt path).id

/-- A list and the kind of its members. -/
def listAt : ListPath → BenchM (Kind × ChildList Node)
  | .register name => do
      match ← item name with
      | .list kind list => return (kind, list)
      | _ => throw .malformed
  | .branch path role => do
      return (role.kind, ← require ((← nodeAt path).list? role))

/-- Changes a list. The parameters of a method are left to their own steps. -/
def changeList (path : ListPath) (change : Change (ChildList Node) α) : BenchM α := do
  match path with
  | .register name =>
      match ← item name with
      | .list kind list =>
          let (result, list) ← ofExcept (change list)
          put name (.list kind list)
          return result
      | _ => throw .malformed
  | .branch path role =>
      requireThat (role ≠ .parameters)
      changeNode path fun node =>
        match node.list? role with
        | some list => do
            let (result, list) ← change list
            return (result, node.setList role list)
        | none => .error .malformed

/-- Where a node that can be changed is. -/
def siteOf (path : Path) : BenchM Site := do
  return ⟨path.register, ← require ((← item path.register).way? path.segments)⟩

/-- Where a list that can be changed is. -/
def listSiteOf : ListPath → BenchM Site
  | .register name => return ⟨name, []⟩
  | .branch path role => do
      requireThat (role ≠ .parameters)
      let site ← siteOf path
      return { site with way := site.way ++ [.members role] }

/-! ### Operations in place -/

/-- Lets an operation work on a node in place. What it has written stays written if it is refused. -/
def inNode {ε : Type} (path : Path) (run : InPlace ε Node α) : BenchM (Except ε α) :=
  changeNode path fun node => .ok (run.run node)

def inList {ε : Type} (path : ListPath) (run : InPlace ε (ChildList Node) α) :
    BenchM (Except ε α) :=
  changeList path fun list => .ok (run.run list)

/-- How the things that paths of some sort lead to are located, read and written. -/
structure Access (π σ : Type) where
  site : π → BenchM Site
  read : π → BenchM σ
  write : π → σ → BenchM Unit

def nodeAccess : Access Path Node where
  site := siteOf
  read := nodeAt
  write path node := modifyNode path fun _ => node

def listAccess : Access ListPath (ChildList Node) where
  site := listSiteOf
  read path := return (← listAt path).2
  write path list := changeList path fun _ => .ok ((), list)

/-- Lets an operation work on two things in place, neither of which lies inside the other. -/
def inBoth {ε π σ : Type} (access : Access π σ) (source dest : π) (run : InPlace ε (σ × σ) α) :
    BenchM (Except ε α) := do
  requireThat ((← access.site source).apart (← access.site dest))
  let (result, left, joined) := run.run (← access.read source, ← access.read dest)
  access.write source left
  access.write dest joined
  return result

end BenchM

end DeclTree
