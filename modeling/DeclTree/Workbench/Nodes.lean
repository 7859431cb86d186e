import DeclTree.Node.Edit
import DeclTree.Workbench.Answer
import DeclTree.Workbench.Path

/-!
# Steps on nodes
-/

namespace DeclTree

/-- Questions to one node. -/
inductive NodeQuery where
  | tree
  | fields
  | facets
  | field (name : String)
  /-- A field that only nodes of one kind have. An unknown name is refused before the node is
  looked for. -/
  | ownField (name : String)
  | find (id : IdRef)
  | displayName
  | handle
  | resolve
  | symbol
  | cached
  | outerName
  | namespaceName
  | qualifiedName
deriving Repr

inductive NodeStep where
  | build (plan : Blueprint) (target : String)
  | copy (node : Path) (target : String)
  | query (node : Path) (query : NodeQuery)
  | setName (node : Path) (name : String)
  | setResolver (node : Path) (resolver : ResolverId)
  /-- Gives a node a new header. Its lists and slots keep their owner. -/
  | replaceHeader (node : Path) (name kind : String)
  | edit (node : Path) (edit : Edit)
  | setType (node : Path) (type : String) (target : Option String)
  /-- Exchanges a node with one on the workbench. Parent links go with the nodes. -/
  | exchange (node : Path) (register : String)
deriving Repr

open BenchM

def NodeQuery.run (path : Path) (query : NodeQuery) : BenchM Answer := do
  match query with
  | .tree => answerTree (← nodeAt path)
  | .fields => return .fields (← resolving (← nodeAt path).fields)
  | .facets => return .facets (← nodeAt path).facets
  | .field name => return .value (← resolving ((← nodeAt path).fieldByName? name))
  | .ownField name =>
      let field ← ofTree (Field.ofText name)
      return .value ((← nodeAt path).body.ownField? field)
  | .find id =>
      let id ← idOf id
      return .node ((← nodeAt path).find? id)
  | .displayName => return .text (some (← nodeAt path).displayName)
  | .handle => return .handle (← nodeAt path).header.handle
  | .resolve =>
      match ← resolving (← nodeAt path).header.resolve with
      | .ok found => return .symbol (some found)
      | .error error => throw (.resolution error)
  | .symbol => return .symbol (← resolving (← nodeAt path).header.symbol?)
  | .cached => return .cached ((← nodeAt path).header.cached? (← get).world.resolution)
  | .outerName => return .text (← resolving (← nodeAt path).header.outerName?)
  | .namespaceName => return .text (← resolving (← nodeAt path).header.namespaceName?)
  | .qualifiedName => return .text (← resolving (← nodeAt path).header.qualifiedName?)

def NodeStep.run : NodeStep → BenchM Answer
  | .build plan target => do
      let node ← building plan.build
      put target (.node node)
      answerTree node
  | .copy path target => do
      let copy ← copying (← nodeAt path).copy
      put target (.node copy)
      answerTree copy
  | .query path question => question.run path
  | .setName path name => do
      modifyNode path (Node.withName name)
      return .done
  | .setResolver path resolver => do
      resolving (modify fun state => state.declare resolver)
      modifyNode path fun node =>
        { node with header := { node.header with resolver := some resolver } }
      return .done
  | .replaceHeader path name kind => do
      let header ← allocating (Header.detached name kind)
      modifyNode path fun node => { node with header }
      return .id header.id
  | .edit path change => do
      modifyNode path fun node => node.setBody (change.apply node.body)
      let node ← nodeAt path
      return .view ⟨node, node.header.cached? (← get).world.resolution⟩
  | .setType path name target => do
      let type ← takeOfKind (return .typeRef) name
      requireThat (← nodeAt path).slot?.isSome
      let previous ← ofTree (← inNode path (InPlace.setType type))
      putNode? target previous
      return .typeSet previous (← viewsOf (← nodeAt path))
  | .exchange path register => do
      requireThat (path.register ≠ register)
      let taken ← nodeAt path
      let placed ← takeNode register
      requireThat (placed.kind = taken.kind)
      modifyNode path fun _ => placed
      put register (.node taken)
      return .exchanged placed taken

end DeclTree
