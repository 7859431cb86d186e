import DeclTree.Workbench.Answer
import DeclTree.Workbench.Path

/-!
# Steps on lists and on the parameters of methods

Nodes that are put somewhere are taken off the workbench first, and stay off it if they are
refused. Only the steps that try put a refused node back. Nodes are moved between two lists or
methods of which neither lies inside the other, be it in one tree.
-/

namespace DeclTree

inductive ListStep where
  | create (target : String) (kind : Kind) (owner : IdRef)
  | info (list : ListPath)
  | add (list : ListPath) (item : String)
  | tryAdd (list : ListPath) (item : String)
  | addRange (list : ListPath) (items : List String)
  | remove (list : ListPath) (id : IdRef) (target : Option String)
  | move (source : ListPath) (id : IdRef) (dest : ListPath)
  | copyFor (list : ListPath) (owner : IdRef) (target : String)
  | get (list : ListPath) (index : Nat)
  | find (list : ListPath) (id : IdRef)
  | renameFound (list : ListPath) (id : IdRef) (name : String)
  /-- Exchanges a list with one on the workbench, owners included. -/
  | exchange (list : ListPath) (register : String)
deriving Repr

inductive ParameterStep where
  | add (method : Path) (item : String)
  | addAll (method : Path) (items : List String)
  | remove (method : Path) (id : IdRef) (target : Option String)
  | move (source : Path) (id : IdRef) (dest : Path)
deriving Repr

open BenchM

/-- Takes a node off the workbench that has the kind of a list's members. -/
def BenchM.takeFor (path : ListPath) : String → BenchM Node :=
  takeOfKind do return (← listAt path).1

def BenchM.answerList (path : ListPath) : BenchM Answer := do
  return .list (some (← listAt path).2)

def ListStep.run : ListStep → BenchM Answer
  | .create target kind owner => do
      put target (.list kind { owner := ← idOf owner })
      return .done
  | .info path => answerList path
  | .add path name => do
      let node ← takeFor path name
      ofTree (← inList path (InPlace.add node))
      answerList path
  | .tryAdd path name => do
      let node ← takeFor path name
      orPutBack name (← inList path (InPlace.tryAdd node))
      answerList path
  | .addRange path names => do
      let nodes ← names.mapM (takeFor path)
      ofTree (← inList path (InPlace.addRange nodes))
      answerList path
  | .remove path id target => do
      let id ← idOf id
      let removed ← ofTree (← inList path (InPlace.remove id))
      putNode? target removed
      return .removed removed (← listAt path).2
  | .move source id dest => do
      let id ← idOf id
      requireThat ((← listAt source).1 = (← listAt dest).1)
      ofTree (← inBoth listAccess source dest (InPlace.moveTo id))
      return .moved (← listAt source).2 (← listAt dest).2
  | .copyFor path owner target => do
      let owner ← idOf owner
      let (kind, list) ← listAt path
      let copy ← copying (list.copyFor owner)
      put target (.list kind copy)
      return .list (some copy)
  | .get path index => return .node (← listAt path).2.items[index]?
  | .find path id => do
      let id ← idOf id
      return .node ((← listAt path).2.find? id)
  | .renameFound path id name => do
      let id ← idOf id
      let found ← changeList path fun list =>
        match list.modifyFirst? id (Node.withName name) with
        | some list => .ok (true, list)
        | none => .ok (false, list)
      if found then answerList path else return .list none
  | .exchange path register => do
      requireThat (path.root ≠ register)
      let (kind, taken) ← listAt path
      match ← item register with
      | .list registerKind placed =>
          requireThat (registerKind = kind)
          changeList path fun _ => .ok ((), placed)
          put register (.list kind taken)
          return .list (some placed)
      | _ => throw .malformed

/-- The parameters of a method. -/
def BenchM.parametersAt (path : Path) : BenchM (ChildList Node) := do
  require ((← nodeAt path).list? .parameters)

/-- Takes a parameter off the workbench. -/
def BenchM.takeParameter : String → BenchM Node := takeOfKind (return .parameter)

def ParameterStep.run : ParameterStep → BenchM Answer
  | .add path name => do
      let node ← takeParameter name
      ofTree (← inNode path (InPlace.addParameter node))
      return .parameters (← parametersAt path)
  | .addAll path names => do
      let nodes ← names.mapM takeParameter
      ofTree (← inNode path (InPlace.addParameters nodes))
      return .parameters (← parametersAt path)
  | .remove path id target => do
      let id ← idOf id
      let removed ← ofTree (← inNode path (InPlace.removeParameter id))
      let rest ← parametersAt path
      putNode? target removed
      return .removedParameter removed rest
  | .move source id dest => do
      let id ← idOf id
      ofTree (← inBoth nodeAccess source dest (InPlace.moveParameter id))
      return .movedParameter (← parametersAt source) (← parametersAt dest)

end DeclTree
