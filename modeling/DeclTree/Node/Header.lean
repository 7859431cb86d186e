import DeclTree.Annotation
import DeclTree.Error
import DeclTree.World

/-!
# Headers

The part that all nodes have in common: identity, name, the handle they stand for, the
resolver to ask for their symbol, the link to their owner, and annotations.

A node's symbol is asked for when it is first needed. The answer is kept under the node's
identity; a failed request is not kept, so the next read asks again.
-/

namespace DeclTree

structure Header where
  id : NodeId
  name : String
  handle : Handle
  resolver : Option ResolverId := none
  /-- The owner, while the node stands in a list or slot. -/
  parent : Option NodeId := none
  annotations : AnnotationStore := {}
deriving Repr

namespace Header

/-! ## Reading the symbol -/

/-- The symbol of a node, kept from now on if the resolver knows it. -/
def resolve (header : Header) : ResolveM (Except ResolutionError Symbol) := fun state =>
  match header.resolver with
  | none => (.error (.unbound header.handle.id), state)
  | some resolver =>
      match state.cache.get? header.id with
      | some symbol => (.ok symbol, state)
      | none =>
          match state.ask resolver header.handle with
          | (some symbol, state) =>
              (.ok symbol, { state with cache := state.cache.insert header.id symbol })
          | (none, state) => (.error (.notFound header.handle.id), state)

/-- The symbol, if it can be had. -/
def symbol? (header : Header) : ResolveM (Option Symbol) := do
  return (← header.resolve).toOption

/-- The symbol kept earlier. Asks no resolver. -/
def cached? (header : Header) (state : Resolution) : Option Symbol :=
  state.cache.get? header.id

/-- The symbol that a read would give now: the one kept earlier, or else the resolver's answer. -/
def effectiveSymbol (header : Header) (state : Resolution) : Option Symbol :=
  match header.resolver with
  | none => none
  | some resolver => (header.cached? state).or (state.answer resolver header.handle)

/-! ## Qualified names

Names are derived from the node's own name and whatever symbol it is given. The way in which the
symbol is found is a parameter, so that names can also be read without asking anyone.
-/

section Names

variable {m : Type → Type} [Monad m]

/-- The name qualified by the enclosing types. -/
def outerNameBy (symbolOf : Header → m (Option Symbol)) (header : Header) :
    m (Option String) := do
  return (← symbolOf header).map fun symbol => symbol.outerName header.name

def namespaceNameBy (symbolOf : Header → m (Option Symbol)) (header : Header) :
    m (Option String) := do
  return (← symbolOf header).map Symbol.namespaceName

/-- The name qualified by the namespace and the enclosing types. -/
def qualifiedNameBy (symbolOf : Header → m (Option Symbol)) (header : Header) :
    m (Option String) := do
  return (← symbolOf header).map fun symbol => symbol.qualifiedName header.name

end Names

def outerName? (header : Header) : ResolveM (Option String) := header.outerNameBy symbol?

def namespaceName? (header : Header) : ResolveM (Option String) := header.namespaceNameBy symbol?

def qualifiedName? (header : Header) : ResolveM (Option String) := header.qualifiedNameBy symbol?

/-! ## Making headers -/

/-- The header of a node made in memory. -/
def detached (name kind : String) : StateM Supply Header := do
  return { id := ← Supply.freshNode, name, handle := .synthetic kind }

/-- The header of a node that stands for a construct. The resolver is asked once, and if it
knows the construct the node takes its name. -/
def bind (handle : Handle) (resolver : ResolverId) : StateM World Header := do
  let header : Header :=
    { id := ← World.allocating Supply.freshNode, name := "", handle, resolver := some resolver }
  match ← World.resolving header.symbol? with
  | some symbol => return { header with name := symbol.name }
  | none => return header

/-- A header with a new identity and no owner, whose annotations are copies. -/
def copy (header : Header) : StateM Supply Header := do
  let id ← Supply.freshNode
  let annotations ← header.annotations.copyEntries
  return { header with id, parent := none, annotations := ⟨annotations⟩ }

end Header

end DeclTree
