import DeclTree.Handle
import DeclTree.Symbol
import DeclTree.Table

/-!
# Resolvers

A resolver answers which symbol a handle stands for. Its registry can change at any time, and it
can be told to fail for a while, so two requests for one handle may be answered
differently. A handle source gives out handles and keeps a registry of its own. `Resolution`
holds all of them, together with the symbols that nodes have kept from earlier answers.
-/

namespace DeclTree

/-- Symbols by construct, counting how often they are looked up. -/
structure Registry where
  symbols : Table SyntaxId Symbol := {}
  lookups : Nat := 0
deriving Repr

namespace Registry

def register (registry : Registry) (id : SyntaxId) (symbol : Symbol) : Registry :=
  { registry with symbols := registry.symbols.insert id symbol }

def unregister (registry : Registry) (id : SyntaxId) : Registry :=
  { registry with symbols := registry.symbols.erase id }

def lookup (registry : Registry) (handle : Handle) : Option Symbol × Registry :=
  (registry.symbols.get? handle.id, { registry with lookups := registry.lookups + 1 })

end Registry

/-- A registry behind a log of requests. The next `failures` requests are refused without
reaching the registry. -/
structure Resolver where
  registry : Registry := {}
  /-- The answers for handles that nothing is registered for. -/
  fallback : Handle → Option Symbol := fun _ => none
  failures : Nat := 0
  /-- Every request so far, oldest first. -/
  log : List Handle := []

/-- Answers a request and records it. -/
def Resolver.ask (resolver : Resolver) (handle : Handle) : Option Symbol × Resolver :=
  let logged := { resolver with log := resolver.log ++ [handle] }
  match logged.failures with
  | 0 =>
      let (answer, registry) := logged.registry.lookup handle
      (answer.or (logged.fallback handle), { logged with registry })
  | failures + 1 => (none, { logged with failures })

/-- Gives out handles with increasing identities and spans, line after line. -/
structure HandleSource where
  nextId : Nat := 1
  line : Nat := 1
  registry : Registry := {}
deriving Repr

namespace HandleSource

/-- A new handle that no symbol is registered for. -/
def unbound (source : HandleSource) (kind : String) : Handle × HandleSource :=
  let start := source.line * 100
  let span : Span := ⟨start, start + 10, source.line, 1⟩
  (.parsed ⟨source.nextId⟩ kind span,
    { source with nextId := source.nextId + 1, line := source.line + 1 })

/-- A new handle with a registered symbol. -/
def bound (source : HandleSource) (kind : String) (symbol : Symbol) : Handle × HandleSource :=
  let (handle, source) := source.unbound kind
  (handle, { source with registry := source.registry.register handle.id symbol })

def skipLines (source : HandleSource) (count : Nat) : HandleSource :=
  { source with line := source.line + count }

end HandleSource

/-- Names one resolver. -/
inductive ResolverId where
  /-- The registry of the handle source. -/
  | source
  | named (name : String)
deriving DecidableEq, Repr

/-- Everything that takes part in resolving symbols. -/
structure Resolution where
  source : HandleSource := {}
  resolvers : Table String Resolver := {}
  /-- The symbol that each node kept, by node. -/
  cache : Table NodeId Symbol := {}

/-- Computations that may ask resolvers and keep their answers. -/
abbrev ResolveM := StateM Resolution

namespace Resolution

/-- A resolver by name; one that was never named is empty. -/
def resolver (state : Resolution) (name : String) : Resolver :=
  (state.resolvers.get? name).getD {}

def setResolver (state : Resolution) (name : String) (resolver : Resolver) : Resolution :=
  { state with resolvers := state.resolvers.insert name resolver }

/-- Makes sure that a resolver exists from now on. -/
def declare (state : Resolution) : ResolverId → Resolution
  | .source => state
  | .named name => state.setResolver name (state.resolver name)

def modifyRegistry (state : Resolution) (id : ResolverId) (f : Registry → Registry) :
    Resolution :=
  match id with
  | .source => { state with source := { state.source with registry := f state.source.registry } }
  | .named name =>
      let resolver := state.resolver name
      state.setResolver name { resolver with registry := f resolver.registry }

def failNext (state : Resolution) (name : String) (count : Nat) : Resolution :=
  state.setResolver name { state.resolver name with failures := count }

/-- Asks one resolver for the symbol of a handle. -/
def ask (state : Resolution) (id : ResolverId) (handle : Handle) :
    Option Symbol × Resolution :=
  match id with
  | .source =>
      let (answer, registry) := state.source.registry.lookup handle
      (answer, { state with source := { state.source with registry } })
  | .named name =>
      let (answer, resolver) := (state.resolver name).ask handle
      (answer, state.setResolver name resolver)

/-- What a resolver would answer now. -/
def answer (state : Resolution) (id : ResolverId) (handle : Handle) : Option Symbol :=
  (state.ask id handle).1

end Resolution

end DeclTree
