/-!
# Symbols

What a resolver knows about a declaration: its name, the namespace and types around it, its
accessibility and its modifiers. A symbol qualifies a leaf name, first by the enclosing
types and then by the namespace.
-/

namespace DeclTree

inductive AccessModifier where
  | none
  | privateAccess
  | protectedAccess
  | internalAccess
  | protectedInternal
  | privateProtected
  | publicAccess
deriving DecidableEq, Repr

namespace AccessModifier

/-- The words as written in a declaration, empty when none are written. -/
def keyword : AccessModifier → String
  | .none => ""
  | .privateAccess => "private"
  | .protectedAccess => "protected"
  | .internalAccess => "internal"
  | .protectedInternal => "protected internal"
  | .privateProtected => "private protected"
  | .publicAccess => "public"

def text : AccessModifier → String
  | .none => "none"
  | access => access.keyword

end AccessModifier

/-- Traits that methods and properties share. -/
structure MemberTraits where
  isAbstract : Bool := false
  isOverride : Bool := false
  isSealed : Bool := false
  isVirtual : Bool := false
deriving DecidableEq, Repr

structure Modifiers extends MemberTraits where
  isStatic : Bool := false
deriving DecidableEq, Repr

inductive SymbolKind where
  | type
  | method
  | property
  | parameter
  | attribute
  | typeReference
  | other
deriving DecidableEq, Repr

structure Symbol where
  name : String
  kind : SymbolKind := .other
  namespaceName : String := ""
  /-- Names of the enclosing types, outermost first. -/
  containing : List String := []
  access : AccessModifier := .none
  modifiers : Modifiers := {}
deriving DecidableEq, Repr

namespace Symbol

/-- A leaf name qualified by the enclosing types. -/
def outerName (symbol : Symbol) (leaf : String) : String :=
  ".".intercalate (symbol.containing ++ [leaf])

/-- A leaf name qualified by the enclosing types and the namespace, if there is one. -/
def qualifiedName (symbol : Symbol) (leaf : String) : String :=
  if symbol.namespaceName = "" then symbol.outerName leaf
  else symbol.namespaceName ++ "." ++ symbol.outerName leaf

end Symbol

end DeclTree
