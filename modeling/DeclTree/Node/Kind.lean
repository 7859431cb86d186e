/-!
# Kinds of nodes and roles of children

Every node has a kind, and all types of nodes outside the catalog are one kind. The children of a
node stand in lists, each with a role, or in the slot for its type. The role of a list fixes the
kind of its members and how two such lists are compared.
-/

namespace DeclTree

inductive Kind where
  | typeRef
  | attribute
  | parameter
  | method
  | property
  | typeDecl
  | extension
  /-- A node of another type, whose facets are chosen one by one. -/
  | probe
deriving DecidableEq, Repr

def Kind.label : Kind → String
  | .typeRef => "type_reference"
  | .attribute => "attribute"
  | .parameter => "parameter"
  | .method => "method"
  | .property => "property"
  | .typeDecl => "type_declaration"
  | .extension => "extension"
  | .probe => "probe"

/-- The roles of child lists. -/
inductive Role where
  | attributes
  | typeArgs
  | parameters
  | methods
  | properties
  | nested
  | extensions
deriving DecidableEq, Repr

/-- How two lists are compared. -/
inductive Pairing where
  /-- Position by position. -/
  | ordered
  /-- In any order, each member with a partner of its own. -/
  | unordered
  /-- Each side covers the other. -/
  | coverage
deriving DecidableEq, Repr

namespace Role

/-- The kind of the members. -/
def kind : Role → Kind
  | .attributes => .attribute
  | .typeArgs => .typeRef
  | .parameters => .parameter
  | .methods => .method
  | .properties => .property
  | .nested => .typeDecl
  | .extensions => .extension

def pairing : Role → Pairing
  | .attributes => .coverage
  | .typeArgs | .parameters => .ordered
  | .methods | .properties | .nested | .extensions => .unordered

end Role

inductive DeclarationKind where
  | classType
  | structType
  | interfaceType
deriving DecidableEq, Repr

def DeclarationKind.keyword : DeclarationKind → String
  | .classType => "class"
  | .structType => "struct"
  | .interfaceType => "interface"

inductive ParameterModifier where
  | none
  | byRef
  | byOut
  | byIn
  | params
deriving DecidableEq, Repr

namespace ParameterModifier

def keyword : ParameterModifier → String
  | .none => ""
  | .byRef => "ref"
  | .byOut => "out"
  | .byIn => "in"
  | .params => "params"

def text : ParameterModifier → String
  | .none => "none"
  | modifier => modifier.keyword

end ParameterModifier

end DeclTree
