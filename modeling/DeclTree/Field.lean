import DeclTree.Node.Basic

/-!
# Fields

A node can be asked for its properties one by one, by field or by the field's name. A field
that a node does not have, or whose value is not available, has no answer.
-/

namespace DeclTree

inductive Field where
  | name
  | kind
  | outerName
  | namespaceName
  | qualifiedName
  | accessModifier
  | isStatic
  | returnType
  | isAbstract
  | isOverride
  | isSealed
  | isVirtual
  | attributeCount
  | childCount
  | ordinal
  | isOptional
  | defaultValue
  | parameterModifier
  | isNullable
  | canGet
  | canSet
  | declarationKind
  | isExtension
deriving DecidableEq, Repr

namespace Field

/-- All fields, in the order in which they are listed. -/
def all : List Field :=
  [.name, .kind, .outerName, .namespaceName, .qualifiedName, .accessModifier, .isStatic,
    .returnType, .isAbstract, .isOverride, .isSealed, .isVirtual, .attributeCount, .childCount,
    .ordinal, .isOptional, .defaultValue, .parameterModifier, .isNullable, .canGet, .canSet,
    .declarationKind, .isExtension]

/-- The name by which a field is asked for. -/
def text : Field → String
  | .name => "Name"
  | .kind => "Kind"
  | .outerName => "OuterName"
  | .namespaceName => "Namespace"
  | .qualifiedName => "QualifiedName"
  | .accessModifier => "AccessModifier"
  | .isStatic => "IsStatic"
  | .returnType => "ReturnType"
  | .isAbstract => "IsAbstract"
  | .isOverride => "IsOverride"
  | .isSealed => "IsSealed"
  | .isVirtual => "IsVirtual"
  | .attributeCount => "AttributeCount"
  | .childCount => "ChildCount"
  | .ordinal => "Ordinal"
  | .isOptional => "IsOptional"
  | .defaultValue => "DefaultValue"
  | .parameterModifier => "ParameterModifier"
  | .isNullable => "IsNullable"
  | .canGet => "CanGet"
  | .canSet => "CanSet"
  | .declarationKind => "DeclarationKind"
  | .isExtension => "IsExtension"

/-- The field with a name. Names are case sensitive. -/
def ofText (text : String) : Except TreeError Field :=
  match all.find? fun field => field.text == text with
  | some field => .ok field
  | none => .error (.unknownField text)

end Field

/-- The fields that only nodes of one kind have. -/
def Body.ownField? : Body → Field → Option Value
  | .typeRef isNullable, .isNullable => some (.bool isNullable)
  | .parameter data, .ordinal => some (.ofNat data.ordinal)
  | .parameter data, .isOptional => some (.bool data.isOptional)
  | .parameter data, .defaultValue => some (data.default.getD .null)
  | .parameter data, .parameterModifier => some (.string data.modifier.text)
  | .method data, .isExtension => some (.bool data.isExtension)
  | .property data, .canGet => some (.bool data.canGet)
  | .property data, .canSet => some (.bool data.canSet)
  | .typeDecl data, .declarationKind => some (.string data.kind.keyword)
  | _, _ => none

namespace Node

/-- The value of a field. The outer name is read off the header of any node; the namespace and
the qualified name only of nodes with that facet. -/
def fieldBy {m : Type → Type} [Monad m] (symbolOf : Header → m (Option Symbol)) (node : Node) :
    Field → m (Option Value)
  | .name => return some (.string node.name)
  | .kind => return some (.string node.body.label)
  | .outerName => return (← node.header.outerNameBy symbolOf).map .string
  | .namespaceName =>
      match node.names? with
      | some source => return (← source.namespaceNameBy symbolOf).map .string
      | none => return none
  | .qualifiedName =>
      match node.names? with
      | some source => return (← source.qualifiedNameBy symbolOf).map .string
      | none => return none
  | .accessModifier => return node.body.access?.map fun access => .string access.keyword
  | .isStatic => return node.body.isStatic?.map .bool
  | .returnType => return node.type?.join.map fun type => .string type.name
  | .isAbstract => return node.body.traits?.map fun traits => .bool traits.isAbstract
  | .isOverride => return node.body.traits?.map fun traits => .bool traits.isOverride
  | .isSealed => return node.body.traits?.map fun traits => .bool traits.isSealed
  | .isVirtual => return node.body.traits?.map fun traits => .bool traits.isVirtual
  | .attributeCount => return node.attributes?.map fun attributes => .ofNat attributes.length
  | .childCount => return some (.ofNat node.children.length)
  | field => return node.body.ownField? field

/-- The value of a field, asking the node's resolver where a symbol is needed. -/
def field? (node : Node) (field : Field) : ResolveM (Option Value) :=
  node.fieldBy Header.symbol? field

/-- The value of the field with a name; an unknown name has none. -/
def fieldByName? (node : Node) (name : String) : ResolveM (Option Value) :=
  match Field.ofText name with
  | .ok field => node.field? field
  | .error _ => return none

/-- All fields that have a value, read in order. -/
def fields (node : Node) : ResolveM (List (Field × Value)) := do
  let values ← Field.all.mapM fun field => return (field, ← node.field? field)
  return values.filterMap fun (field, value) => value.map (field, ·)

end Node

end DeclTree
