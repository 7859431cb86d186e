import DeclTree.Matching
import DeclTree.Node.Kind
import DeclTree.Payload
import DeclTree.Symbol

/-!
# Bodies

The data a node has of its own, apart from its header and its children.
-/

namespace DeclTree

/-- An argument of an attribute, positional when it has no name. -/
structure Argument where
  name : Option String
  value : Value
deriving Repr

namespace Argument

def isNamed (argument : Argument) : Bool := argument.name.isSome

def eq (left right : Argument) : Bool :=
  left.name == right.name && left.value.eq right.value

def sameIntent (left right : Argument) : Bool :=
  left.name == right.name && left.value.sameIntent right.value

/-- Whether two lists of arguments are equal, entry by entry. -/
def eqAll (left right : List Argument) : Bool :=
  left.length == right.length && (left.zip right).all fun pair => pair.1.eq pair.2

/-- Positional arguments agree in order, named ones cover each other. -/
def sameIntentAll (left right : List Argument) : Bool :=
  let positional := List.filter fun (argument : Argument) => !argument.isNamed
  let named := List.filter isNamed
  (positional left).length == (positional right).length &&
    ((positional left).zip (positional right)).all (fun pair => pair.1.sameIntent pair.2) &&
    Matching.coversBoth sameIntent (named left) (named right)

end Argument

structure ParameterData where
  /-- Position in the owning method. -/
  ordinal : Nat := 0
  modifier : ParameterModifier := .none
  default : Option Value := none
deriving Repr

/-- A parameter with a default may be left out. -/
def ParameterData.isOptional (data : ParameterData) : Bool := data.default.isSome

structure MethodData where
  access : AccessModifier := .none
  modifiers : Modifiers := {}
  isExtension : Bool := false
deriving Repr

structure PropertyData where
  access : AccessModifier := .none
  modifiers : Modifiers := {}
  canGet : Bool := true
  canSet : Bool := true
deriving Repr

structure TypeDeclData where
  kind : DeclarationKind := .classType
  access : AccessModifier := .none
  isStatic : Bool := false
  isAbstract : Bool := false
  isSealed : Bool := false
deriving Repr

/-- Names that are given once and for all instead of being derived from a symbol. -/
structure FixedNames where
  outerName : Option String
  namespaceName : Option String
  qualifiedName : Option String
deriving DecidableEq, Repr

/-- The type of a probe and what it answers from its own data. -/
structure ProbeData where
  type : String := "probe"
  names : Option FixedNames := none
  access : Option AccessModifier := none
  isStatic : Option Bool := none
  traits : Option MemberTraits := none
  /-- What nodes of its type compare beside their facets. -/
  content : String := ""
deriving Repr

inductive Body where
  | typeRef (isNullable : Bool)
  | attribute (arguments : List Argument)
  | parameter (data : ParameterData)
  | method (data : MethodData)
  | property (data : PropertyData)
  | typeDecl (data : TypeDeclData)
  | extension (payload : Payload)
  | probe (data : ProbeData)
deriving Repr

namespace Body

def kind : Body → Kind
  | .typeRef _ => .typeRef
  | .attribute _ => .attribute
  | .parameter _ => .parameter
  | .method _ => .method
  | .property _ => .property
  | .typeDecl _ => .typeDecl
  | .extension _ => .extension
  | .probe _ => .probe

/-- The name of the node's type. -/
def label : Body → String
  | .probe data => data.type
  | body => body.kind.label

/-- Whether the nodes are of one type. -/
def sameType (left right : Body) : Bool := left.kind == right.kind && left.label == right.label

theorem label_eq {body : Body} (h : body.kind ≠ .probe) : body.label = body.kind.label := by
  cases body with
  | probe data => exact absurd rfl h
  | _ => rfl

theorem sameType_iff {left right : Body} :
    left.sameType right = true ↔ left.kind = right.kind ∧ left.label = right.label := by
  simp [sameType]

/-- In the catalog each kind is one type. -/
theorem sameType_of_kind_eq {left right : Body} (kind : left.kind = right.kind)
    (h : left.kind ≠ .probe) : left.sameType right = true := by
  rw [sameType_iff, label_eq h, label_eq (kind ▸ h), kind]
  exact ⟨rfl, rfl⟩

def access? : Body → Option AccessModifier
  | .method data => some data.access
  | .property data => some data.access
  | .typeDecl data => some data.access
  | .probe data => data.access
  | _ => none

def isStatic? : Body → Option Bool
  | .method data => some data.modifiers.isStatic
  | .property data => some data.modifiers.isStatic
  | .typeDecl data => some data.isStatic
  | .probe data => data.isStatic
  | _ => none

def traits? : Body → Option MemberTraits
  | .method data => some data.modifiers.toMemberTraits
  | .property data => some data.modifiers.toMemberTraits
  | .probe data => data.traits
  | _ => none

/-- Takes over what a symbol says about the declaration it belongs to. -/
def seed (symbol : Symbol) : Body → Body
  | .method data => .method { data with access := symbol.access, modifiers := symbol.modifiers }
  | .property data =>
      .property { data with access := symbol.access, modifiers := symbol.modifiers }
  | .typeDecl data =>
      .typeDecl { data with
        access := symbol.access
        isStatic := symbol.modifiers.isStatic
        isAbstract := symbol.modifiers.isAbstract
        isSealed := symbol.modifiers.isSealed }
  | body => body

/-- The content of a probe. Another node has none that a probe could compare with its own. -/
def probeContent : Body → String
  | .probe data => data.content
  | _ => ""

/-- Whether the data that no facet covers agree. -/
def sameContent : Body → Body → Bool
  | .probe a, b => a.content == b.probeContent
  | .typeRef a, .typeRef b => a == b
  | .attribute a, .attribute b => Argument.sameIntentAll a b
  | .parameter a, .parameter b => a.modifier == b.modifier && sameIntentOption a.default b.default
  | .method a, .method b => a.isExtension == b.isExtension
  | .property a, .property b => a.canGet == b.canGet && a.canSet == b.canSet
  | .typeDecl a, .typeDecl b =>
      a.kind == b.kind && a.isAbstract == b.isAbstract && a.isSealed == b.isSealed
  | .extension a, .extension b => a.intentKey == b.intentKey
  | _, _ => false

/-- The body of a copy, or why there is none; only a payload can stand in the way. -/
def duplicate : Body → Except String Body
  | .extension payload =>
      match payload.duplicate? with
      | some payload => .ok (.extension payload)
      | none => .error ("payload '" ++ payload.describe ++ "' has no copy path")
  | body => .ok body

end Body

end DeclTree
