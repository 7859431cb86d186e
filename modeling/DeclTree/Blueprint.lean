import DeclTree.Node.Copy
import DeclTree.Node.Parameters

/-!
# Blueprints

A blueprint says how a tree is to be built. There is one type of plan for each kind of node, so
that no plan puts a node where its kind does not belong. A node is made before its children,
except for the arguments of a generic type and the type of a typed parameter, and children
are built one after the other.
-/

namespace DeclTree

/-- Computations that build nodes. What was taken or asked for before a refusal stays so. -/
abbrev BuildM := ExceptT TreeError (StateM World)

namespace BuildM

/-- Lets an operation on trees take part in building. -/
def ofExcept {α : Type} (result : Except TreeError α) : BuildM α := ExceptT.mk (pure result)

/-- Lets a computation that takes identities and may be refused take part in building. -/
def ofAlloc {α : Type} (run : AllocM α) : BuildM α := ExceptT.mk (World.allocating run.run)

/-- Lets a computation that takes identities and cannot be refused take part in building. -/
def allocating {α : Type} (run : StateM Supply α) : BuildM α :=
  ExceptT.lift (World.allocating run)

/-- Lets a computation that resolves symbols take part in building. -/
def resolving {α : Type} (run : ResolveM α) : BuildM α := ExceptT.lift (World.resolving run)

end BuildM

/-- How a plan comes by a handle. -/
inductive HandlePlan where
  | given (handle : Handle)
  /-- A new handle of the handle source. -/
  | unbound (kind : String)
  /-- A new handle of the handle source, with its symbol. -/
  | bound (kind : String) (symbol : Symbol)
deriving Repr

def HandlePlan.realize : HandlePlan → ResolveM Handle
  | .given handle => return handle
  | .unbound kind => fun state =>
      let (handle, source) := state.source.unbound kind
      (handle, { state with source })
  | .bound kind symbol => fun state =>
      let (handle, source) := state.source.bound kind symbol
      (handle, { state with source })

structure BindingPlan where
  handle : HandlePlan
  resolver : ResolverId
deriving Repr

/-- What the plans of all kinds have in common. -/
structure HeaderPlan where
  name : String := ""
  binding : Option BindingPlan := none
  /-- A name given after the node was made. -/
  rename : Option String := none
  annotations : List (String × Value) := []
deriving Repr

namespace HeaderPlan

/-- Gets the handle, then makes sure that the resolver exists. -/
def prepare (plan : HeaderPlan) : StateM World (Option (Handle × ResolverId)) :=
  match plan.binding with
  | none => return none
  | some binding => World.resolving do
      let handle ← binding.handle.realize
      modify fun state => state.declare binding.resolver
      return some (handle, binding.resolver)

/-- Makes a node with the given body, bound if a handle was prepared for it. -/
def start (plan : HeaderPlan) (body : Body) :
    Option (Handle × ResolverId) → StateM World Node
  | some (handle, resolver) => Node.bind body handle resolver
  | none => World.allocating (Node.create body plan.name)

/-- Renames and annotates a new node. -/
def finish (plan : HeaderPlan) (node : Node) : StateM World Node := do
  let header := { node.header with name := plan.rename.getD node.header.name }
  let annotations ← World.allocating <|
    plan.annotations.mapM fun (key, value) => Annotation.create key value
  return { node with
    header := { header with annotations := header.annotations.append annotations } }

/-- Makes, renames and annotates a node. -/
def make (plan : HeaderPlan) (body : Body) : StateM World Node := do
  plan.finish (← plan.start body (← plan.prepare))

end HeaderPlan

namespace Node

/-- Puts built nodes into the list with a role. -/
def attach (node : Node) (role : Role) (nodes : List Node) : BuildM Node :=
  BuildM.ofExcept (node.editList role fun list => list.addRange nodes)

/-- Puts a built type into the slot, if there is one. -/
def attachType (node : Node) : Option Node → BuildM Node
  | some type => BuildM.ofExcept ((node.setType type).map Prod.snd)
  | none => return node

def setBody (node : Node) (body : Body) : Node := { node with body }

end Node

/-! ## Plans without recursion, and type references -/

structure AttributePlan where
  header : HeaderPlan := {}
  arguments : List Argument := []
deriving Repr

def AttributePlan.build (plan : AttributePlan) : BuildM Node := do
  let node ← plan.header.make (.attribute [])
  return node.setBody (.attribute plan.arguments)

structure ExtensionPlan where
  header : HeaderPlan := {}
  payload : Payload
deriving Repr

def ExtensionPlan.build (plan : ExtensionPlan) : BuildM Node := do
  plan.header.make (.extension plan.payload)

structure TypeRefPlan where
  header : HeaderPlan := {}
  /-- Arguments that are built before the reference itself. -/
  generic : Option (List TypeRefPlan) := none
  arguments : List TypeRefPlan := []
  isNullable : Bool := false
deriving Repr

namespace TypeRefPlan

mutual

def build : TypeRefPlan → BuildM Node
  | ⟨header, generic, arguments, isNullable⟩ => do
      let binding ← header.prepare
      let node ← match ← buildGeneric generic with
        | some nodes => BuildM.ofAlloc (Node.generic header.name nodes)
        | none => header.start (.typeRef false) binding
      let node ← header.finish node
      let node ← node.attach .typeArgs (← buildAll arguments)
      return node.setBody (.typeRef isNullable)

def buildGeneric : Option (List TypeRefPlan) → BuildM (Option (List Node))
  | some plans => some <$> buildAll plans
  | none => return none

def buildAll : List TypeRefPlan → BuildM (List Node)
  | [] => return []
  | plan :: plans => return (← build plan) :: (← buildAll plans)

end

end TypeRefPlan

/-- Builds the type of a plan that has one. -/
def TypeRefPlan.buildOption : Option TypeRefPlan → BuildM (Option Node)
  | some plan => some <$> plan.build
  | none => return none

/-! ## Plans with children -/

structure ParameterPlan where
  header : HeaderPlan := {}
  /-- A type that is built before the parameter itself. -/
  typed : Option TypeRefPlan := none
  attributes : List AttributePlan := []
  type : Option TypeRefPlan := none
  modifier : ParameterModifier := .none
  default : Option Value := none
deriving Repr

def ParameterPlan.build (plan : ParameterPlan) : BuildM Node := do
  let binding ← plan.header.prepare
  let node ← match ← TypeRefPlan.buildOption plan.typed with
    | some type => BuildM.ofAlloc (Node.typed plan.header.name type)
    | none => plan.header.start (.parameter {}) binding
  let node ← plan.header.finish node
  let node ← node.attach .attributes (← plan.attributes.mapM AttributePlan.build)
  let node ← node.attachType (← TypeRefPlan.buildOption plan.type)
  return node.setBody (.parameter { modifier := plan.modifier, default := plan.default })

structure MethodPlan where
  header : HeaderPlan := {}
  attributes : List AttributePlan := []
  type : Option TypeRefPlan := none
  parameters : List ParameterPlan := []
  access : Option AccessModifier := none
  modifiers : Option Modifiers := none
  isExtension : Bool := false
deriving Repr

/-- What a plan leaves open stays as the symbol says. -/
def MethodPlan.apply (plan : MethodPlan) (data : MethodData) : MethodData :=
  { access := plan.access.getD data.access
    modifiers := plan.modifiers.getD data.modifiers
    isExtension := plan.isExtension }

def MethodPlan.build (plan : MethodPlan) : BuildM Node := do
  let node ← plan.header.make (.method {})
  let node ← node.attach .attributes (← plan.attributes.mapM AttributePlan.build)
  let node ← node.attachType (← TypeRefPlan.buildOption plan.type)
  let parameters ← plan.parameters.mapM ParameterPlan.build
  let node ← BuildM.ofExcept (node.addParameters parameters)
  match node.body with
  | .method data => return node.setBody (.method (plan.apply data))
  | _ => return node

structure PropertyPlan where
  header : HeaderPlan := {}
  attributes : List AttributePlan := []
  type : Option TypeRefPlan := none
  access : Option AccessModifier := none
  modifiers : Option Modifiers := none
  accessors : Option (Bool × Bool) := none
deriving Repr

/-- What a plan leaves open stays as the symbol says. -/
def PropertyPlan.apply (plan : PropertyPlan) (data : PropertyData) : PropertyData :=
  { access := plan.access.getD data.access
    modifiers := plan.modifiers.getD data.modifiers
    canGet := (plan.accessors.map Prod.fst).getD data.canGet
    canSet := (plan.accessors.map Prod.snd).getD data.canSet }

def PropertyPlan.build (plan : PropertyPlan) : BuildM Node := do
  let node ← plan.header.make (.property {})
  let node ← node.attach .attributes (← plan.attributes.mapM AttributePlan.build)
  let node ← node.attachType (← TypeRefPlan.buildOption plan.type)
  match node.body with
  | .property data => return node.setBody (.property (plan.apply data))
  | _ => return node

/-! ## Type declarations -/

/-- What a plan for a type declaration says about its own data. -/
structure TypeDeclDataPlan where
  kind : Option DeclarationKind := none
  access : Option AccessModifier := none
  isStatic : Option Bool := none
  isAbstract : Option Bool := none
  isSealed : Option Bool := none
deriving Repr

/-- What a plan leaves open stays as the symbol says. -/
def TypeDeclDataPlan.apply (plan : TypeDeclDataPlan) (data : TypeDeclData) : TypeDeclData :=
  { kind := plan.kind.getD data.kind
    access := plan.access.getD data.access
    isStatic := plan.isStatic.getD data.isStatic
    isAbstract := plan.isAbstract.getD data.isAbstract
    isSealed := plan.isSealed.getD data.isSealed }

structure TypeDeclPlan where
  header : HeaderPlan := {}
  data : TypeDeclDataPlan := {}
  attributes : List AttributePlan := []
  methods : List MethodPlan := []
  properties : List PropertyPlan := []
  nested : List TypeDeclPlan := []
  extensions : List ExtensionPlan := []
deriving Repr

namespace TypeDeclPlan

mutual

def build : TypeDeclPlan → BuildM Node
  | ⟨header, data, attributes, methods, properties, nested, extensions⟩ => do
      let node ← header.make (.typeDecl {})
      let node ← node.attach .attributes (← attributes.mapM AttributePlan.build)
      let node ← node.attach .methods (← methods.mapM MethodPlan.build)
      let node ← node.attach .properties (← properties.mapM PropertyPlan.build)
      let node ← node.attach .nested (← buildAll nested)
      let node ← node.attach .extensions (← extensions.mapM ExtensionPlan.build)
      match node.body with
      | .typeDecl old => return node.setBody (.typeDecl (data.apply old))
      | _ => return node

def buildAll : List TypeDeclPlan → BuildM (List Node)
  | [] => return []
  | plan :: plans => return (← build plan) :: (← buildAll plans)

end

end TypeDeclPlan

/-! ## All plans -/

/-- A plan for a node of any kind. A probe holds nodes of any kind. -/
inductive Blueprint where
  | typeRef (plan : TypeRefPlan)
  | attribute (plan : AttributePlan)
  | parameter (plan : ParameterPlan)
  | method (plan : MethodPlan)
  | property (plan : PropertyPlan)
  | typeDecl (plan : TypeDeclPlan)
  | extension (plan : ExtensionPlan)
  | probe (header : HeaderPlan) (data : ProbeData) (attributes : Option (List Blueprint))
      (type : Option (Option Blueprint))
deriving Repr

namespace Blueprint

mutual

def build : Blueprint → BuildM Node
  | .typeRef plan => plan.build
  | .attribute plan => plan.build
  | .parameter plan => plan.build
  | .method plan => plan.build
  | .property plan => plan.build
  | .typeDecl plan => plan.build
  | .extension plan => plan.build
  | .probe header data attributes type => do
      let node ← header.make (.probe data)
      let attributes ← buildAttributes attributes
      let type ← buildType type
      return { node with
        branches := (attributes.map Branch.heldAttributes).toList ++
          (type.map Branch.heldType).toList }

def buildAttributes : Option (List Blueprint) → BuildM (Option (List Node))
  | some plans => some <$> buildAll plans
  | none => return none

def buildType : Option (Option Blueprint) → BuildM (Option (Option Node))
  | some (some plan) => (fun node => some (some node)) <$> build plan
  | some none => return some none
  | none => return none

def buildAll : List Blueprint → BuildM (List Node)
  | [] => return []
  | plan :: plans => return (← build plan) :: (← buildAll plans)

end

end Blueprint

end DeclTree
