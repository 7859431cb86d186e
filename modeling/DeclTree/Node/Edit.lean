import DeclTree.Node.Body

/-!
# Edits of bodies

An edit says what to set. It changes what it names and what the kind of node has, and leaves
the rest alone.
-/

namespace DeclTree

/-- A change to the arguments of an attribute. -/
inductive ArgumentEdit where
  | push (argument : Argument)
  | removeAt (index : Nat)
deriving Repr

structure Edit where
  isNullable : Option Bool := none
  argument : Option ArgumentEdit := none
  modifier : Option ParameterModifier := none
  /-- The new default; `some none` takes the default away. -/
  default : Option (Option Value) := none
  access : Option AccessModifier := none
  modifiers : Option Modifiers := none
  isExtension : Option Bool := none
  accessors : Option (Bool × Bool) := none
  kind : Option DeclarationKind := none
  isStatic : Option Bool := none
  isAbstract : Option Bool := none
  isSealed : Option Bool := none
deriving Repr

def ArgumentEdit.apply (arguments : List Argument) : ArgumentEdit → List Argument
  | .push argument => arguments ++ [argument]
  | .removeAt index => arguments.eraseIdx index

def Edit.apply (edit : Edit) : Body → Body
  | .typeRef isNullable => .typeRef (edit.isNullable.getD isNullable)
  | .attribute arguments => .attribute ((edit.argument.map (·.apply arguments)).getD arguments)
  | .parameter data =>
      .parameter { data with
        modifier := edit.modifier.getD data.modifier
        default := edit.default.getD data.default }
  | .method data =>
      .method
        { access := edit.access.getD data.access
          modifiers := edit.modifiers.getD data.modifiers
          isExtension := edit.isExtension.getD data.isExtension }
  | .property data =>
      .property
        { access := edit.access.getD data.access
          modifiers := edit.modifiers.getD data.modifiers
          canGet := (edit.accessors.map Prod.fst).getD data.canGet
          canSet := (edit.accessors.map Prod.snd).getD data.canSet }
  | .typeDecl data =>
      .typeDecl
        { kind := edit.kind.getD data.kind
          access := edit.access.getD data.access
          isStatic := edit.isStatic.getD data.isStatic
          isAbstract := edit.isAbstract.getD data.isAbstract
          isSealed := edit.isSealed.getD data.isSealed }
  | body => body

end DeclTree
