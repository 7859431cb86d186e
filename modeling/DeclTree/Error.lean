import DeclTree.Identity

/-!
# Errors

Each way in which an operation can be refused, with the text that reports it.
-/

namespace DeclTree

/-- Why a node has no symbol. -/
inductive ResolutionError where
  /-- The node never got a resolver. -/
  | unbound (id : SyntaxId)
  /-- The node's resolver does not know the construct. -/
  | notFound (id : SyntaxId)
deriving DecidableEq, Repr

def ResolutionError.message : ResolutionError → String
  | .unbound id => "No resolver bound for syntax " ++ id.text
  | .notFound id => "No semantic binding for syntax " ++ id.text

/-- Why an operation on a tree was refused. -/
inductive TreeError where
  | cannotCopy (kind name reason : String)
  | alreadyOwned (child owner : NodeId)
  | selfOwnership (id : NodeId)
  | childNotFound (id : NodeId)
  | unknownField (name : String)
deriving DecidableEq, Repr

def TreeError.message : TreeError → String
  | .cannotCopy kind name reason =>
      "Cannot copy " ++ kind ++ " node '" ++ name ++ "': " ++ reason
  | .alreadyOwned child owner => "Node " ++ child.text ++ " is already owned by " ++ owner.text
  | .selfOwnership id => "Node " ++ id.text ++ " cannot own itself"
  | .childNotFound id => "Node " ++ id.text ++ " not found in collection"
  | .unknownField name => "Unknown field: " ++ name

/-- A named check whose expectation was not met. -/
structure CheckFailure where
  check : String
  reason : String
deriving DecidableEq, Repr

def CheckFailure.message (failure : CheckFailure) : String :=
  "Check '" ++ failure.check ++ "' failed: " ++ failure.reason

end DeclTree
