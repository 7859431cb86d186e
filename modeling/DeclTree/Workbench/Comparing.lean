import DeclTree.Intent.Expectation
import DeclTree.Workbench.Answer
import DeclTree.Workbench.Path

/-!
# Steps that compare
-/

namespace DeclTree

inductive CompareStep where
  | mismatch (left right : Path) (options : CompareOptions)
  | same (left right : Path) (options : CompareOptions)
  | sameContent (left right : Path) (options : CompareOptions)
  /-- Whether the arguments of two attributes are equal. -/
  | sameArguments (left right : Path)
  | ordered (left right : List Path) (options : CompareOptions)
  | unordered (left right : List Path) (options : CompareOptions)
  | expect (check : String) (left right : Path) (expectation : Expectation)
deriving Repr

open BenchM

/-- The arguments of an attribute. -/
def Body.arguments? : Body → Option (List Argument)
  | .attribute arguments => some arguments
  | _ => none

def CompareStep.run : CompareStep → BenchM Answer
  | .mismatch left right options => do
      return .mismatch (← resolving ((← nodeAt left).mismatch? options (← nodeAt right)))
  | .same left right options => do
      return .flag (← resolving ((← nodeAt left).sameIntent options (← nodeAt right)))
  | .sameContent left right options => do
      return .flag (← resolving ((← nodeAt left).sameContent options (← nodeAt right)))
  | .sameArguments left right => do
      let left ← require (← nodeAt left).body.arguments?
      let right ← require (← nodeAt right).body.arguments?
      return .flag (Argument.eqAll left right)
  | .ordered left right options => do
      let left ← left.mapM nodeAt
      let right ← right.mapM nodeAt
      return .flag (← resolving (Node.sameIntentOrdered options left right))
  | .unordered left right options => do
      let left ← left.mapM nodeAt
      let right ← right.mapM nodeAt
      return .flag (← resolving (Node.sameIntentUnordered options left right))
  | .expect check left right expectation => do
      match ← resolving (expectation.verify check (← nodeAt left) (← nodeAt right)) with
      | .ok () => return .done
      | .error failure => throw (.check failure)

end DeclTree
