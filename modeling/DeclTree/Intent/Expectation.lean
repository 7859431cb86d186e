import DeclTree.Error
import DeclTree.Intent.Comparison

/-!
# Expectations

An expectation says what a comparison should report. It is verified in both directions, and a
comparison that finds a mismatch in one direction only is reported as such.
-/

namespace DeclTree

structure Expectation where
  /-- The mismatch to be found, none for the same intent. -/
  expected : Option Mismatch := none
  options : CompareOptions := {}
deriving Repr

namespace Expectation

/-- What is wrong with the outcomes of the two directions, if anything. -/
def complaint? (expectation : Expectation) (forward backward : Option Mismatch) :
    Option String :=
  if forward.isNone ≠ backward.isNone then
    some ("comparison is not symmetric: " ++ Mismatch.outcomeTag forward ++ " one way, " ++
      Mismatch.outcomeTag backward ++ " the other")
  else if forward ≠ expectation.expected then
    some ("expected " ++ Mismatch.outcomeText expectation.expected ++ ", got " ++
      Mismatch.outcomeText forward)
  else none

/-- Compares forwards, then backwards. -/
def verify (expectation : Expectation) (check : String) (left right : Node) :
    ResolveM (Except CheckFailure Unit) := do
  let forward ← left.mismatch? expectation.options right
  let backward ← right.mismatch? expectation.options left
  match expectation.complaint? forward backward with
  | some reason => return .error ⟨check, reason⟩
  | none => return .ok ()

end Expectation

end DeclTree
