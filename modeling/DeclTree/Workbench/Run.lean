import DeclTree.Workbench.Comparing
import DeclTree.Workbench.Lists
import DeclTree.Workbench.Nodes
import DeclTree.Workbench.Resolving
import DeclTree.Workbench.Slots
import DeclTree.Workbench.Stores

/-!
# Runs

A run is a list of steps, each of which succeeds or is refused; a refused step does not end it.
-/

namespace DeclTree

inductive Step where
  | resolver (step : ResolverStep)
  | node (step : NodeStep)
  | compare (step : CompareStep)
  | list (step : ListStep)
  | parameter (step : ParameterStep)
  | slot (step : SlotStep)
  | store (step : StoreStep)
  /-- Throws away what is under a name. -/
  | drop (name : String)
deriving Repr

def Step.run : Step → BenchM Answer
  | .resolver step => step.run
  | .node step => step.run
  | .compare step => step.run
  | .list step => step.run
  | .parameter step => step.run
  | .slot step => step.run
  | .store step => step.run
  | .drop name => do
      BenchM.drop name
      return .done

namespace Workbench

/-- One step: its answer or refusal, and the workbench afterwards. -/
def step (bench : Workbench) (step : Step) : Except Refusal Answer × Workbench :=
  step.run.run bench

/-- All steps in order. -/
def run : Workbench → List Step → List (Except Refusal Answer) × Workbench
  | bench, [] => ([], bench)
  | bench, step :: steps =>
      let (answer, bench) := bench.step step
      let (answers, bench) := bench.run steps
      (answer :: answers, bench)

end Workbench

end DeclTree
