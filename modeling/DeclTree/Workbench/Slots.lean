import DeclTree.Workbench.Answer
import DeclTree.Workbench.Path

/-!
# Steps on slots
-/

namespace DeclTree

inductive SlotStep where
  | create (target : String) (kind : Kind) (owner : IdRef)
  | info (slot : String)
  | set (slot item : String) (target : Option String)
  | trySet (slot item : String) (target : Option String)
  | take (slot : String) (target : Option String)
  | copyFor (slot : String) (owner : IdRef) (target : String)
deriving Repr

open BenchM

def BenchM.slotNamed (name : String) : BenchM (Kind × ChildSlot Node) := do
  match ← item name with
  | .slot kind slot => return (kind, slot)
  | _ => throw .malformed

/-- Lets an operation work on a slot in place. -/
def BenchM.inSlot {ε α : Type} (name : String) (run : InPlace ε (ChildSlot Node) α) :
    BenchM (Except ε α) := do
  let (kind, slot) ← slotNamed name
  let (result, slot) := run.run slot
  put name (.slot kind slot)
  return result

/-- Takes a node off the workbench that has the kind a slot is for. -/
def BenchM.takeForSlot (slot : String) : String → BenchM Node :=
  takeOfKind do return (← slotNamed slot).1

def SlotStep.run : SlotStep → BenchM Answer
  | .create target kind owner => do
      put target (.slot kind { owner := ← idOf owner })
      return .done
  | .info name => return .slot (← slotNamed name).2
  | .set name itemName target => do
      let node ← takeForSlot name itemName
      let previous ← ofTree (← inSlot name (InPlace.set node))
      let slot := (← slotNamed name).2
      putNode? target previous
      return .slotSet previous slot
  | .trySet name itemName target => do
      let node ← takeForSlot name itemName
      let previous ← orPutBack itemName (← inSlot name (InPlace.trySet node))
      let slot := (← slotNamed name).2
      putNode? target previous
      return .slotSet previous slot
  | .take name target => do
      let taken ← ofTree (← inSlot name InPlace.take)
      putNode? target taken
      return .node taken
  | .copyFor name owner target => do
      let owner ← idOf owner
      let (kind, slot) ← slotNamed name
      let copy ← copying (slot.copyFor owner)
      put target (.slot kind copy)
      return .slot copy

end DeclTree
