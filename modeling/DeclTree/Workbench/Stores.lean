import DeclTree.Workbench.Answer
import DeclTree.Workbench.Path

/-!
# Steps on annotation stores
-/

namespace DeclTree

/-- Names a store: one on the workbench, or the annotations of a node. -/
inductive StoreRef where
  | register (name : String)
  | node (path : Path)
deriving Repr

inductive StoreStep where
  | create (target : String)
  | annotate (store : StoreRef) (entries : List (String × Value))
  | addCopy (store source : StoreRef)
  | get (store : StoreRef) (key : String)
  | remove (store : StoreRef) (key : String)
  | info (store : StoreRef)
  | equivalent (left right : StoreRef)
  | sameIntent (left : StoreRef) (leftIndex : Nat) (right : StoreRef) (rightIndex : Nat)
deriving Repr

open BenchM

def BenchM.storeAt : StoreRef → BenchM AnnotationStore
  | .register name => do
      match ← item name with
      | .store store => return store
      | _ => throw .malformed
  | .node path => return (← nodeAt path).header.annotations

def BenchM.putStore (store : AnnotationStore) : StoreRef → BenchM Unit
  | .register name => put name (.store store)
  | .node path => modifyNode path fun node =>
      { node with header := { node.header with annotations := store } }

def StoreStep.run : StoreStep → BenchM Answer
  | .create target => do
      put target (.store .empty)
      return .done
  | .annotate ref entries => do
      let annotations ← allocating <|
        entries.mapM fun (key, value) => Annotation.create key value
      let store := (← storeAt ref).append annotations
      putStore store ref
      return .entries store
  | .addCopy ref source => do
      let copies ← allocating (← storeAt source).copyEntries
      let store := (← storeAt ref).append copies
      putStore store ref
      return .entries store
  | .get ref key => return .value ((← storeAt ref).get? key)
  | .remove ref key => do
      let old ← storeAt ref
      let store := old.remove key
      putStore store ref
      return .removedEntries (old.entries.length - store.entries.length) store
  | .info ref => return .store (← storeAt ref)
  | .equivalent left right => return .flag ((← storeAt left).equivalent (← storeAt right))
  | .sameIntent left leftIndex right rightIndex => do
      let l ← require (← storeAt left).entries[leftIndex]?
      let r ← require (← storeAt right).entries[rightIndex]?
      return .flag (l.sameIntent r)

end DeclTree
