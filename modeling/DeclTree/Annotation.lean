import DeclTree.Identity
import DeclTree.Matching
import DeclTree.Value

/-!
# Annotations

Keyed values attached to a node, each with an identity of its own. Keys may repeat. Stores
are compared by mutual coverage, so neither order nor identities matter.
-/

namespace DeclTree

structure Annotation where
  id : AnnotationId
  key : String
  value : Value
deriving Repr

namespace Annotation

/-- A new annotation. -/
def create (key : String) (value : Value) : StateM Supply Annotation := do
  return ⟨← Supply.freshAnnotation, key, value⟩

/-- The same key and value under a new identity. -/
def copy (entry : Annotation) : StateM Supply Annotation :=
  create entry.key entry.value

def sameIntent (left right : Annotation) : Bool :=
  left.key == right.key && left.value.sameIntent right.value

end Annotation

structure AnnotationStore where
  entries : List Annotation := []
deriving Repr

namespace AnnotationStore

def empty : AnnotationStore := ⟨[]⟩

def append (store : AnnotationStore) (annotations : List Annotation) : AnnotationStore :=
  ⟨store.entries ++ annotations⟩

/-- Copies of all entries, in order. -/
def copyEntries (store : AnnotationStore) : StateM Supply (List Annotation) :=
  store.entries.mapM Annotation.copy

/-- The value of the first entry with the key. -/
def get? (store : AnnotationStore) (key : String) : Option Value :=
  (store.entries.find? fun entry => entry.key == key).map Annotation.value

/-- Removes all entries with the key. -/
def remove (store : AnnotationStore) (key : String) : AnnotationStore :=
  ⟨store.entries.filter fun entry => entry.key ≠ key⟩

def equivalent (left right : AnnotationStore) : Bool :=
  Matching.coversBoth Annotation.sameIntent left.entries right.entries

end AnnotationStore

end DeclTree
