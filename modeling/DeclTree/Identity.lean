/-!
# Identities and their supply

Nodes and annotations are told apart by numbers handed out in order. The supply holds the
next number of each kind; an operation that stops half-way keeps the numbers it took, so
the supply only ever moves forward.
-/

namespace DeclTree

/-- Identity of a node. -/
structure NodeId where
  number : Nat
deriving DecidableEq, Repr

/-- Identity of an annotation. -/
structure AnnotationId where
  number : Nat
deriving DecidableEq, Repr

/-- Identity of a construct of the source text. -/
structure SyntaxId where
  number : Nat
deriving DecidableEq, Repr

def NodeId.text (id : NodeId) : String := "n" ++ toString id.number

def AnnotationId.text (id : AnnotationId) : String := "a" ++ toString id.number

def SyntaxId.text (id : SyntaxId) : String := "s" ++ toString id.number

/-- The identity shared by everything that no source text backs. -/
def SyntaxId.synthetic : SyntaxId := ⟨0⟩

/-- The next free numbers. -/
structure Supply where
  nextNode : Nat := 1
  nextAnnotation : Nat := 1
deriving DecidableEq, Repr

namespace Supply

def freshNode : StateM Supply NodeId :=
  modifyGet fun supply => (⟨supply.nextNode⟩, { supply with nextNode := supply.nextNode + 1 })

def freshAnnotation : StateM Supply AnnotationId :=
  modifyGet fun supply =>
    (⟨supply.nextAnnotation⟩, { supply with nextAnnotation := supply.nextAnnotation + 1 })

end Supply

end DeclTree
