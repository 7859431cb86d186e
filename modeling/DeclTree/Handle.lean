import DeclTree.Identity

/-!
# Handles

A handle stands for one construct of the source text without holding it. Handles made in
memory have no place in any text and share one identity.
-/

namespace DeclTree

/-- Where a construct stands in the source text. -/
structure Span where
  start : Nat := 0
  stop : Nat := 0
  line : Nat := 0
  column : Nat := 0
deriving DecidableEq, Repr

inductive Origin where
  | parsed (span : Span)
  | synthetic
deriving DecidableEq, Repr

structure Handle where
  id : SyntaxId
  kind : String
  origin : Origin
deriving DecidableEq, Repr

namespace Handle

def parsed (id : SyntaxId) (kind : String) (span : Span) : Handle :=
  ⟨id, kind, .parsed span⟩

/-- The handle of a construct made in memory. -/
def synthetic (kind : String) : Handle := ⟨.synthetic, kind, .synthetic⟩

def span? (handle : Handle) : Option Span :=
  match handle.origin with
  | .parsed span => some span
  | .synthetic => none

def isSynthetic (handle : Handle) : Bool := handle.span?.isNone

def text (handle : Handle) : String :=
  match handle.origin with
  | .parsed span => handle.kind ++ "@" ++ toString span.line ++ ":" ++ toString span.column
  | .synthetic => handle.kind ++ "@synthetic"

end Handle

end DeclTree
