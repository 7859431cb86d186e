import DeclTree.Value

/-!
# Payloads of extension nodes

A payload decides what counts as the same intent, by its key, and whether it can be
duplicated at all. Nothing else is known of it: it may be any object that has a key and a
description, and a duplicate of the same sort or none.
-/

namespace DeclTree

/-- What can be seen of a payload. -/
structure Payload where
  /-- Payloads with equal keys have the same intent. -/
  intentKey : String
  /-- A summary for errors. -/
  describe : String
  /-- The key and the description of the duplicate, of the duplicate of that one, and so on, as far
  as there are duplicates. -/
  duplicates : Nat → Option (String × String)

instance : Repr Payload where
  reprPrec payload _ := repr payload.describe

namespace Payload

/-- An independent copy, if the payload has one. -/
def duplicate? (payload : Payload) : Option Payload :=
  (payload.duplicates 0).map fun (intentKey, describe) =>
    { intentKey, describe, duplicates := fun n => payload.duplicates (n + 1) }

/-! ## Objects as payloads -/

section Objects

variable {σ : Type} (key describe : σ → String) (copy? : σ → Option σ)

/-- The last of so many copies, each made of the one before. -/
def copied? : Nat → σ → Option σ
  | 0, object => some object
  | n + 1, object => (copy? object).bind (copied? n)

/-- An object as a payload. -/
def ofObject (object : σ) : Payload where
  intentKey := key object
  describe := describe object
  duplicates n := (copied? copy? (n + 1) object).map fun copy => (key copy, describe copy)

theorem duplicate?_ofObject (object : σ) :
    (ofObject key describe copy? object).duplicate? =
      (copy? object).map (ofObject key describe copy?) := by
  unfold duplicate? ofObject copied?
  cases copy? object with
  | none => rfl
  | some copy => rfl

end Objects

/-! ## Kinds of payloads -/

/-- A value under a tag. -/
def tagged (tag : String) (value : Value) : Payload :=
  let key (_ : Unit) := tag ++ "=" ++ value.text
  ofObject key key some ()

/-- A reference to something outside the tree, which cannot be duplicated. -/
def native (key : String) (description : Option String) : Payload :=
  let key := "native:" ++ key
  ofObject (fun _ : Unit => key) (fun _ => description.getD key) (fun _ => none) ()

/-- Data that can be duplicated until its last generation. -/
def generation (number last : Nat) : Payload :=
  let key (number : Nat) := "gen:" ++ toString number
  ofObject key key (fun number => if number < last then some (number + 1) else none) number

theorem intentKey_tagged (tag : String) (value : Value) :
    (tagged tag value).intentKey = tag ++ "=" ++ value.text := rfl

theorem duplicate?_tagged (tag : String) (value : Value) :
    (tagged tag value).duplicate? = some (tagged tag value) :=
  duplicate?_ofObject ..

end Payload

end DeclTree
