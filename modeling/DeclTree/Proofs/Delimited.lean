import Mathlib.Data.List.Forall2

/-!
# Delimited texts

Texts stand one after another and are told apart by what ends them. A text without stops is over at
the first stop. The members of a list are over at a comma or at the mark that closes the list, if
each member is separated from what can follow it.
-/

namespace DeclTree.Delimited

/-- A text without stops ends at the first stop. -/
theorem eq_of_append_eq_append (stops : Char → Prop) {text text' rest rest' : List Char}
    (plain : ∀ c ∈ text, ¬ stops c) (plain' : ∀ c ∈ text', ¬ stops c)
    (hrest : ∀ c ∈ rest.head?, stops c) (hrest' : ∀ c ∈ rest'.head?, stops c)
    (h : text ++ rest = text' ++ rest') : text = text' ∧ rest = rest' := by
  rcases List.append_eq_append_iff.mp h with ⟨more, rfl, rfl⟩ | ⟨more, rfl, rfl⟩
  · cases more with
    | nil => simp
    | cons c more => exact absurd (hrest c rfl) (plain' c (by simp))
  · cases more with
    | nil => simp
    | cons c more => exact absurd (hrest' c rfl) (plain c (by simp))

section Members

variable (close : Char)

/-- The texts of further members, up to the mark that closes the list. -/
def closing : List (List Char) → List Char
  | [] => [close]
  | text :: texts => ',' :: ' ' :: (text ++ closing texts)

/-- What can follow a member. -/
def Ends (rest : List Char) : Prop := ∀ c ∈ rest.head?, c = ',' ∨ c = close

theorem append_closing (text : List Char) (texts : List (List Char)) :
    text ++ closing close texts = [',', ' '].intercalate (text :: texts) ++ [close] := by
  induction texts generalizing text with
  | nil => simp [closing]
  | cons next texts ih => simp [closing, ih]

theorem ends_closing (texts : List (List Char)) (rest : List Char) :
    Ends close (closing close texts ++ rest) := by
  cases texts <;> simp [Ends, closing]

variable {α : Type} (text : α → List Char) (same : α → α → Prop)

/-- Where one text begins with both members, they end in the same place and stand for the same. -/
def Separates (left right : α) : Prop :=
  ∀ rest rest', Ends close rest → Ends close rest' → text left ++ rest = text right ++ rest' →
    same left right ∧ rest = rest'

variable {close text same}

/-- Members that face each other are separated, so lists are. -/
theorem forall₂_of_closing_append (comma : close ≠ ',') {lefts rights : List α}
    (each : ∀ left right, (left, right) ∈ lefts.zip rights → Separates close text same left right)
    {rest rest' : List Char}
    (h : closing close (lefts.map text) ++ rest = closing close (rights.map text) ++ rest') :
    List.Forall₂ same lefts rights ∧ rest = rest' := by
  induction lefts generalizing rights with
  | nil =>
      cases rights with
      | nil => simpa [closing] using h
      | cons right rights => simp [closing, comma] at h
  | cons left lefts ih =>
      cases rights with
      | nil => simp [closing, comma.symm] at h
      | cons right rights =>
          simp only [List.map_cons, closing, List.cons_append, List.append_assoc, List.cons.injEq,
            true_and] at h
          obtain ⟨head, h⟩ := each left right List.mem_cons_self _ _
            (ends_closing _ _ _) (ends_closing _ _ _) h
          obtain ⟨tail, h⟩ := ih (fun l r hlr => each l r (List.mem_cons_of_mem _ hlr)) h
          exact ⟨.cons head tail, h⟩

end Members

end DeclTree.Delimited
