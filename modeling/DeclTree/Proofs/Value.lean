import DeclTree.Proofs.Matching
import DeclTree.Value

/-!
# Same intent of values

Whether two values say the same thing is an equivalence. On floats the reason is that a number
either is a NaN, and then matches every NaN, or is not, and then matches what it equals.
-/

namespace DeclTree

open Matching

namespace Binary64

theorem numericEq_iff (x y : Binary64) :
    x.numericEq y = true ↔
      x.isNaN = false ∧ y.isNaN = false ∧ (x = y ∨ x.isZero = true ∧ y.isZero = true) := by
  obtain ⟨x⟩ := x
  obtain ⟨y⟩ := y
  simp [numericEq, and_assoc]

/-- Two NaNs match, and so do two numbers that are equal. -/
theorem equivalenceOn_numericEq_or_isNaN :
    EquivalenceOn (fun _ => True) fun x y : Binary64 =>
      x.numericEq y || (x.isNaN && y.isNaN) where
  refl {x} _ := by
    cases h : x.isNaN <;> simp [numericEq_iff, h]
  symm {x y} _ _ := by
    simp only [Bool.or_eq_true, Bool.and_eq_true, numericEq_iff]
    grind
  trans {x y z} _ _ _ := by
    simp only [Bool.or_eq_true, Bool.and_eq_true, numericEq_iff]
    grind

end Binary64

namespace Value

/-! A value that holds neither floats nor lists matches itself alone. -/

theorem null_sameIntent_iff {v : Value} : null.sameIntent v = true ↔ v = null := by
  cases v <;> simp [sameIntent]

theorem bool_sameIntent_iff {b : Bool} {v : Value} :
    (bool b).sameIntent v = true ↔ v = bool b := by
  cases v <;> simp only [sameIntent, beq_iff_eq, bool.injEq, Bool.false_eq_true, reduceCtorEq]
  exact eq_comm

theorem int_sameIntent_iff {i : Int64} {v : Value} :
    (int i).sameIntent v = true ↔ v = int i := by
  cases v <;> simp only [sameIntent, beq_iff_eq, int.injEq, Bool.false_eq_true, reduceCtorEq]
  exact eq_comm

theorem string_sameIntent_iff {s : String} {v : Value} :
    (string s).sameIntent v = true ↔ v = string s := by
  cases v <;> simp only [sameIntent, beq_iff_eq, string.injEq, Bool.false_eq_true, reduceCtorEq]
  exact eq_comm

/-- What matches more than itself is a float or a list. -/
theorem atom_or_float_or_list (v : Value) :
    (∀ {w : Value}, v.sameIntent w = true ↔ w = v) ∨ (∃ x, v = float x) ∨
      ∃ items, v = list items := by
  cases v with
  | null => exact .inl null_sameIntent_iff
  | bool b => exact .inl bool_sameIntent_iff
  | int i => exact .inl int_sameIntent_iff
  | string s => exact .inl string_sameIntent_iff
  | float x => exact .inr (.inl ⟨x, rfl⟩)
  | list items => exact .inr (.inr ⟨items, rfl⟩)

theorem float_sameIntent_iff {x : Binary64} {v : Value} :
    (float x).sameIntent v = true ↔
      ∃ y, v = float y ∧ (x.numericEq y || (x.isNaN && y.isNaN)) = true := by
  cases v <;> simp [sameIntent]

theorem list_sameIntent_iff {items : List Value} {v : Value} :
    (list items).sameIntent v = true ↔
      ∃ others, v = list others ∧ sameIntentList items others = true := by
  cases v <;> simp [sameIntent]

theorem sameIntentList_iff {items others : List Value} :
    sameIntentList items others = true ↔
      List.Forall₂ (fun a b => a.sameIntent b = true) items others := by
  induction items generalizing others with
  | nil => cases others <;> simp [sameIntentList]
  | cons a items ih => cases others <;> simp [sameIntentList, ih]

/-- Reflexive, symmetric and transitive from one value on, all at once: the list case needs the
three laws for the members. -/
theorem sameIntent_laws (size : Nat) :
    EquivalenceOn (fun v : Value => sizeOf v < size) sameIntent := by
  induction size with
  | zero => exact ⟨fun h => by omega, fun h => by omega, fun h => by omega⟩
  | succ size ih =>
      have lists := ordered_equivalenceOn ih
      have members : ∀ {items : List Value}, sizeOf (list items) < size + 1 →
          Within (fun v => sizeOf v < size) items := by
        intro items h v hv
        have := List.sizeOf_lt_of_mem hv
        simp only [list.sizeOf_spec] at h
        omega
      have nan := Binary64.equivalenceOn_numericEq_or_isNaN
      refine ⟨?_, ?_, ?_⟩
      · intro a ha
        rcases a.atom_or_float_or_list with atom | ⟨x, rfl⟩ | ⟨items, rfl⟩
        · exact atom.mpr rfl
        · exact float_sameIntent_iff.mpr ⟨x, rfl, nan.refl trivial⟩
        · rw [list_sameIntent_iff]
          refine ⟨items, rfl, ?_⟩
          rw [sameIntentList_iff, ← ordered_iff]
          exact lists.refl (members ha)
      · intro a b ha hb hab
        rcases a.atom_or_float_or_list with atom | ⟨x, rfl⟩ | ⟨items, rfl⟩
        · rw [atom.mp hab]
          exact atom.mpr rfl
        · obtain ⟨y, rfl, hxy⟩ := float_sameIntent_iff.mp hab
          exact float_sameIntent_iff.mpr ⟨x, rfl, nan.symm trivial trivial hxy⟩
        · obtain ⟨others, rfl, same⟩ := list_sameIntent_iff.mp hab
          rw [list_sameIntent_iff]
          refine ⟨items, rfl, ?_⟩
          rw [sameIntentList_iff, ← ordered_iff] at same ⊢
          exact lists.symm (members ha) (members hb) same
      · intro a b c ha hb hc hab hbc
        rcases a.atom_or_float_or_list with atom | ⟨x, rfl⟩ | ⟨items, rfl⟩
        · rwa [atom.mp hab] at hbc
        · obtain ⟨y, rfl, hxy⟩ := float_sameIntent_iff.mp hab
          obtain ⟨z, rfl, hyz⟩ := float_sameIntent_iff.mp hbc
          exact float_sameIntent_iff.mpr ⟨z, rfl, nan.trans trivial trivial trivial hxy hyz⟩
        · obtain ⟨others, rfl, same⟩ := list_sameIntent_iff.mp hab
          obtain ⟨rest, rfl, same'⟩ := list_sameIntent_iff.mp hbc
          rw [list_sameIntent_iff]
          refine ⟨rest, rfl, ?_⟩
          rw [sameIntentList_iff, ← ordered_iff] at same same' ⊢
          exact lists.trans (members ha) (members hb) (members hc) same same'

theorem sameIntent_equivalenceOn : EquivalenceOn (fun _ => True) sameIntent where
  refl {a} _ := (sameIntent_laws (sizeOf a + 1)).refl (by omega)
  symm {a b} _ _ := (sameIntent_laws (sizeOf a + sizeOf b + 1)).symm (by omega) (by omega)
  trans {a b c} _ _ _ :=
    (sameIntent_laws (sizeOf a + sizeOf b + sizeOf c + 1)).trans (by omega) (by omega) (by omega)

end Value

end DeclTree
