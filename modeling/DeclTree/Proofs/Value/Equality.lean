import DeclTree.Proofs.Value

/-!
# Equal values and values that say the same

Equality of values is not reflexive, since no NaN equals itself. It is found again inside the
equivalence: two values are equal exactly if they say the same and the first has no NaN in it, at
any depth. Whether a value has a NaN in it is part of what it says, so it makes no difference which
of the two is free of NaNs.
-/

namespace DeclTree

namespace Binary64

variable {x y : Binary64}

/-- Numbers match exactly if they are equal. -/
theorem numericEq_iff_match :
    x.numericEq y = true ↔ (x.numericEq y || (x.isNaN && y.isNaN)) = true ∧ x.isNaN = false := by
  simp only [Bool.or_eq_true, Bool.and_eq_true, numericEq_iff]
  grind

/-- A NaN matches no number. -/
theorem isNaN_congr (h : (x.numericEq y || (x.isNaN && y.isNaN)) = true) : x.isNaN = y.isNaN := by
  simp only [Bool.or_eq_true, Bool.and_eq_true, numericEq_iff] at h
  grind

theorem isNaN_of_isZero (h : x.isZero = true) : x.isNaN = false := by
  rw [isZero, decide_eq_true_eq] at h
  rw [isNaN, decide_eq_false_iff_not]
  omega

end Binary64

namespace Value

mutual

/-- Whether a value has a float in it, at any depth, that the test accepts. -/
def holds (test : Binary64 → Bool) : Value → Bool
  | .float x => test x
  | .list items => holdsAny test items
  | _ => false

def holdsAny (test : Binary64 → Bool) : List Value → Bool
  | [] => false
  | item :: items => item.holds test || holdsAny test items

end

mutual

/-- Equal values are those that say the same without any NaN. -/
theorem eq_iff_sameIntent (v w : Value) :
    v.eq w = true ↔ v.sameIntent w = true ∧ v.holds Binary64.isNaN = false := by
  cases v with
  | float x =>
      cases w with
      | float y => exact Binary64.numericEq_iff_match
      | _ => simp [eq, sameIntent]
  | list items =>
      cases w with
      | list others => exact eqList_iff_sameIntentList items others
      | _ => simp [eq, sameIntent]
  -- Without floats both tests compare the same data.
  | _ => cases w <;> simp [eq, sameIntent, holds]

theorem eqList_iff_sameIntentList (items others : List Value) :
    eqList items others = true ↔
      sameIntentList items others = true ∧ holdsAny Binary64.isNaN items = false := by
  cases items with
  | nil => cases others <;> simp [eqList, sameIntentList, holdsAny]
  | cons v items =>
      cases others with
      | nil => simp [eqList, sameIntentList]
      | cons w others =>
          simp only [eqList, sameIntentList, holdsAny, Bool.and_eq_true, Bool.or_eq_false_iff,
            eq_iff_sameIntent v w, eqList_iff_sameIntentList items others]
          exact and_and_and_comm

end

mutual

/-- Of two values that say the same both have a NaN in them or neither has. -/
theorem holds_isNaN_congr {v w : Value} (h : v.sameIntent w = true) :
    v.holds Binary64.isNaN = w.holds Binary64.isNaN := by
  rcases v.atom_or_float_or_list with atom | ⟨x, rfl⟩ | ⟨items, rfl⟩
  · rw [atom.mp h]
  · obtain ⟨y, rfl, same⟩ := float_sameIntent_iff.mp h
    exact Binary64.isNaN_congr same
  · obtain ⟨others, rfl, same⟩ := list_sameIntent_iff.mp h
    exact holdsAny_isNaN_congr same

theorem holdsAny_isNaN_congr {items others : List Value}
    (h : sameIntentList items others = true) :
    holdsAny Binary64.isNaN items = holdsAny Binary64.isNaN others := by
  cases items with
  | nil =>
      cases others with
      | nil => rfl
      | cons w others => cases h
  | cons v items =>
      cases others with
      | nil => cases h
      | cons w others =>
          rw [sameIntentList, Bool.and_eq_true] at h
          rw [holdsAny, holdsAny, holds_isNaN_congr h.1, holdsAny_isNaN_congr h.2]

end

theorem sameIntent_iff_eq {v w : Value}
    (h : v.holds Binary64.isNaN = false ∨ w.holds Binary64.isNaN = false) :
    v.sameIntent w = true ↔ v.eq w = true := by
  rw [eq_iff_sameIntent]
  refine ⟨fun same => ⟨same, ?_⟩, And.left⟩
  -- Equality asks for no NaN on the left, and a value that says the same has none either.
  rcases h with free | free
  · exact free
  · rw [holds_isNaN_congr same, free]

theorem float_matches_of_isZero {x y : Binary64} (hx : x.isZero = true) (hy : y.isZero = true) :
    (float x).sameIntent (float y) = true ∧ (float x).eq (float y) = true := by
  have equal : (float x).eq (float y) = true :=
    (Binary64.numericEq_iff x y).mpr
      ⟨Binary64.isNaN_of_isZero hx, Binary64.isNaN_of_isZero hy, .inr ⟨hx, hy⟩⟩
  exact ⟨((eq_iff_sameIntent _ _).mp equal).1, equal⟩

theorem float_matches_of_isNaN {x y : Binary64} (hx : x.isNaN = true) (hy : y.isNaN = true) :
    (float x).sameIntent (float y) = true ∧ (float x).eq (float y) = false := by
  have unequal : x.numericEq y = false := by simp [Binary64.numericEq, hx]
  exact ⟨by simp [sameIntent, hx, hy], unequal⟩

/-- To say the same is an equivalence, and all it adds to equality is that NaNs match, whatever
their bits are. Zeros match under both, whatever their signs are, and an integer never matches a
float. -/
theorem sameIntent_adds_only_nan (a b c : Value) :
    a.sameIntent a = true ∧
    (a.sameIntent b = true → b.sameIntent a = true) ∧
    (a.sameIntent b = true → b.sameIntent c = true → a.sameIntent c = true) ∧
    (a.eq b = true → a.sameIntent b = true) ∧
    (a.holds Binary64.isNaN = false ∨ b.holds Binary64.isNaN = false →
      (a.sameIntent b = true ↔ a.eq b = true)) ∧
    (∀ x y : Binary64, x.isNaN = true → y.isNaN = true →
      (float x).sameIntent (float y) = true ∧ (float x).eq (float y) = false) ∧
    (∀ x y : Binary64, x.isZero = true → y.isZero = true →
      (float x).sameIntent (float y) = true ∧ (float x).eq (float y) = true) ∧
    (∀ (i : Int64) (x : Binary64),
      (int i).sameIntent (float x) = false ∧ (float x).sameIntent (int i) = false) := by
  obtain ⟨refl, symm, trans⟩ := sameIntent_equivalenceOn
  refine ⟨refl trivial, symm trivial trivial, trans trivial trivial trivial, fun equal => ?_,
    sameIntent_iff_eq, fun _ _ => float_matches_of_isNaN, fun _ _ => float_matches_of_isZero,
    fun _ _ => ⟨rfl, rfl⟩⟩
  exact ((eq_iff_sameIntent a b).mp equal).1

/-- A list of a number and, one level deeper, an integer and another number. -/
def sampleNested (x y : UInt64) : Value :=
  .list [.float ⟨x⟩, .list [.int 1, .float ⟨y⟩]]

/-- Zeros of both signs match next to a one. Two NaNs of different fractions match in the same
place, and equality tells them apart. -/
theorem sameIntent_adds_only_nan_of_sampleNested :
    let zero := sampleNested 0 0x3ff0000000000000
    let negative := sampleNested 0x8000000000000000 0x3ff0000000000000
    let nan := sampleNested 0 0x7ff8000000000000
    let other := sampleNested 0 0x7ff0000000000001
    zero.holds Binary64.isNaN = false ∧ zero.eq negative = true ∧
      negative.sameIntent zero = true ∧ negative.sameIntent nan = false ∧
      nan.holds Binary64.isNaN = true ∧ nan.sameIntent other = true ∧ nan.eq other = false := by
  intro zero negative nan other
  have free : zero.holds Binary64.isNaN = false := by decide +kernel
  have free' : negative.holds Binary64.isNaN = false := by decide +kernel
  have equal : zero.eq negative = true := by decide +kernel
  have unequal : negative.eq nan = false := by decide +kernel
  obtain ⟨-, symm, -, includes, -⟩ := sameIntent_adds_only_nan zero negative nan
  obtain ⟨-, -, -, -, agree, -⟩ := sameIntent_adds_only_nan negative nan nan
  refine ⟨free, equal, symm (includes equal), ?_, ?_⟩
  · rw [Bool.eq_false_iff, ne_eq, agree (.inl free'), unequal]
    exact Bool.false_ne_true
  · decide +kernel

end Value

end DeclTree
