import DeclTree.Number.Shortest
import Mathlib.Algebra.Order.Field.Power
import Mathlib.Algebra.Order.Field.Rat
import Mathlib.Tactic.FieldSimp
import Mathlib.Tactic.Linarith
import Mathlib.Tactic.LinearCombination
import Mathlib.Tactic.NormNum
import Mathlib.Tactic.Positivity
import Mathlib.Tactic.Ring

/-!
# Shortest decimals read back

Without their signs the numbers can be ranked from zero upwards, and the rank is what the bits below
the sign spell. Between two ranks that follow one another lies an edge, half way from number to
number. A rational reads back as the number whose two edges it lies between, and on an edge as the
one of even rank. So it reads back as one number only.

The shortest decimal of a number lies between its edges: on the finest grid that is tried, the
multiples of a power of ten are closer to each other than the edges are.
-/

namespace DeclTree

namespace Binary64

/-! ## Ranks -/

/-- Place among the numbers without sign, counted from zero. -/
def rank (x : Binary64) : Nat := x.exponentField * 2 ^ 52 + x.fractionField

/-- Distance from the number of this rank to the next, in units of the least positive number. -/
def gap (rank : Nat) : Nat := 2 ^ (rank / 2 ^ 52 - 1)

/-- The number of this rank, in units of the least positive number. -/
def weight (rank : Nat) : Nat :=
  (if rank / 2 ^ 52 = 0 then rank % 2 ^ 52 else 2 ^ 52 + rank % 2 ^ 52) * gap rank

theorem gap_pos (rank : Nat) : 0 < gap rank := Nat.two_pow_pos _

theorem weight_succ (rank : Nat) : weight (rank + 1) = weight rank + gap rank := by
  by_cases carry : rank % 2 ^ 52 + 1 = 2 ^ 52
  · have quotient : (rank + 1) / 2 ^ 52 = rank / 2 ^ 52 + 1 := by omega
    have remainder : (rank + 1) % 2 ^ 52 = 0 := by omega
    have all : rank % 2 ^ 52 = 2 ^ 52 - 1 := by omega
    unfold weight gap
    rw [quotient, remainder, all]
    cases rank / 2 ^ 52 with
    | zero => norm_num
    | succ exponent =>
        simp only [Nat.add_eq_zero_iff, Nat.add_sub_cancel, one_ne_zero, and_false, if_false,
          pow_succ]
        omega
  · have quotient : (rank + 1) / 2 ^ 52 = rank / 2 ^ 52 := by omega
    have remainder : (rank + 1) % 2 ^ 52 = rank % 2 ^ 52 + 1 := by omega
    unfold weight gap
    rw [quotient, remainder]
    split <;> ring

theorem strictMono_weight : StrictMono weight :=
  strictMono_nat_of_lt_succ fun rank => by
    rw [weight_succ]
    exact Nat.lt_add_of_pos_right (gap_pos rank)

theorem rank_div (x : Binary64) : x.rank / 2 ^ 52 = x.exponentField := by
  have : x.fractionField < 2 ^ 52 := Nat.mod_lt _ (Nat.two_pow_pos 52)
  unfold rank
  omega

theorem rank_mod (x : Binary64) : x.rank % 2 ^ 52 = x.fractionField := by
  have : x.fractionField < 2 ^ 52 := Nat.mod_lt _ (Nat.two_pow_pos 52)
  unfold rank
  omega

theorem weight_rank (x : Binary64) : weight x.rank = x.significand * gap x.rank := by
  unfold weight
  rw [rank_div, rank_mod]
  rfl

theorem significand_lt (x : Binary64) : x.significand < 2 ^ 53 := by
  have : x.fractionField < 2 ^ 52 := Nat.mod_lt _ (Nat.two_pow_pos 52)
  unfold significand
  simp only [Nat.pow_eq]
  split <;> omega

theorem even_rank (x : Binary64) : Even x.rank ↔ x.significand % 2 = 0 := by
  rw [Nat.even_iff]
  unfold rank significand
  simp only [Nat.pow_eq]
  split <;> omega

/-- The gap below the number of a rank is that above it, or half of it. -/
theorem gap_pred {x : Binary64} {below : Nat} (h : x.rank = below + 1) :
    gap x.rank = (if x.isNarrowBelow then 2 else 1) * gap below := by
  have quotient := x.rank_div
  have remainder := x.rank_mod
  by_cases first : x.fractionField = 0
  · have exponent : below / 2 ^ 52 = x.exponentField - 1 := by omega
    unfold gap isNarrowBelow
    rw [quotient, exponent]
    by_cases narrow : 1 < x.exponentField
    · obtain ⟨e, he⟩ := Nat.exists_eq_add_of_lt narrow
      simp [first, he, pow_succ, Nat.mul_comm, Nat.add_comm]
    · have least : x.exponentField = 1 := by omega
      simp [least]
  · have exponent : below / 2 ^ 52 = x.exponentField := by omega
    unfold gap isNarrowBelow
    rw [quotient, exponent]
    simp [first]

/-! ## Edges -/

/-- Half of the least positive number. -/
def half : ℚ := 2 ^ (-1075 : ℤ)

theorem half_pos : 0 < half := by
  unfold half
  positivity

/-- Half way from the number before this rank to the number of this rank. -/
def edge (rank : Nat) : ℚ := (weight (rank - 1) + weight rank : Nat) * half

theorem strictMono_edge : StrictMono edge :=
  strictMono_nat_of_lt_succ fun rank => by
    have before : weight (rank - 1) ≤ weight rank := strictMono_weight.monotone (Nat.sub_le rank 1)
    have after : weight rank < weight (rank + 1) := strictMono_weight (Nat.lt_succ_self rank)
    refine mul_lt_mul_of_pos_right (Nat.cast_lt.mpr ?_) half_pos
    rw [Nat.add_sub_cancel]
    omega

/-- The rational reads back as the number of this rank. -/
structure ReadsAs (q : ℚ) (rank : Nat) : Prop where
  lower : edge rank ≤ q
  upper : q ≤ edge (rank + 1)
  tie : q = edge rank ∨ q = edge (rank + 1) → Even rank

theorem ReadsAs.le {q : ℚ} {rank rank' : Nat} (h : ReadsAs q rank) (h' : ReadsAs q rank') :
    rank' ≤ rank := by
  by_contra less
  -- The rational would lie on the edge between two ranks that follow one another.
  have between : edge (rank + 1) ≤ edge rank' := strictMono_edge.monotone (Nat.lt_of_not_le less)
  have upper : q = edge (rank + 1) := le_antisymm h.upper (between.trans h'.lower)
  have lower : q = edge rank' := le_antisymm (h.upper.trans between) h'.lower
  have next : rank + 1 = rank' := strictMono_edge.injective (upper.symm.trans lower)
  have even := h.tie (.inr upper)
  have even' := h'.tie (.inl lower)
  rw [← next, Nat.even_add_one] at even'
  exact even' even

theorem ReadsAs.unique {q : ℚ} {rank rank' : Nat} (h : ReadsAs q rank) (h' : ReadsAs q rank') :
    rank = rank' :=
  le_antisymm (h'.le h) (h.le h')

theorem readsAs_zero : ReadsAs 0 0 where
  lower := by simp [edge, weight]
  upper := mul_nonneg (Nat.cast_nonneg _) half_pos.le
  tie _ := Even.zero

end Binary64

/-! ## Bounds of what reads back -/

/-- An integral power as the fraction of two natural ones, of which one is trivial. -/
theorem pow_toNat_div_pow_toNat (b : ℚ) (e : ℤ) : b ^ e.toNat / b ^ (-e).toNat = b ^ e := by
  obtain ⟨n, rfl | rfl⟩ := e.eq_nat_or_neg <;> simp

namespace Rounding

open Binary64

/-- What the bounds are the bounds of. -/
def center (r : Rounding) : ℚ := r.value / r.denominator

def low (r : Rounding) : ℚ := r.below / r.denominator

def high (r : Rounding) : ℚ := r.above / r.denominator

section Binary

variable (x : Binary64)

theorem gap_mul_half : (gap x.rank : ℚ) * half = 2 ^ (x.power - 1) := by
  unfold gap half power
  rw [rank_div]
  split
  next least => simp [least]
  next other =>
    have exponent : ((x.exponentField - 1 : Nat) : ℤ) = x.exponentField - 1 := by omega
    rw [Nat.cast_pow, Nat.cast_ofNat, ← zpow_natCast, exponent, ← zpow_add₀ two_ne_zero]
    congr 1
    omega

/-- Quarters of the last binary place are halves of half the gap. -/
theorem quarters_div (quarters : Nat) :
    ((quarters * Nat.pow 2 (x.power - 2).toNat : Nat) : ℚ) /
        (Nat.pow 2 (-(x.power - 2)).toNat : Nat) =
      quarters / 2 * (gap x.rank * half) := by
  have scale := pow_toNat_div_pow_toNat 2 (x.power - 2)
  have power : x.power - 2 = x.power - 1 - 1 := by omega
  rw [gap_mul_half, Nat.pow_eq, Nat.pow_eq]
  push_cast
  rw [mul_div_assoc, scale, power, zpow_sub_one₀ two_ne_zero]
  ring

theorem center_ofBinary64 : (ofBinary64 x).center = 2 * weight x.rank * half := by
  unfold center ofBinary64
  rw [quarters_div, weight_rank]
  push_cast
  ring

theorem high_ofBinary64 : (ofBinary64 x).high = edge (x.rank + 1) := by
  unfold high ofBinary64 edge
  rw [quarters_div, Nat.add_sub_cancel, weight_succ, weight_rank]
  push_cast
  ring

variable {x}

theorem significand_pos (h : 0 < x.rank) : 0 < x.significand := by
  have positive : weight 0 < weight x.rank := strictMono_weight h
  rw [weight_rank] at positive
  exact Nat.pos_of_mul_pos_right (Nat.zero_lt_of_lt positive)

theorem low_ofBinary64 (h : 0 < x.rank) : (ofBinary64 x).low = edge x.rank := by
  obtain ⟨below, hbelow⟩ := Nat.exists_eq_add_of_lt h
  rw [Nat.zero_add] at hbelow
  have weights : (weight x.rank : ℚ) = weight below + gap below := by
    rw [hbelow, weight_succ, Nat.cast_add]
  have gaps := congrArg (Nat.cast (R := ℚ)) (gap_pred hbelow)
  have parts : (if x.isNarrowBelow then 1 else 2) ≤ 4 * x.significand := by
    have := significand_pos h
    split <;> omega
  have product : (weight x.rank : ℚ) = x.significand * gap x.rank := by
    rw [weight_rank, Nat.cast_mul]
  unfold low ofBinary64 edge
  rw [quarters_div, Nat.cast_sub parts, show x.rank - 1 = below by omega]
  push_cast at gaps ⊢
  split at gaps
  next narrow =>
    rw [if_pos narrow]
    linear_combination half * weights - half / 2 * gaps - 2 * half * product
  next wide =>
    rw [if_neg wide]
    linear_combination half * weights - half * gaps - 2 * half * product

theorem closed_ofBinary64 : (ofBinary64 x).closed = true ↔ Even x.rank := by
  rw [even_rank]
  exact decide_eq_true_iff

theorem readsAs_iff (h : 0 < x.rank) {q : ℚ} :
    ReadsAs q x.rank ↔ (ofBinary64 x).low ≤ q ∧ q ≤ (ofBinary64 x).high ∧
      (q = (ofBinary64 x).low ∨ q = (ofBinary64 x).high → (ofBinary64 x).closed = true) := by
  rw [low_ofBinary64 h, high_ofBinary64, closed_ofBinary64]
  exact ⟨fun ⟨lower, upper, tie⟩ => ⟨lower, upper, tie⟩, fun ⟨lower, upper, tie⟩ =>
    ⟨lower, upper, tie⟩⟩

end Binary

/-! ## Decimals between the bounds -/

section Decimals

variable {denominator : Nat}

theorem div_le_decimal_iff (positive : 0 < denominator) (bound n : Nat) (e : ℤ) :
    (bound : ℚ) / denominator ≤ n * 10 ^ e ↔
      bound * Nat.pow 10 (-e).toNat ≤ n * Nat.pow 10 e.toNat * denominator := by
  rw [← pow_toNat_div_pow_toNat 10 e, ← mul_div_assoc,
    div_le_div_iff₀ (Nat.cast_pos.mpr positive) (by positivity)]
  exact_mod_cast Iff.rfl

theorem decimal_le_div_iff (positive : 0 < denominator) (bound n : Nat) (e : ℤ) :
    n * 10 ^ e ≤ (bound : ℚ) / denominator ↔
      n * Nat.pow 10 e.toNat * denominator ≤ bound * Nat.pow 10 (-e).toNat := by
  rw [← pow_toNat_div_pow_toNat 10 e, ← mul_div_assoc,
    div_le_div_iff₀ (by positivity) (Nat.cast_pos.mpr positive)]
  exact_mod_cast Iff.rfl

variable {r : Rounding} {n : Nat} {e : ℤ}

/-- The bounds of a rounding are compared in exact arithmetic. -/
theorem admits_iff (positive : 0 < r.denominator) :
    r.admits n e = true ↔ r.low ≤ n * 10 ^ e ∧ n * 10 ^ e ≤ r.high ∧
      (n * 10 ^ e = r.low ∨ n * 10 ^ e = r.high → r.closed = true) := by
  have lower := div_le_decimal_iff positive r.below n e
  have upper := decimal_le_div_iff positive r.above n e
  have below := not_congr (decimal_le_div_iff positive r.below n e)
  have above := not_congr (div_le_decimal_iff positive r.above n e)
  rw [not_le, not_le] at below above
  unfold admits low high
  cases closed : r.closed with
  | true => simp [lower, upper]
  | false =>
      simp only [Bool.false_eq_true, if_false, Bool.and_eq_true, decide_eq_true_eq, ← below, ← above,
        lt_iff_le_and_ne, imp_false]
      constructor
      · rintro ⟨⟨lower, notLower⟩, upper, notUpper⟩
        exact ⟨lower, upper, fun tie => tie.elim notLower.symm notUpper⟩
      · rintro ⟨lower, upper, noTie⟩
        exact ⟨⟨lower, fun same => noTie (.inl same.symm)⟩, upper, fun same => noTie (.inr same)⟩

theorem admits_of_lt (positive : 0 < r.denominator) (lower : r.low < n * 10 ^ e)
    (upper : n * 10 ^ e < r.high) : r.admits n e = true :=
  (admits_iff positive).mpr ⟨lower.le, upper.le, fun tie =>
    (tie.elim lower.ne' upper.ne).elim⟩

theorem admits_of_nearest? {d : Decimal} (h : r.nearest? e = some d) :
    r.admits d.digits d.exponent = true := by
  unfold nearest? at h
  extract_lets ten scaled floor up at h
  cases here : r.admits floor e <;> cases next : r.admits (floor + 1) e <;>
    simp only [here, next, Option.some.injEq, reduceCtorEq] at h
  · rw [← h]
    exact next
  · rw [← h]
    exact here
  · rw [← h]
    dsimp only
    split
    · exact next
    · exact here

/-- A grid finer than the distance of the bounds has a point between them. -/
theorem isSome_nearest? (positive : 0 < r.denominator) (low : r.low < r.center)
    (high : r.center < r.high) (fine : 10 ^ e < r.high - r.low) : (r.nearest? e).isSome = true := by
  unfold nearest?
  extract_lets ten scaled floor up
  have hten : 0 < ten := Nat.mul_pos (Nat.pow_pos (by decide)) positive
  have atMost : (floor : ℚ) * 10 ^ e ≤ r.center := by
    refine (decimal_le_div_iff positive r.value floor e).mpr ?_
    rw [Nat.mul_assoc]
    exact Nat.div_mul_le_self _ _
  have more : r.center < (floor + 1 : Nat) * 10 ^ e := by
    rw [← not_le]
    refine fun h => absurd ((decimal_le_div_iff positive r.value (floor + 1) e).mp h) ?_
    rw [Nat.mul_assoc, Nat.not_le]
    exact Nat.lt_mul_of_div_lt (Nat.lt_succ_self floor) hten
  by_cases inside : r.low < floor * 10 ^ e
  · have here := admits_of_lt positive inside (atMost.trans_lt high)
    cases next : r.admits (floor + 1) e <;> rw [here] <;> rfl
  · -- The point below is too low by less than a step, so the next one is not too high.
    have next : r.admits (floor + 1) e = true := by
      refine admits_of_lt positive (low.trans more) ?_
      push_cast
      linarith
    cases here : r.admits floor e <;> rw [next] <;> rfl

theorem lt_ten_pow_digitCount (n : Nat) : n < 10 ^ digitCount n :=
  (Nat.length_toDigits_le_iff (by decide) Nat.length_toDigits_pos).mp (Nat.le_refl _)

theorem ten_pow_le_of_pos {n : Nat} (h : 0 < n) : 10 ^ (digitCount n - 1) ≤ n := by
  by_contra less
  have positive : 0 < digitCount n := Nat.length_toDigits_pos
  by_cases one : digitCount n - 1 = 0
  · rw [one] at less
    omega
  · have fewer := (Nat.length_toDigits_le_iff (by decide) (Nat.pos_of_ne_zero one)).mpr
      (Nat.lt_of_not_le less)
    unfold digitCount at positive fewer
    omega

theorem ten_pow_magnitude_le (positive : 0 < r.denominator) (h : 0 < r.value) :
    10 ^ (r.magnitude - 1) ≤ r.center := by
  have naturals := decimal_le_div_iff positive r.value 1 (r.magnitude - 1)
  rw [Nat.cast_one, one_mul, Nat.one_mul] at naturals
  refine naturals.mpr ?_
  simp only [Nat.pow_eq]
  unfold magnitude
  split
  next large =>
    have digits := ten_pow_le_of_pos (Nat.div_pos large positive)
    have exponent : ((digitCount (r.value / r.denominator) : ℤ) - 1).toNat =
        digitCount (r.value / r.denominator) - 1 := by omega
    have other : (-((digitCount (r.value / r.denominator) : ℤ) - 1)).toNat = 0 := by
      have : 0 < digitCount (r.value / r.denominator) := Nat.length_toDigits_pos
      omega
    rw [exponent, other, Nat.pow_zero, Nat.mul_one]
    exact (Nat.le_div_iff_mul_le positive).mp digits
  next small =>
    have digits := lt_ten_pow_digitCount ((r.denominator - 1) / r.value)
    have exponent : (1 - (digitCount ((r.denominator - 1) / r.value) : ℤ) - 1).toNat = 0 := by omega
    have other : (-(1 - (digitCount ((r.denominator - 1) / r.value) : ℤ) - 1)).toNat =
        digitCount ((r.denominator - 1) / r.value) := by omega
    rw [exponent, other, Nat.pow_zero, Nat.one_mul, Nat.mul_comm]
    have less := (Nat.div_lt_iff_lt_mul h).mp digits
    omega

theorem admits_shortest (positive : 0 < r.denominator) (low : r.low < r.center)
    (high : r.center < r.high) (h : 0 < r.value) (fine : r.center < 10 ^ 16 * (r.high - r.low)) :
    r.admits r.shortest.digits r.shortest.exponent = true := by
  have last : (r.nearest? (r.magnitude - 1 - (16 : Nat))).isSome = true := by
    refine isSome_nearest? positive low high ?_
    have magnitude := ten_pow_magnitude_le positive h
    rw [zpow_sub₀ (by norm_num), zpow_natCast, div_lt_iff₀ (by positivity)]
    linarith
  have found : ((List.range 17).findSome? fun (k : Nat) => r.nearest? (r.magnitude - 1 - k)).isSome =
      true :=
    List.findSome?_isSome_iff.mpr ⟨16, by simp, last⟩
  obtain ⟨d, hd⟩ := Option.isSome_iff_exists.mp found
  obtain ⟨k, -, nearest⟩ := List.exists_of_findSome?_eq_some hd
  have shortest : r.shortest = d := by
    unfold Rounding.shortest
    dsimp only
    rw [hd, Option.getD_some]
  rw [shortest]
  exact admits_of_nearest? nearest

end Decimals

end Rounding

/-- The number that a decimal stands for. -/
def Decimal.toRat (d : Decimal) : ℚ := d.digits * 10 ^ d.exponent

namespace Binary64

variable {x : Binary64}

/-- A number is less than `10 ^ 16` times as far from zero as its edges are from each other. -/
theorem weight_lt {below : Nat} (h : x.rank = below + 1) :
    2 * weight x.rank < 10 ^ 16 * (gap x.rank + gap below) := by
  have positive := gap_pos below
  rw [weight_rank, gap_pred h]
  cases narrow : x.isNarrowBelow with
  | true =>
      have least : x.significand = 2 ^ 52 := by
        simp only [isNarrowBelow, Bool.decide_and, Bool.and_eq_true, decide_eq_true_eq] at narrow
        rw [significand, if_neg (by omega), narrow.1]
        rfl
      rw [least, if_pos rfl]
      omega
  | false =>
      have bound := x.significand_lt
      rw [if_neg (by decide), Nat.one_mul]
      nlinarith

/-- The shortest decimal of a number reads back as that number. -/
theorem readsAs_shortest (h : 0 < x.rank) :
    ReadsAs (Rounding.ofBinary64 x).shortest.toRat x.rank := by
  obtain ⟨below, hbelow⟩ := Nat.exists_eq_add_of_lt h
  rw [Nat.zero_add] at hbelow
  have denominator : 0 < (Rounding.ofBinary64 x).denominator := Nat.two_pow_pos _
  have value : 0 < (Rounding.ofBinary64 x).value :=
    Nat.mul_pos (Nat.mul_pos (by decide) (Rounding.significand_pos h)) (Nat.two_pow_pos _)
  have low : (Rounding.ofBinary64 x).low = 2 * weight x.rank * half - gap below * half := by
    rw [Rounding.low_ofBinary64 h, edge, hbelow, Nat.add_sub_cancel, weight_succ]
    push_cast
    ring
  have high : (Rounding.ofBinary64 x).high = 2 * weight x.rank * half + gap x.rank * half := by
    rw [Rounding.high_ofBinary64, edge, Nat.add_sub_cancel, weight_succ]
    push_cast
    ring
  have center := Rounding.center_ofBinary64 x
  have lower : 0 < (gap below : ℚ) * half := mul_pos (Nat.cast_pos.mpr (gap_pos _)) half_pos
  have upper : 0 < (gap x.rank : ℚ) * half := mul_pos (Nat.cast_pos.mpr (gap_pos _)) half_pos
  have fine : (2 * weight x.rank : ℚ) * half < 10 ^ 16 * (gap x.rank + gap below) * half :=
    mul_lt_mul_of_pos_right (mod_cast weight_lt hbelow) half_pos
  rw [Rounding.readsAs_iff h, Decimal.toRat, ← Rounding.admits_iff denominator]
  refine Rounding.admits_shortest denominator ?_ ?_ value ?_
  · rw [low, center]
    linarith
  · rw [high, center]
    linarith
  · rw [low, high, center]
    linarith

end Binary64

end DeclTree
