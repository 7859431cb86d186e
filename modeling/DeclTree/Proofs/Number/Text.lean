import DeclTree.Proofs.Number.Shortest
import Mathlib.Data.List.TakeWhile

/-!
# Texts of numbers

A number written out in full can be read again: its digits without the point are a natural number,
and the point says how many times that is divided by ten. Padding and cut zeros do not count. Since
the shortest decimal of a number reads back as that number alone, two numbers with one text are the
same number, or both are NaN.
-/

namespace DeclTree

/-! ## Decimals written out in full -/

namespace Decimal

/-- The number that digits stand for, with a point or without. -/
def ofText (text : List Char) : ℚ :=
  let whole := text.takeWhile (· != '.')
  let fraction := (text.dropWhile (· != '.')).tail
  (Nat.ofDigitChars 10 (whole ++ fraction) 0 : Nat) / 10 ^ fraction.length

section Reading

variable {whole : List Char}

theorem bne_point (h : '.' ∉ whole) : ∀ c ∈ whole, (c != '.') = true := by
  intro c hc
  rw [bne_iff_ne]
  rintro rfl
  exact h hc

theorem ofText_whole (h : '.' ∉ whole) : ofText whole = Nat.ofDigitChars 10 whole 0 := by
  unfold ofText
  rw [List.takeWhile_eq_self_iff.mpr (bne_point h), List.dropWhile_eq_nil_iff.mpr (bne_point h)]
  simp

theorem ofText_point (fraction : List Char) (h : '.' ∉ whole) :
    ofText (whole ++ '.' :: fraction) =
      (Nat.ofDigitChars 10 (whole ++ fraction) 0 : Nat) / 10 ^ fraction.length := by
  unfold ofText
  rw [List.takeWhile_append_of_pos (bne_point h), List.dropWhile_append_of_pos (bne_point h)]
  simp

end Reading

/-- What is cut off at the end are zeros. -/
theorem exists_cut (digits : List Char) :
    ∃ count, digits = (digits.reverse.dropWhile (· = '0')).reverse ++ List.replicate count '0' := by
  have zeros : digits.reverse.takeWhile (· = '0') =
      List.replicate (digits.reverse.takeWhile (· = '0')).length '0' := by
    rw [List.eq_replicate_iff]
    refine ⟨rfl, fun c hc => ?_⟩
    simpa using List.mem_takeWhile_imp hc
  refine ⟨(digits.reverse.takeWhile (· = '0')).length, ?_⟩
  rw [← List.reverse_replicate, ← zeros, ← List.reverse_append, List.takeWhile_append_dropWhile,
    List.reverse_reverse]

theorem ofDigitChars_append_zeros (digits : List Char) (count : Nat) :
    Nat.ofDigitChars 10 (digits ++ List.replicate count '0') 0 =
      10 ^ count * Nat.ofDigitChars 10 digits 0 := by
  rw [Nat.ofDigitChars_append, Nat.ofDigitChars_replicate_zero]

/-- The parts of the text of a decimal. -/
theorem exists_positional (d : Decimal) : ∃ (whole fraction : List Char) (count : Nat),
    whole ≠ [] ∧ (∀ c ∈ whole ++ fraction, c.isDigit = true) ∧
    count + fraction.length = (-d.exponent).toNat ∧
    10 ^ count * Nat.ofDigitChars 10 (whole ++ fraction) 0 = d.digits ∧
    d.positional.toList =
      if fraction = [] then whole ++ List.replicate d.exponent.toNat '0'
      else whole ++ '.' :: fraction := by
  unfold positional
  extract_lets digits places padded whole fraction zeros
  obtain ⟨count, cut⟩ := exists_cut (padded.drop (padded.length - places))
  have long : places < padded.length := by
    simp only [padded, List.length_append, List.length_replicate]
    omega
  have parts : padded = whole ++ fraction ++ List.replicate count '0' := by
    rw [List.append_assoc, ← cut, List.take_append_drop]
  refine ⟨whole, fraction, count, ?_, ?_, ?_, ?_, ?_⟩
  · intro empty
    have := congrArg List.length empty
    simp only [whole, List.length_take, List.length_nil] at this
    omega
  · intro c hc
    have mem : c ∈ padded := parts ▸ List.mem_append_left _ hc
    simp only [padded, List.mem_append, List.mem_replicate] at mem
    rcases mem with ⟨-, rfl⟩ | mem
    · rfl
    · exact Nat.isDigit_of_mem_toDigits (by decide) (by decide) mem
  · have := congrArg List.length cut
    simp only [List.length_drop, List.length_append, List.length_replicate] at this
    simp only [fraction]
    omega
  · rw [← ofDigitChars_append_zeros, ← parts]
    simp only [padded, Nat.ofDigitChars_append, Nat.ofDigitChars_replicate_zero, Nat.mul_zero]
    exact Nat.ofDigitChars_toDigits (by decide) (by decide)
  · rw [String.toList_ofList]
    simp only [List.isEmpty_iff]
    rfl

/-- The text of a decimal stands for the number that the decimal stands for. -/
theorem ofText_positional (d : Decimal) : ofText d.positional.toList = d.toRat := by
  obtain ⟨whole, fraction, count, -, digits, places, value, text⟩ := d.exists_positional
  have noPoint : '.' ∉ whole := fun mem => by
    have := digits '.' (List.mem_append_left _ mem)
    contradiction
  have power := pow_toNat_div_pow_toNat 10 d.exponent
  have ten : (10 : ℚ) ^ count ≠ 0 := by positivity
  rw [text, toRat, ← value, ← power, ← places]
  split
  next empty =>
    rw [ofText_whole, ofDigitChars_append_zeros]
    · simp only [empty, List.append_nil, List.length_nil, Nat.add_zero]
      push_cast
      field_simp
    · simp [noPoint]
  next nonempty =>
    have negative : d.exponent.toNat = 0 := by
      have := List.length_pos_iff.mpr nonempty
      omega
    rw [ofText_point fraction noPoint, negative, pow_add]
    push_cast
    field_simp

end Decimal

/-! ## Numerals -/

/-- Made of the characters that numbers are written with, and begun like a number. -/
structure IsNumeral (text : List Char) : Prop where
  chars : ∀ c ∈ text, c.isDigit = true ∨ c ∈ ['-', '.', 'N', 'a', 'i', 'n', 'f']
  head : ∃ c ∈ text.head?, c.isDigit = true ∨ c ∈ ['-', 'N', 'i']

theorem Decimal.isNumeral_positional (d : Decimal) :
    IsNumeral d.positional.toList ∧ ∃ c ∈ d.positional.toList.head?, c.isDigit = true := by
  obtain ⟨whole, fraction, count, nonempty, digits, -, -, text⟩ := d.exists_positional
  rw [List.forall_mem_append] at digits
  obtain ⟨c, whole, rfl⟩ := List.exists_cons_of_ne_nil nonempty
  have head : c.isDigit = true := digits.1 c List.mem_cons_self
  have starts : d.positional.toList.head? = some c := by
    rw [text]
    split <;> rfl
  refine ⟨⟨?_, c, starts, .inl head⟩, c, starts, head⟩
  intro c' hc'
  rw [text] at hc'
  split at hc'
  · rcases List.mem_append.mp hc' with hc' | hc'
    · exact .inl (digits.1 c' hc')
    · rw [List.eq_of_mem_replicate hc']
      exact .inl rfl
  · rcases List.mem_append.mp hc' with hc' | hc'
    · exact .inl (digits.1 c' hc')
    · rcases List.mem_cons.mp hc' with rfl | hc'
      · simp
      · exact .inl (digits.2 c' hc')

namespace Binary64

variable {x y : Binary64}

theorem magnitudeText_of_isInfinite (h : x.isInfinite = true) : x.magnitudeText = "inf" :=
  if_pos h

theorem rank_eq_zero (h : x.isZero = true) : x.rank = 0 := by
  simp only [isZero, Bool.decide_and, Bool.and_eq_true, decide_eq_true_eq] at h
  simp [rank, h]

theorem rank_pos (h : x.isZero = false) : 0 < x.rank := by
  simp only [isZero, decide_eq_false_iff_not] at h
  unfold rank
  omega

/-- The text of a finite number reads back as that number and begins with a digit. -/
theorem readsAs_magnitudeText (h : x.isInfinite = false) :
    ReadsAs (Decimal.ofText x.magnitudeText.toList) x.rank ∧ IsNumeral x.magnitudeText.toList ∧
      ∃ c ∈ x.magnitudeText.toList.head?, c.isDigit = true := by
  unfold magnitudeText
  rw [h, if_neg Bool.false_ne_true]
  cases zero : x.isZero with
  | true =>
      have reads : Decimal.ofText "0".toList = 0 := by
        rw [Decimal.ofText_whole (by decide)]
        simp [Nat.ofDigitChars]
      rw [if_pos rfl, reads, rank_eq_zero zero]
      exact ⟨readsAs_zero, ⟨by simp, '0', rfl, .inl rfl⟩, '0', rfl, rfl⟩
  | false =>
      rw [if_neg Bool.false_ne_true, Decimal.ofText_positional]
      exact ⟨readsAs_shortest (rank_pos zero), Decimal.isNumeral_positional _⟩

theorem isNumeral_magnitudeText (x : Binary64) :
    IsNumeral x.magnitudeText.toList ∧ ∀ c ∈ x.magnitudeText.toList.head?, c ≠ '-' ∧ c ≠ 'N' := by
  cases infinite : x.isInfinite with
  | true =>
      rw [magnitudeText_of_isInfinite infinite]
      exact ⟨⟨by simp, 'i', rfl, by simp⟩, by simp⟩
  | false =>
      obtain ⟨-, numeral, c, head, digit⟩ := readsAs_magnitudeText infinite
      refine ⟨numeral, fun c' head' => ?_⟩
      obtain rfl := Option.some.inj (head.symm.trans head')
      constructor <;> rintro rfl <;> contradiction

theorem rank_eq_of_isInfinite (h : x.isInfinite = true) : x.rank = 2047 * 2 ^ 52 := by
  simp only [isInfinite, Bool.decide_and, Bool.and_eq_true, decide_eq_true_eq] at h
  simp [rank, h]

/-- The text of an infinite number begins like that of no finite one. -/
theorem magnitudeText_ne (hx : x.isInfinite = true) (hy : y.isInfinite = false) :
    x.magnitudeText ≠ y.magnitudeText := by
  intro same
  obtain ⟨-, -, c, head, digit⟩ := readsAs_magnitudeText hy
  rw [← same, magnitudeText_of_isInfinite hx] at head
  obtain rfl : 'i' = c := Option.some.inj head
  contradiction

theorem rank_eq_of_magnitudeText_eq (h : x.magnitudeText = y.magnitudeText) : x.rank = y.rank := by
  cases hx : x.isInfinite with
  | true =>
      cases hy : y.isInfinite with
      | true => rw [rank_eq_of_isInfinite hx, rank_eq_of_isInfinite hy]
      | false => exact absurd h (magnitudeText_ne hx hy)
  | false =>
      cases hy : y.isInfinite with
      | true => exact absurd h.symm (magnitudeText_ne hy hx)
      | false =>
          have reads := (readsAs_magnitudeText hx).1
          rw [h] at reads
          exact reads.unique (readsAs_magnitudeText hy).1

/-- Sign and rank are all there is to a number. -/
theorem eq_of_rank_eq (sign : x.isNegative = y.isNegative) (rank : x.rank = y.rank) : x = y := by
  obtain ⟨x⟩ := x
  obtain ⟨y⟩ := y
  have hx := x.toNat_lt
  have hy := y.toNat_lt
  simp only [isNegative, Binary64.rank, exponentField, fractionField, Nat.pow_eq,
    decide_eq_decide] at sign rank
  rw [mk.injEq, ← UInt64.toNat_inj]
  omega

theorem text_of_isNaN (h : x.isNaN = true) : x.text = "NaN" := if_pos h

theorem toList_text (h : x.isNaN = false) :
    x.text.toList = (if x.isNegative then ['-'] else []) ++ x.magnitudeText.toList := by
  unfold text
  rw [h, if_neg Bool.false_ne_true]
  split <;> simp

theorem isNumeral_text (x : Binary64) : IsNumeral x.text.toList := by
  cases nan : x.isNaN with
  | true =>
      rw [text_of_isNaN nan]
      exact ⟨by simp, 'N', rfl, by simp⟩
  | false =>
      obtain ⟨⟨chars, head⟩, -⟩ := x.isNumeral_magnitudeText
      rw [toList_text nan]
      split
      · refine ⟨?_, '-', rfl, by simp⟩
        simpa using chars
      · exact ⟨chars, head⟩

theorem text_ne_of_isNaN (hx : x.isNaN = true) (hy : y.isNaN = false) : x.text ≠ y.text := by
  intro same
  obtain ⟨⟨-, c, head, -⟩, begins⟩ := y.isNumeral_magnitudeText
  have texts : x.text.toList.head? = y.text.toList.head? := by rw [same]
  rw [text_of_isNaN hx, toList_text hy] at texts
  split at texts
  · cases texts
  · exact (begins 'N' texts.symm).2 rfl

theorem eq_of_sign_append {sign sign' : Bool} {text text' : List Char}
    (unsigned : '-' ∉ text.head?) (unsigned' : '-' ∉ text'.head?)
    (h : (if sign then ['-'] else []) ++ text = (if sign' then ['-'] else []) ++ text') :
    sign = sign' ∧ text = text' := by
  cases sign with
  | true =>
      cases sign' with
      | true => simpa using h
      | false =>
          have h : '-' :: text = text' := h
          simp [← h] at unsigned'
  | false =>
      cases sign' with
      | true =>
          have h : text = '-' :: text' := h
          simp [h] at unsigned
      | false => exact ⟨rfl, h⟩

/-- Two numbers with one text are the same number, or neither is a number. -/
theorem text_eq_iff : x.text = y.text ↔ x = y ∨ x.isNaN = true ∧ y.isNaN = true := by
  constructor
  · intro same
    cases hx : x.isNaN with
    | true =>
        cases hy : y.isNaN with
        | true => exact .inr ⟨rfl, rfl⟩
        | false => exact absurd same (text_ne_of_isNaN hx hy)
    | false =>
        cases hy : y.isNaN with
        | true => exact absurd same.symm (text_ne_of_isNaN hy hx)
        | false =>
            have texts := congrArg String.toList same
            rw [toList_text hx, toList_text hy] at texts
            obtain ⟨sign, magnitude⟩ := eq_of_sign_append
              (fun minus => (x.isNumeral_magnitudeText.2 '-' minus).1 rfl)
              (fun minus => (y.isNumeral_magnitudeText.2 '-' minus).1 rfl) texts
            have rank := rank_eq_of_magnitudeText_eq (String.toList_inj.mp magnitude)
            exact .inl (eq_of_rank_eq sign rank)
  · rintro (rfl | ⟨hx, hy⟩)
    · rfl
    · rw [text_of_isNaN hx, text_of_isNaN hy]

end Binary64

end DeclTree
