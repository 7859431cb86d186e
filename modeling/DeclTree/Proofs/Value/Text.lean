import DeclTree.Proofs.Delimited
import DeclTree.Proofs.Number.Text
import DeclTree.Proofs.Running
import DeclTree.Proofs.Value.Equality

/-!
# Texts of values

Nothing in the text of a value is escaped, so it can be read again only as far as its delimiters
allow: a string is over at the first quote, a scalar at a comma or a bracket. Two values without
quotes in their strings that have one text say the same, unless an integer stands where the other
has a float that is written alike. And two values that say the same have one text, unless they hold
zeros of different signs in the same place. Without floats there is nothing to mix up, and a text
stands for one value alone.
-/

namespace DeclTree

open Delimited

/-! ## Scalars -/

/-- Marks that begin, divide or end the texts of strings and lists. -/
def delimiters : List Char := [',', ']', '[', '"']

theorem IsNumeral.no_delimiters {text : List Char} (h : IsNumeral text) :
    ∀ c ∈ text, c ∉ delimiters := by
  intro c hc
  rcases h.chars c hc with digit | mark
  · intro delimiter
    simp only [delimiters, List.mem_cons, List.not_mem_nil, or_false] at delimiter
    rcases delimiter with rfl | rfl | rfl | rfl <;> cases digit
  · simp only [List.mem_cons, List.not_mem_nil, or_false] at mark
    rcases mark with rfl | rfl | rfl | rfl | rfl | rfl | rfl <;> decide

namespace Value

theorem text_int (i : Int64) :
    (int i).text.toList = if 0 ≤ i.toInt then Nat.toDigits 10 i.toInt.toNat
      else '-' :: Nat.toDigits 10 (-i.toInt).toNat := by
  rw [text, Int.toString_eq_repr, Int.repr_eq_if]
  split <;> simp

theorem isNumeral_int (i : Int64) : IsNumeral (int i).text.toList := by
  have digit : ∀ n, ∀ c ∈ Nat.toDigits 10 n, c.isDigit = true := fun n c =>
    Nat.isDigit_of_mem_toDigits (by decide) (by decide)
  rw [text_int]
  split
  · have mem := List.head_mem (Nat.toDigits_ne_nil (b := 10) (n := i.toInt.toNat))
    exact ⟨fun c hc => .inl (digit _ c hc), _, List.head?_eq_some_head _, .inl (digit _ _ mem)⟩
  · refine ⟨fun c hc => ?_, '-', rfl, by simp⟩
    rcases List.mem_cons.mp hc with rfl | hc
    · simp
    · exact .inl (digit _ c hc)

theorem eq_of_text_int {i j : Int64} (h : (int i).text = (int j).text) : i = j := by
  have minus : ∀ n, '-' ∉ Nat.toDigits 10 n := fun n mem => by
    have := Nat.isDigit_of_mem_toDigits (by decide) (by decide) mem
    contradiction
  have digits : ∀ {m n}, Nat.toDigits 10 m = Nat.toDigits 10 n → m = n := by
    intro m n same
    rw [← Nat.ofDigitChars_ten_toDigits (n := m), same, Nat.ofDigitChars_ten_toDigits]
  have texts := congrArg String.toList h
  rw [text_int, text_int] at texts
  apply Int64.toInt_inj.mp
  split at texts <;> split at texts
  · have := digits texts
    omega
  · exact absurd (by rw [texts]; exact List.mem_cons_self) (minus i.toInt.toNat)
  · exact absurd (by rw [← texts]; exact List.mem_cons_self) (minus j.toInt.toNat)
  · have := digits (List.cons.inj texts).2
    omega

/-- Whether a float has the text of an integer. -/
def hasTextOf (x : Binary64) (i : Int64) : Bool := x.text == (int i).text

/-- Values that are written without delimiters. -/
def isScalar : Value → Bool
  | .string _ | .list _ => false
  | _ => true

/-! ## Values that face each other -/

mutual

/-- Whether two values hold values in the same place that the test accepts. -/
def facing (test : Value → Value → Bool) : Value → Value → Bool
  | .list as, .list bs => facingAny test as bs
  | a, b => test a b

def facingAny (test : Value → Value → Bool) : List Value → List Value → Bool
  | a :: as, b :: bs => a.facing test b || facingAny test as bs
  | _, _ => false

end

mutual

/-- Whether two values are written alike: the same data but for numbers. Floats have to be the same
down to the sign of zero, and an integer can stand for a float. -/
def writtenAlike : Value → Value → Bool
  | .float x, .float y => x == y || (x.isNaN && y.isNaN)
  | .int i, .float x | .float x, .int i => hasTextOf x i
  | .list as, .list bs => writtenAlikeList as bs
  | .null, .null => true
  | .bool a, .bool b => a == b
  | .int a, .int b => a == b
  | .string a, .string b => a == b
  | _, _ => false

def writtenAlikeList : List Value → List Value → Bool
  | [], [] => true
  | a :: as, b :: bs => a.writtenAlike b && writtenAlikeList as bs
  | _, _ => false

end

/-- Whether an integer stands where the other value has a float that is written alike. -/
def mixesNumbers : Value → Value → Bool :=
  facing fun
    | .int i, .float x | .float x, .int i => hasTextOf x i
    | _, _ => false

/-- Whether zeros of different signs stand in the same place. -/
def mixesZeros : Value → Value → Bool :=
  facing fun
    | .float x, .float y => x.isZero && y.isZero && x.isNegative != y.isNegative
    | _, _ => false

mutual

/-- Whether no string has a quote in it. -/
def unquoted : Value → Bool
  | .string s => '"' ∉ s.toList
  | .list items => unquotedAll items
  | _ => true

def unquotedAll : List Value → Bool
  | [] => true
  | item :: items => item.unquoted && unquotedAll items

end

theorem facingAny_eq_any (test : Value → Value → Bool) (as bs : List Value) :
    facingAny test as bs = (as.zip bs).any fun (a, b) => a.facing test b := by
  induction as generalizing bs with
  | nil => rfl
  | cons a as ih =>
      cases bs with
      | nil => rfl
      | cons b bs => simp [facingAny, ih]

theorem unquotedAll_eq_all (items : List Value) : unquotedAll items = items.all unquoted := by
  induction items with
  | nil => rfl
  | cons item items ih => simp [unquotedAll, ih]

/-- A value is a scalar, a string, or a list of values. -/
theorem induction {motive : Value → Prop} (scalar : ∀ v, v.isScalar = true → motive v)
    (string : ∀ s, motive (.string s))
    (list : ∀ items, (∀ item ∈ items, motive item) → motive (.list items)) (v : Value) :
    motive v := by
  refine @Value.rec motive (fun items => ∀ item ∈ items, motive item) (scalar _ rfl)
    (fun _ => scalar _ rfl) (fun _ => scalar _ rfl) (fun _ => scalar _ rfl) string list ?_ ?_ v
  · simp
  · intro item items head tail
    simpa using ⟨head, tail⟩

/-! ## Texts -/

theorem no_delimiters_of_isScalar {v : Value} (h : v.isScalar = true) :
    v.text.toList ≠ [] ∧ ∀ c ∈ v.text.toList, c ∉ delimiters := by
  have numeral : ∀ {text : List Char}, IsNumeral text →
      text ≠ [] ∧ ∀ c ∈ text, c ∉ delimiters := by
    rintro text h
    obtain ⟨c, hc, -⟩ := h.head
    refine ⟨?_, h.no_delimiters⟩
    rintro rfl
    cases hc
  cases v with
  | null => simp [text, delimiters]
  | bool b => cases b <;> simp [text, delimiters]
  | int i => exact numeral (isNumeral_int i)
  | float x => exact numeral x.isNumeral_text
  | string s => cases h
  | list items => cases h

theorem text_string (s : String) : (string s).text.toList = '"' :: (s.toList ++ ['"']) := by
  simp [text]

theorem text_list (items : List Value) :
    (list items).text.toList = '[' :: match items.map fun item => item.text.toList with
      | [] => [']']
      | text :: texts => text ++ closing ']' texts := by
  rw [text, texts_eq_map]
  cases items with
  | nil => rfl
  | cons item items => simp [append_closing, Function.comp_def]

/-- The first character tells strings and lists from scalars. -/
theorem exists_head (v : Value) : ∃ c text, v.text.toList = c :: text ∧ c ≠ ']' ∧
    (c = '"' ↔ ∃ s, v = string s) ∧ (c = '[' ↔ ∃ items, v = list items) := by
  cases scalar : v.isScalar with
  | true =>
      obtain ⟨nonempty, plain⟩ := no_delimiters_of_isScalar scalar
      obtain ⟨c, text, htext⟩ := List.exists_cons_of_ne_nil nonempty
      have hc := plain c (by simp [htext])
      simp only [delimiters, List.mem_cons, List.not_mem_nil, or_false, not_or] at hc
      obtain ⟨-, bracket, opening, quote⟩ := hc
      refine ⟨c, text, htext, bracket, iff_of_false quote ?_, iff_of_false opening ?_⟩
      · rintro ⟨s, rfl⟩
        cases scalar
      · rintro ⟨items, rfl⟩
        cases scalar
  | false =>
      cases v with
      | string s => exact ⟨'"', _, text_string s, by simp⟩
      | list items => exact ⟨'[', _, text_list items, by simp⟩
      | _ => cases scalar

theorem writtenAlikeList_iff {as bs : List Value} :
    writtenAlikeList as bs = true ↔ List.Forall₂ (fun a b => a.writtenAlike b = true) as bs := by
  induction as generalizing bs with
  | nil => cases bs <;> simp [writtenAlikeList]
  | cons a as ih => cases bs <;> simp [writtenAlikeList, ih]

/-- No word that stands for a value is written like a number. -/
theorem text_ne_of_word {v w : Value} (hv : v.text ∈ ["null", "true", "false"])
    (hw : IsNumeral w.text.toList) : v.text ≠ w.text := by
  intro same
  obtain ⟨c, hc, head⟩ := hw.head
  rw [← same] at hc
  simp only [List.mem_cons, List.not_mem_nil, or_false] at hv
  rcases hv with word | word | word <;> rw [word] at hc <;> cases hc <;> revert head <;> decide

theorem isNumeral_float (x : Binary64) : IsNumeral (float x).text.toList := x.isNumeral_text

/-- Scalars are written alike exactly if they have one text. -/
theorem text_eq_iff_of_isScalar {v w : Value} (hv : v.isScalar = true) (hw : w.isScalar = true) :
    v.text = w.text ↔ v.writtenAlike w = true := by
  have null : null.text ∈ ["null", "true", "false"] := by simp [text]
  have bool : ∀ b, (bool b).text ∈ ["null", "true", "false"] := by simp [text]
  cases v with
  | null =>
      cases w with
      | null => simp [writtenAlike]
      | bool b => cases b <;> decide
      | int j => simp [writtenAlike, text_ne_of_word null (isNumeral_int j)]
      | float y => simp [writtenAlike, text_ne_of_word null (isNumeral_float y)]
      | _ => cases hw
  | bool b =>
      cases w with
      | null => cases b <;> decide
      | bool b' => cases b <;> cases b' <;> decide
      | int j => simp [writtenAlike, text_ne_of_word (bool b) (isNumeral_int j)]
      | float y => simp [writtenAlike, text_ne_of_word (bool b) (isNumeral_float y)]
      | _ => cases hw
  | int i =>
      cases w with
      | null => simp [writtenAlike, (text_ne_of_word null (isNumeral_int i)).symm]
      | bool b => simp [writtenAlike, (text_ne_of_word (bool b) (isNumeral_int i)).symm]
      | int j =>
          rw [writtenAlike, beq_iff_eq]
          exact ⟨eq_of_text_int, fun same => same ▸ rfl⟩
      | float y =>
          rw [writtenAlike, hasTextOf, beq_iff_eq, eq_comm]
          rfl
      | _ => cases hw
  | float x =>
      cases w with
      | null => simp [writtenAlike, (text_ne_of_word null (isNumeral_float x)).symm]
      | bool b => simp [writtenAlike, (text_ne_of_word (bool b) (isNumeral_float x)).symm]
      | int j =>
          rw [writtenAlike, hasTextOf, beq_iff_eq]
          rfl
      | float y => simp [writtenAlike, text, Binary64.text_eq_iff]
      | _ => cases hw
  | _ => cases hv

/-! ## Data and texts -/

/-- What is written alike has one text. -/
theorem text_eq_of_writtenAlike {v w : Value} (h : v.writtenAlike w = true) : v.text = w.text := by
  induction v using induction generalizing w with
  | scalar v scalar =>
      have scalar' : w.isScalar = true := by
        cases v <;> cases w <;> simp_all [isScalar, writtenAlike]
      exact (text_eq_iff_of_isScalar scalar scalar').mpr h
  | string s => cases w <;> simp_all [writtenAlike]
  | list items ih =>
      cases w with
      | list items' =>
          have members := List.forall₂_iff_zip.mp (writtenAlikeList_iff.mp h)
          have texts : items.map text = items'.map text := by
            refine map_eq_map_of_forall₂ (List.forall₂_iff_zip.mpr ⟨members.1, fun {v w} hmem => ?_⟩)
            exact ih v (List.of_mem_zip hmem).1 (members.2 hmem)
          rw [text, text, texts_eq_map, texts_eq_map, texts]
      | _ => simp [writtenAlike] at h

theorem float_against_writtenAlike (x y : Binary64) :
    ((float x).sameIntent (float y) = true →
      ((float x).writtenAlike (float y) = true ↔ (float x).mixesZeros (float y) = false)) ∧
    ((float x).writtenAlike (float y) = true → (float x).sameIntent (float y) = true) := by
  have number : ∀ {x : Binary64}, x.isZero = true → x.isNaN = false := Binary64.isNaN_of_isZero
  have equal : x.isZero = true → y.isZero = true → (x = y ↔ x.isNegative = y.isNegative) := by
    intro hx hy
    have rank := (Binary64.rank_eq_zero hx).trans (Binary64.rank_eq_zero hy).symm
    exact ⟨fun same => same ▸ rfl, fun sign => Binary64.eq_of_rank_eq sign rank⟩
  simp only [sameIntent, writtenAlike, mixesZeros, facing, Bool.or_eq_true, Bool.and_eq_true,
    beq_iff_eq, Binary64.numericEq_iff, Bool.and_eq_false_iff, bne_eq_false_iff_eq]
  grind

/-- Values that say the same are written alike unless zeros of different signs face each other, and
values that are written alike say the same unless an integer faces a float. -/
theorem sameIntent_against_writtenAlike (v w : Value) :
    (v.sameIntent w = true → (v.writtenAlike w = true ↔ v.mixesZeros w = false)) ∧
      (v.writtenAlike w = true → (v.sameIntent w = true ↔ v.mixesNumbers w = false)) := by
  induction v using induction generalizing w with
  | scalar v scalar =>
      cases v with
      | float x =>
          cases w with
          | float y =>
              obtain ⟨zeros, same⟩ := float_against_writtenAlike x y
              exact ⟨zeros, fun alike => iff_of_true (same alike) (by simp [mixesNumbers, facing])⟩
          | _ => simp [sameIntent, writtenAlike, mixesNumbers, facing]
      | string s => cases scalar
      | list items => cases scalar
      | _ => cases w <;> simp [sameIntent, writtenAlike, mixesZeros, mixesNumbers, facing]
  | string s => cases w <;> simp [sameIntent, writtenAlike, mixesZeros, mixesNumbers, facing]
  | list items ih =>
      cases w with
      | list items' =>
          simp only [sameIntent, writtenAlike, mixesZeros, mixesNumbers, facing, facingAny_eq_any,
            sameIntentList_iff, writtenAlikeList_iff, List.forall₂_iff_zip, List.any_eq_false,
            Bool.not_eq_true, Prod.forall]
          constructor
          · rintro ⟨length, same⟩
            have each : ∀ {v w}, (v, w) ∈ items.zip items' →
                (v.writtenAlike w = true ↔ v.mixesZeros w = false) :=
              fun {v w} hmem => (ih v (List.of_mem_zip hmem).1 w).1 (same hmem)
            exact ⟨fun alike v w hmem => (each hmem).mp (alike.2 hmem),
              fun zeros => ⟨length, fun {v w} hmem => (each hmem).mpr (zeros v w hmem)⟩⟩
          · rintro ⟨length, alike⟩
            have each : ∀ {v w}, (v, w) ∈ items.zip items' →
                (v.sameIntent w = true ↔ v.mixesNumbers w = false) :=
              fun {v w} hmem => (ih v (List.of_mem_zip hmem).1 w).2 (alike hmem)
            exact ⟨fun same v w hmem => (each hmem).mp (same.2 hmem),
              fun numbers => ⟨length, fun {v w} hmem => (each hmem).mpr (numbers v w hmem)⟩⟩
      | _ => simp [sameIntent, writtenAlike]

/-- Strings that face each other have no quotes or are equal. -/
def Legible (v w : Value) : Prop :=
  v.unquoted = true ∧ w.unquoted = true ∨ v.sameIntent w = true

theorem Legible.of_mem_zip {vs ws : List Value} (h : Legible (.list vs) (.list ws)) {v w : Value}
    (hmem : (v, w) ∈ vs.zip ws) : Legible v w := by
  rcases h with ⟨left, right⟩ | same
  · simp only [unquoted, unquotedAll_eq_all, List.all_eq_true] at left right
    obtain ⟨hv, hw⟩ := List.of_mem_zip hmem
    exact .inl ⟨left v hv, right w hw⟩
  · exact .inr ((List.forall₂_iff_zip.mp (sameIntentList_iff.mp same)).2 hmem)

theorem isScalar_iff {v : Value} :
    v.isScalar = true ↔ (¬ ∃ s, v = string s) ∧ ¬ ∃ items, v = list items := by
  cases v <;> simp [isScalar]

/-- Where one text begins with both values, both are scalars, or strings, or lists. -/
theorem same_shape {v w : Value} {rest rest' : List Char}
    (h : v.text.toList ++ rest = w.text.toList ++ rest') :
    ((∃ s, v = string s) ↔ ∃ s, w = string s) ∧
      ((∃ items, v = list items) ↔ ∃ items, w = list items) := by
  obtain ⟨c, text, htext, -, string, list⟩ := v.exists_head
  obtain ⟨c', text', htext', -, string', list'⟩ := w.exists_head
  rw [htext, htext', List.cons_append, List.cons_append] at h
  obtain ⟨rfl, -⟩ := List.cons.inj h
  exact ⟨string.symm.trans string', list.symm.trans list'⟩

/-- Where one text begins with both values, they are written alike and end in the same place. -/
theorem separates {v w : Value} (h : Legible v w) :
    Separates ']' (fun v => v.text.toList) (fun v w => v.writtenAlike w = true) v w := by
  induction v using induction generalizing w with
  | scalar v scalar =>
      intro rest rest' hrest hrest' text
      obtain ⟨string, list⟩ := same_shape text
      have scalar' : w.isScalar = true := by
        rw [isScalar_iff] at scalar ⊢
        rwa [← string, ← list]
      have stops : ∀ {rest}, Ends ']' rest → ∀ c ∈ rest.head?, c ∈ delimiters := by
        intro rest ends c hc
        rcases ends c hc with rfl | rfl <;> decide
      obtain ⟨same, following⟩ := eq_of_append_eq_append (· ∈ delimiters)
        (no_delimiters_of_isScalar scalar).2 (no_delimiters_of_isScalar scalar').2
        (stops hrest) (stops hrest') text
      exact ⟨(text_eq_iff_of_isScalar scalar scalar').mp (String.toList_inj.mp same), following⟩
  | string s =>
      intro rest rest' _ _ text
      obtain ⟨s', rfl⟩ := (same_shape text).1.mp ⟨s, rfl⟩
      simp only [text_string, List.cons_append, List.append_assoc, List.cons.injEq, true_and] at text
      have same : s.toList = s'.toList ∧ '"' :: rest = '"' :: rest' := by
        rcases h with ⟨left, right⟩ | same
        · simp only [unquoted, decide_eq_true_eq] at left right
          refine eq_of_append_eq_append (· = '"') ?_ ?_ (by simp) (by simp) text
          · rintro c hc rfl
            exact left hc
          · rintro c hc rfl
            exact right hc
        · obtain rfl : s' = s := by simpa using string_sameIntent_iff.mp same
          exact ⟨rfl, List.append_cancel_left text⟩
      obtain rfl := String.toList_inj.mp same.1
      exact ⟨by simp [writtenAlike], (List.cons.inj same.2).2⟩
  | list items ih =>
      intro rest rest' _ _ text
      obtain ⟨items', rfl⟩ := (same_shape text).2.mp ⟨items, rfl⟩
      have each : ∀ v w, (v, w) ∈ items.zip items' →
          Separates ']' (fun v => v.text.toList) (fun v w => v.writtenAlike w = true) v w :=
        fun v w hmem => ih v (List.of_mem_zip hmem).1 (h.of_mem_zip hmem)
      simp only [text_list, List.cons_append, List.cons.injEq, true_and] at text
      cases items with
      | nil =>
          cases items' with
          | nil => exact ⟨rfl, by simpa using text⟩
          | cons item' items' =>
              obtain ⟨c, begins, htext, bracket, -⟩ := item'.exists_head
              simp [htext, bracket.symm] at text
      | cons item items =>
          cases items' with
          | nil =>
              obtain ⟨c, begins, htext, bracket, -⟩ := item.exists_head
              simp [htext, bracket] at text
          | cons item' items' =>
              -- The first members are read as if a comma had been there before them.
              have members : closing ']' ((item :: items).map fun v => v.text.toList) ++ rest =
                  closing ']' ((item' :: items').map fun v => v.text.toList) ++ rest' := by
                simpa [closing] using text
              obtain ⟨alike, following⟩ := forall₂_of_closing_append (by decide) each members
              exact ⟨writtenAlikeList_iff.mpr alike, following⟩

theorem text_eq_iff_of_legible {v w : Value} (h : Legible v w) :
    v.text = w.text ↔ v.writtenAlike w = true := by
  refine ⟨fun same => ?_, text_eq_of_writtenAlike⟩
  exact (separates h [] [] (by simp [Ends]) (by simp [Ends]) (by simp [same])).1

/-! ## Plain data -/

/-- Whether a value has no float in it, at any depth. -/
def floatless (v : Value) : Bool := !v.holds fun _ => true

theorem floatless_list {items : List Value} :
    (list items).floatless = true ↔ ∀ item ∈ items, item.floatless = true := by
  simp only [floatless, holds, Bool.not_eq_true']
  induction items with
  | nil => simp [holdsAny]
  | cons item items ih => simp [holdsAny, ih]

/-- Without floats only equal data is written alike. -/
theorem eq_of_writtenAlike {v w : Value} (hv : v.floatless = true) (hw : w.floatless = true)
    (h : v.writtenAlike w = true) : v = w := by
  induction v using induction generalizing w with
  | scalar v scalar =>
      cases v with
      | float x => cases hv
      | string s => cases scalar
      | list items => cases scalar
      | _ =>
          cases w with
          | float y => cases hw
          | _ => simp_all [writtenAlike]
  | string s => cases w <;> simp_all [writtenAlike]
  | list items ih =>
      cases w with
      | list others =>
          have members := List.forall₂_iff_zip.mp (writtenAlikeList_iff.mp h)
          rw [floatless_list] at hv hw
          have same : List.Forall₂ (· = ·) items others := by
            refine List.forall₂_iff_zip.mpr ⟨members.1, fun {v w} hmem => ?_⟩
            obtain ⟨mem, mem'⟩ := List.of_mem_zip hmem
            exact ih v mem (hv v mem) (hw w mem') (members.2 hmem)
          rw [List.forall₂_eq_eq_eq] at same
          rw [same]
      | _ => simp [writtenAlike] at h

/-- The text of plain data stands for that data alone: nothing else without floats, and without
quotes in its strings, is written in the same way. Commas, brackets and blanks in strings do no
harm. -/
theorem plain_text_identifies_value (v w : Value) (hv : v.floatless = true)
    (hw : w.floatless = true) (unquoted : v.unquoted = true) (unquoted' : w.unquoted = true)
    (same : v.text = w.text) : v = w :=
  eq_of_writtenAlike hv hw ((text_eq_iff_of_legible (.inl ⟨unquoted, unquoted'⟩)).mp same)

-- A quote inside a string reads as its end, so the premises on strings cannot go.
example : (list [string "a\", \"b"]).text = (list [string "a", string "b"]).text := by
  decide +kernel

/-- A list with a count in it, and strings that look like parts of lists. -/
def sampleListing (count : Nat) : Value :=
  .list [.string "a, [b]", .list [], .list [.string "], ", .null], .bool true, ofNat count]

/-- A count beyond the signed range has wrapped around, as its text shows. -/
theorem plain_text_identifies_value_of_sampleListing :
    let listing := sampleListing (2 ^ 64 - 7)
    let text := "[\"a, [b]\", [], [\"], \", null], true, -7]"
    listing.floatless = true ∧ listing.unquoted = true ∧ listing.text = text ∧
      listing = sampleListing (2 ^ 65 - 7) ∧
      ∀ v : Value, v.floatless = true → v.unquoted = true → v.text = text → v = listing := by
  intro listing text
  have floatless : listing.floatless = true := by decide +kernel
  have unquoted : listing.unquoted = true := by decide +kernel
  have written : listing.text = text := by decide +kernel
  refine ⟨floatless, unquoted, written, ?_, fun v hv hunquoted same => ?_⟩
  · exact plain_text_identifies_value _ _ floatless (by decide +kernel) unquoted
      (by decide +kernel) (by decide +kernel)
  · exact plain_text_identifies_value v _ hv floatless hunquoted unquoted
      (same.trans written.symm)

end Value

end DeclTree
