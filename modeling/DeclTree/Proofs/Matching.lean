import DeclTree.Matching
import Mathlib.Data.List.Forall2

/-!
# Matching up to an equivalence

A test on entries is lifted to lists in three ways: by position, by greedy pairing and by mutual
coverage. If the test is an equivalence on the entries in question, each lifting is one on lists
of such entries.

The greedy pairing is the delicate one, since a partner once taken is never given back. It is
described by a count: two lists pair off exactly when they hold equally many entries of every
class. Nothing in the count depends on who was paired with whom, so no other entry can make up for
one that changed its class.
-/

namespace DeclTree.Matching

variable {α β : Type}

/-! ## Equivalences on a domain -/

/-- The test is an equivalence on the entries that satisfy `D`. -/
structure EquivalenceOn (D : α → Prop) (test : α → α → Bool) : Prop where
  refl : ∀ {a}, D a → test a a = true
  symm : ∀ {a b}, D a → D b → test a b = true → test b a = true
  trans : ∀ {a b c}, D a → D b → D c → test a b = true → test b c = true → test a c = true

namespace EquivalenceOn

variable {D : α → Prop} {E : β → Prop} {test other : α → α → Bool}

theorem comm (h : EquivalenceOn D test) {a b : α} (ha : D a) (hb : D b) :
    test a b = test b a := by
  rw [Bool.eq_iff_iff]
  exact ⟨h.symm ha hb, h.symm hb ha⟩

/-- Equivalent entries pass the test with the same entries. -/
theorem congr_right (h : EquivalenceOn D test) {a b b' : α} (ha : D a) (hb : D b) (hb' : D b')
    (same : test b b' = true) : test a b = test a b' := by
  rw [Bool.eq_iff_iff]
  constructor
  · intro hab
    exact h.trans ha hb hb' hab same
  · intro hab
    exact h.trans ha hb' hb hab (h.symm hb hb' same)

theorem congr (h : EquivalenceOn D test) {a a' b b' : α} (ha : D a) (ha' : D a') (hb : D b)
    (hb' : D b') (left : test a a' = true) (right : test b b' = true) :
    test a b = test a' b' := by
  calc
    test a b = test b a := h.comm ha hb
    _ = test b a' := h.congr_right hb ha ha' left
    _ = test a' b := h.comm hb ha'
    _ = test a' b' := h.congr_right ha' hb hb' right

theorem mono {D' : α → Prop} (h : EquivalenceOn D test) (sub : ∀ {a}, D' a → D a) :
    EquivalenceOn D' test where
  refl ha := h.refl (sub ha)
  symm ha hb := h.symm (sub ha) (sub hb)
  trans ha hb hc := h.trans (sub ha) (sub hb) (sub hc)

/-- Tests that agree on the domain are equivalences together. -/
theorem of_eq (h : EquivalenceOn D test) (same : ∀ {a b}, D a → D b → other a b = test a b) :
    EquivalenceOn D other where
  refl ha := by rw [same ha ha]; exact h.refl ha
  symm ha hb hab := by
    rw [same ha hb] at hab
    rw [same hb ha]
    exact h.symm ha hb hab
  trans ha hb hc hab hbc := by
    rw [same ha hb] at hab
    rw [same hb hc] at hbc
    rw [same ha hc]
    exact h.trans ha hb hc hab hbc

theorem comap (h : EquivalenceOn D test) (f : β → α) (maps : ∀ {b}, E b → D (f b)) :
    EquivalenceOn E fun a b => test (f a) (f b) where
  refl ha := h.refl (maps ha)
  symm ha hb := h.symm (maps ha) (maps hb)
  trans ha hb hc := h.trans (maps ha) (maps hb) (maps hc)

/-- A domain that is the range of `f` has the laws that hold for all arguments of `f`. -/
theorem of_range {f : β → α} (h : EquivalenceOn (fun _ => True) fun x y => test (f x) (f y))
    (range : ∀ {a}, D a → ∃ x, f x = a) : EquivalenceOn D test where
  refl ha := by
    obtain ⟨x, rfl⟩ := range ha
    exact h.refl trivial
  symm ha hb := by
    obtain ⟨x, rfl⟩ := range ha
    obtain ⟨y, rfl⟩ := range hb
    exact h.symm trivial trivial
  trans ha hb hc := by
    obtain ⟨x, rfl⟩ := range ha
    obtain ⟨y, rfl⟩ := range hb
    obtain ⟨z, rfl⟩ := range hc
    exact h.trans trivial trivial trivial

theorem and (h : EquivalenceOn D test) (h' : EquivalenceOn D other) :
    EquivalenceOn D fun a b => test a b && other a b where
  refl ha := by simp [h.refl ha, h'.refl ha]
  symm ha hb hab := by
    rw [Bool.and_eq_true] at hab ⊢
    exact ⟨h.symm ha hb hab.1, h'.symm ha hb hab.2⟩
  trans ha hb hc hab hbc := by
    rw [Bool.and_eq_true] at hab hbc ⊢
    exact ⟨h.trans ha hb hc hab.1 hbc.1, h'.trans ha hb hc hab.2 hbc.2⟩

/-- A test that everything passes. -/
theorem always : EquivalenceOn D fun _ _ => true where
  refl _ := rfl
  symm _ _ _ := rfl
  trans _ _ _ _ _ := rfl

/-- Agreement in what `f` reads. -/
theorem kernel [BEq β] [LawfulBEq β] (f : α → β) : EquivalenceOn D fun a b => f a == f b where
  refl _ := by simp
  symm _ _ hab := by
    rw [beq_iff_eq] at hab ⊢
    exact hab.symm
  trans _ _ _ hab hbc := by
    rw [beq_iff_eq] at hab hbc ⊢
    exact hab.trans hbc

theorem all {tests : List β} {test : β → α → α → Bool}
    (h : ∀ t ∈ tests, EquivalenceOn D (test t)) :
    EquivalenceOn D fun a b => tests.all fun t => test t a b where
  refl ha := by
    rw [List.all_eq_true]
    intro t ht
    exact (h t ht).refl ha
  symm ha hb hab := by
    rw [List.all_eq_true] at hab ⊢
    intro t ht
    exact (h t ht).symm ha hb (hab t ht)
  trans ha hb hc hab hbc := by
    rw [List.all_eq_true] at hab hbc ⊢
    intro t ht
    exact (h t ht).trans ha hb hc (hab t ht) (hbc t ht)

end EquivalenceOn

/-! ## Matching without effects -/

/-- Equally many entries, which agree position by position. -/
def ordered (test : α → β → Bool) (left : List α) (right : List β) : Bool :=
  left.length == right.length && (left.zip right).all fun pair => test pair.1 pair.2

/-- The list without its first entry that passes the test, if one does. -/
def removeFirst? (test : β → Bool) : List β → Option (List β)
  | [] => none
  | b :: rest => if test b then some rest else (removeFirst? test rest).map (b :: ·)

/-- Pairs each entry on the left with the first unused entry on the right that passes. -/
def pairOff (test : α → β → Bool) : List α → List β → Bool
  | [], _ => true
  | a :: left, right =>
      match removeFirst? (test a) right with
      | none => false
      | some rest => pairOff test left rest

/-- Equally many entries, paired off greedily. -/
def unordered (test : α → β → Bool) (left : List α) (right : List β) : Bool :=
  left.length == right.length && pairOff test left right

section Pure

variable {m : Type → Type} [Monad m] [LawfulMonad m]

@[simp] theorem both_pure (first second : Bool) :
    both (pure first : m Bool) (pure second) = pure (first && second) := by
  cases first <;> simp [both]

omit [LawfulMonad m] in
@[simp] theorem provided_pure (condition test : Bool) :
    provided condition (pure test : m Bool) = pure (condition && test) := by
  cases condition <;> simp [provided]

theorem coversBothM_pure (test : α → α → Bool) (left right : List α) :
    coversBothM (fun a b => (pure (test a b) : m Bool)) left right =
      pure (coversBoth test left right) := by
  simp [coversBothM, coversM, coversBoth, covers, Bool.and_assoc]

theorem orderedM_pure (test : α → β → Bool) (left : List α) (right : List β) :
    orderedM (fun a b => (pure (test a b) : m Bool)) left right =
      pure (ordered test left right) := by
  simp [orderedM, ordered]

theorem removeFirstM_pure (test : β → Bool) (items : List β) :
    removeFirstM (fun b => (pure (test b) : m Bool)) items = pure (removeFirst? test items) := by
  induction items with
  | nil => rfl
  | cons b items ih =>
      cases h : test b with
      | true => simp [removeFirstM, removeFirst?, h]
      | false => simp [removeFirstM, removeFirst?, h, ih]

theorem pairOffM_pure (test : α → β → Bool) (left : List α) (right : List β) :
    pairOffM (fun a b => (pure (test a b) : m Bool)) left right =
      pure (pairOff test left right) := by
  induction left generalizing right with
  | nil => rfl
  | cons a left ih =>
      simp only [pairOffM, pairOff, removeFirstM_pure, pure_bind]
      cases removeFirst? (test a) right with
      | none => rfl
      | some rest => exact ih rest

theorem unorderedM_pure (test : α → β → Bool) (left : List α) (right : List β) :
    unorderedM (fun a b => (pure (test a b) : m Bool)) left right =
      pure (unordered test left right) := by
  simp [unorderedM, unordered, pairOffM_pure]

end Pure

/-! ## Liftings to lists -/

/-- All entries satisfy `D`. -/
def Within (D : α → Prop) (items : List α) : Prop := ∀ a ∈ items, D a

theorem within_cons {D : α → Prop} {a : α} {items : List α} :
    Within D (a :: items) ↔ D a ∧ Within D items :=
  List.forall_mem_cons

section Liftings

variable {D : α → Prop} {test : α → α → Bool}

theorem ordered_iff (test : α → β → Bool) (left : List α) (right : List β) :
    ordered test left right = true ↔ List.Forall₂ (fun a b => test a b = true) left right := by
  simp only [ordered, Bool.and_eq_true, beq_iff_eq, List.all_eq_true, Prod.forall,
    List.forall₂_iff_zip]

theorem ordered_equivalenceOn (h : EquivalenceOn D test) :
    EquivalenceOn (Within D) (ordered test) where
  refl {items} hitems := by
    rw [ordered_iff, List.forall₂_same]
    intro a ha
    exact h.refl (hitems a ha)
  symm {left right} hleft hright := by
    rw [ordered_iff, ordered_iff]
    intro hab
    induction hab with
    | nil => exact .nil
    | cons head _ ih =>
        rw [within_cons] at hleft hright
        exact .cons (h.symm hleft.1 hright.1 head) (ih hleft.2 hright.2)
  trans {left middle right} hleft hmiddle hright := by
    rw [ordered_iff, ordered_iff, ordered_iff]
    intro hab hbc
    induction hab generalizing right with
    | nil => exact hbc
    | cons head _ ih =>
        obtain ⟨c, rest, hc, hrest, rfl⟩ := List.forall₂_cons_left_iff.mp hbc
        rw [within_cons] at hleft hmiddle hright
        exact .cons (h.trans hleft.1 hmiddle.1 hright.1 head hc)
          (ih hleft.2 hmiddle.2 hright.2 hrest)

/-- Two lists cover each other when they are of one length and meet the same classes. -/
theorem coversBoth_iff (h : EquivalenceOn D test) {left right : List α}
    (hleft : Within D left) (hright : Within D right) :
    coversBoth test left right = true ↔
      left.length = right.length ∧ ∀ x, D x → left.any (test x) = right.any (test x) := by
  simp only [coversBoth, covers, Bool.and_eq_true, beq_iff_eq, List.all_eq_true, and_assoc,
    and_congr_right_iff]
  intro _
  constructor
  · rintro ⟨forth, back⟩ x hx
    rw [Bool.eq_iff_iff, List.any_eq_true, List.any_eq_true]
    constructor
    · rintro ⟨a, ha, hxa⟩
      obtain ⟨b, hb, hab⟩ := List.any_eq_true.mp (forth a ha)
      exact ⟨b, hb, h.trans hx (hleft a ha) (hright b hb) hxa hab⟩
    · rintro ⟨b, hb, hxb⟩
      obtain ⟨a, ha, hba⟩ := List.any_eq_true.mp (back b hb)
      exact ⟨a, ha, h.trans hx (hright b hb) (hleft a ha) hxb hba⟩
  · intro meet
    constructor
    · intro a ha
      rw [← meet a (hleft a ha), List.any_eq_true]
      exact ⟨a, ha, h.refl (hleft a ha)⟩
    · intro b hb
      rw [meet b (hright b hb), List.any_eq_true]
      exact ⟨b, hb, h.refl (hright b hb)⟩

theorem coversBoth_equivalenceOn (h : EquivalenceOn D test) :
    EquivalenceOn (Within D) (coversBoth test) where
  refl hitems := by
    rw [coversBoth_iff h hitems hitems]
    exact ⟨rfl, fun _ _ => rfl⟩
  symm hleft hright := by
    rw [coversBoth_iff h hleft hright, coversBoth_iff h hright hleft]
    rintro ⟨length, meet⟩
    exact ⟨length.symm, fun x hx => (meet x hx).symm⟩
  trans hleft hmiddle hright := by
    rw [coversBoth_iff h hleft hmiddle, coversBoth_iff h hmiddle hright,
      coversBoth_iff h hleft hright]
    rintro ⟨length, meet⟩ ⟨length', meet'⟩
    exact ⟨length.trans length', fun x hx => (meet x hx).trans (meet' x hx)⟩

/-- A removal takes out one entry that passes, or finds that none does. -/
theorem removeFirst?_cases (test : β → Bool) (items : List β) :
    (removeFirst? test items = none ∧ ∀ b ∈ items, test b = false) ∨
      ∃ b rest, removeFirst? test items = some rest ∧ test b = true ∧
        items.Perm (b :: rest) := by
  induction items with
  | nil => exact .inl ⟨rfl, by simp⟩
  | cons c items ih =>
      cases hc : test c with
      | true => exact .inr ⟨c, items, by simp [removeFirst?, hc], hc, .refl _⟩
      | false =>
          rcases ih with ⟨found, absent⟩ | ⟨b, rest, found, hb, perm⟩
          · refine .inl ⟨by simp [removeFirst?, hc, found], ?_⟩
            rw [List.forall_mem_cons]
            exact ⟨hc, absent⟩
          · refine .inr ⟨b, c :: rest, by simp [removeFirst?, hc, found], hb, ?_⟩
            exact (perm.cons c).trans (.swap b c rest)

theorem pairOff_iff (h : EquivalenceOn D test) {left right : List α}
    (hleft : Within D left) (hright : Within D right) :
    left.length = right.length ∧ pairOff test left right = true ↔
      ∀ x, D x → left.countP (test x) = right.countP (test x) := by
  induction left generalizing right with
  | nil =>
      constructor
      · rintro ⟨length, -⟩ x -
        rw [List.eq_nil_of_length_eq_zero length.symm]
      · intro count
        cases right with
        | nil => exact ⟨rfl, rfl⟩
        | cons b right =>
            have hb : D b := hright b List.mem_cons_self
            have := count b hb
            simp [h.refl hb] at this
  | cons a left ih =>
      rw [within_cons] at hleft
      rcases removeFirst?_cases (test a) right with ⟨found, absent⟩ | ⟨b, rest, found, hab, perm⟩
      · constructor
        · rintro ⟨-, paired⟩
          simp [pairOff, found] at paired
        · -- The class of `a` is met on the left and nowhere on the right.
          intro count
          have ha := count a hleft.1
          have empty : right.countP (test a) = 0 := by
            rw [List.countP_eq_zero]
            intro b hb
            simp [absent b hb]
          simp [h.refl hleft.1, empty] at ha
      · have hrest : Within D rest := by
          intro c hc
          exact hright c (perm.mem_iff.mpr (List.mem_cons_of_mem b hc))
        have hb : D b := hright b (perm.mem_iff.mpr List.mem_cons_self)
        have step : pairOff test (a :: left) right = pairOff test left rest := by
          simp [pairOff, found]
        have length : right.length = rest.length + 1 := by simpa using perm.length_eq
        rw [step, length, List.length_cons, Nat.add_right_cancel_iff, ih hleft.2 hrest]
        -- `a` and its partner belong to one class, so taking both away keeps every balance.
        refine forall₂_congr fun x hx => ?_
        have classes : test x a = test x b := h.congr_right hx hleft.1 hb hab
        rw [perm.countP_eq, List.countP_cons, List.countP_cons, classes]
        omega

/-- Lists pair off when they hold equally many entries of every class. -/
theorem unordered_iff (h : EquivalenceOn D test) {left right : List α}
    (hleft : Within D left) (hright : Within D right) :
    unordered test left right = true ↔
      ∀ x, D x → left.countP (test x) = right.countP (test x) := by
  rw [← pairOff_iff h hleft hright]
  simp [unordered]

theorem unordered_equivalenceOn (h : EquivalenceOn D test) :
    EquivalenceOn (Within D) (unordered test) where
  refl hitems := by
    rw [unordered_iff h hitems hitems]
    exact fun _ _ => rfl
  symm hleft hright := by
    rw [unordered_iff h hleft hright, unordered_iff h hright hleft]
    intro count x hx
    exact (count x hx).symm
  trans hleft hmiddle hright := by
    rw [unordered_iff h hleft hmiddle, unordered_iff h hmiddle hright,
      unordered_iff h hleft hright]
    intro count count' x hx
    exact (count x hx).trans (count' x hx)

/-- Lists that agree by position show the same classes, position by position. -/
theorem map_test_eq_of_forall₂ (h : EquivalenceOn D test) {left right : List α}
    (hleft : Within D left) (hright : Within D right)
    (pairs : List.Forall₂ (fun a b => test a b = true) left right) {x : α} (hx : D x) :
    left.map (test x) = right.map (test x) := by
  induction pairs with
  | nil => rfl
  | cons head _ ih =>
      rw [within_cons] at hleft hright
      rw [List.map_cons, List.map_cons, ih hleft.2 hright.2,
        h.congr_right hx hleft.1 hright.1 head]

theorem coversBoth_of_forall₂ (h : EquivalenceOn D test) {left right : List α}
    (hleft : Within D left) (hright : Within D right)
    (pairs : List.Forall₂ (fun a b => test a b = true) left right) :
    coversBoth test left right = true := by
  rw [coversBoth_iff h hleft hright]
  refine ⟨pairs.length_eq, fun x hx => ?_⟩
  have classes := map_test_eq_of_forall₂ h hleft hright pairs hx
  simpa [List.any_map, Function.comp_def] using congrArg (List.any · id) classes

theorem unordered_of_forall₂ (h : EquivalenceOn D test) {left right : List α}
    (hleft : Within D left) (hright : Within D right)
    (pairs : List.Forall₂ (fun a b => test a b = true) left right) :
    unordered test left right = true := by
  rw [unordered_iff h hleft hright]
  intro x hx
  have classes := map_test_eq_of_forall₂ h hleft hright pairs hx
  simpa [List.countP_map, Function.comp_def] using congrArg (List.countP id) classes

theorem coversBoth_of_perm (h : EquivalenceOn D test) {left right : List α}
    (hleft : Within D left) (perm : left.Perm right) : coversBoth test left right = true := by
  have hright : Within D right := fun a ha => hleft a (perm.mem_iff.mpr ha)
  rw [coversBoth_iff h hleft hright]
  exact ⟨perm.length_eq, fun x _ => perm.any_eq⟩

theorem unordered_of_perm (h : EquivalenceOn D test) {left right : List α}
    (hleft : Within D left) (perm : left.Perm right) : unordered test left right = true := by
  have hright : Within D right := fun a ha => hleft a (perm.mem_iff.mpr ha)
  rw [unordered_iff h hleft hright]
  exact fun x _ => perm.countP_eq (test x)

/-! ## One entry changed -/

theorem forall₂_set {R : α → α → Prop} {items : List α} (refl : ∀ a ∈ items, R a a) {index : Nat}
    {old new : α} (hold : items[index]? = some old) (h : R old new) :
    List.Forall₂ R items (items.set index new) := by
  induction items generalizing index with
  | nil => simp at hold
  | cons a items ih =>
      rw [List.forall_mem_cons] at refl
      cases index with
      | zero =>
          obtain rfl : a = old := by simpa using hold
          exact .cons h (List.forall₂_same.mpr refl.2)
      | succ index => exact .cons refl.1 (ih refl.2 (by simpa using hold))

theorem test_of_ordered_set {items : List α} {index : Nat} {old new : α}
    (hold : items[index]? = some old) (h : ordered test items (items.set index new) = true) :
    test old new = true := by
  obtain ⟨bound, rfl⟩ := List.getElem?_eq_some_iff.mp hold
  have pair := ((ordered_iff _ _ _).mp h).get bound (by simpa using bound)
  simpa using pair

/-- No other entry makes up for a changed one: the class of the old entry would be short of one. -/
theorem test_of_unordered_set (h : EquivalenceOn D test) {items : List α} (hitems : Within D items)
    {index : Nat} {old new : α} (hold : items[index]? = some old) (hnew : D new)
    (paired : unordered test items (items.set index new) = true) : test old new = true := by
  have hset : Within D (items.set index new) := by
    intro a ha
    rcases List.mem_or_eq_of_mem_set ha with ha | rfl
    · exact hitems a ha
    · exact hnew
  rw [unordered_iff h hitems hset] at paired
  obtain ⟨bound, rfl⟩ := List.getElem?_eq_some_iff.mp hold
  have hmem := List.getElem_mem bound
  have own := h.refl (hitems _ hmem)
  have count := paired _ (hitems _ hmem)
  have met : 0 < items.countP (test items[index]) := List.countP_pos_iff.mpr ⟨_, hmem, own⟩
  rw [List.countP_set bound, if_pos own] at count
  by_contra differ
  rw [if_neg differ] at count
  omega

/-! ## The pairs behind a pairing -/

theorem exists_perm_of_unordered {test : α → β → Bool} {left : List α} {right : List β}
    (h : unordered test left right = true) :
    ∃ partners, List.Forall₂ (fun a b => test a b = true) left partners ∧ partners.Perm right := by
  rw [unordered, Bool.and_eq_true, beq_iff_eq] at h
  obtain ⟨length, paired⟩ := h
  induction left generalizing right with
  | nil => exact ⟨[], .nil, by rw [List.eq_nil_of_length_eq_zero length.symm]⟩
  | cons a left ih =>
      rcases removeFirst?_cases (test a) right with ⟨found, -⟩ | ⟨b, rest, found, hab, perm⟩
      · simp [pairOff, found] at paired
      · have fewer : left.length = rest.length := by
          have := perm.length_eq
          simp only [List.length_cons] at length this
          omega
        obtain ⟨partners, pairs, same⟩ := ih fewer (by simpa [pairOff, found] using paired)
        exact ⟨b :: partners, .cons hab pairs, (same.cons b).trans perm.symm⟩

end Liftings

end DeclTree.Matching
