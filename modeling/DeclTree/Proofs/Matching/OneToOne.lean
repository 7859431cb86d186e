import DeclTree.Proofs.Matching
import Mathlib.Data.Fintype.EquivFin
import Mathlib.Data.List.FinRange
import Mathlib.Data.List.Perm.Basic

/-!
# One-to-one pairings

A pairing of two lists is a bijection of their positions under which all entries pass a test with
their partners. This is what the greedy pairing looks for, and up to an equivalence it finds one
whenever there is one: if an entry takes the partner that a later one was meant for, the partner it
leaves behind is of the same class and serves the later one as well.

Coverage asks for less, since one entry may serve several. Where one of the lists has no two entries
of a class, an entry of the other serves one of them only, and as the lists are of one length all
entries are needed. So coverage and pairing differ only where both lists repeat themselves.
-/

namespace DeclTree.Matching

variable {α β : Type}

/-- The entries of the two lists can be paired, each with a partner of its own. -/
def OneToOne (test : α → β → Bool) (left : List α) (right : List β) : Prop :=
  ∃ σ : Fin left.length ≃ Fin right.length, ∀ i, test (left.get i) (right.get (σ i)) = true

/-- No two entries pass the test. -/
def Distinct (test : α → α → Bool) (items : List α) : Prop :=
  items.Pairwise fun a b => test a b = false

instance (test : α → α → Bool) (items : List α) : Decidable (Distinct test items) :=
  inferInstanceAs (Decidable (items.Pairwise fun a b => test a b = false))

/-- A test that lets more pass keeps the pairings. -/
theorem OneToOne.imp {test other : α → β → Bool} {left : List α} {right : List β}
    (h : OneToOne test left right)
    (weaker : ∀ a ∈ left, ∀ b ∈ right, test a b = true → other a b = true) :
    OneToOne other left right := by
  obtain ⟨σ, passes⟩ := h
  exact ⟨σ, fun i => weaker _ (left.get_mem i) _ (right.get_mem (σ i)) (passes i)⟩

/-- The partners, read in the order of the left list, are the right list in another order. -/
theorem oneToOne_iff_exists_perm {test : α → β → Bool} {left : List α} {right : List β} :
    OneToOne test left right ↔
      ∃ partners, List.Forall₂ (fun a b => test a b = true) left partners ∧
        partners.Perm right := by
  constructor
  · rintro ⟨σ, passes⟩
    refine ⟨(List.finRange left.length).map fun i => right.get (σ i), ?_, ?_⟩
    · have pairs : List.Forall₂ (fun a b => test a b = true)
          ((List.finRange left.length).map left.get)
          ((List.finRange left.length).map fun i => right.get (σ i)) := by
        rw [List.forall₂_map_left_iff, List.forall₂_map_right_iff, List.forall₂_same]
        intro i _
        exact passes i
      rwa [List.map_get_finRange] at pairs
    · have positions : ((List.finRange left.length).map σ).Perm (List.finRange right.length) := by
        rw [List.perm_ext_iff_of_nodup ((List.nodup_finRange _).map σ.injective)
          (List.nodup_finRange _)]
        intro j
        simp only [List.mem_map, List.mem_finRange, true_and, iff_true]
        exact σ.surjective j
      have entries := positions.map right.get
      rwa [List.map_map, List.map_get_finRange] at entries
  · rintro ⟨partners, pairs, perm⟩
    classical
    let move := Equiv.ofBijective perm.idxBij ⟨perm.idxBij_injective, perm.idxBij_surjective⟩
    refine ⟨(finCongr pairs.length_eq).trans move, fun i => ?_⟩
    have moved := perm.getElem_idxBij_eq_getElem (finCongr pairs.length_eq i)
    have pair := pairs.get i.isLt (finCongr pairs.length_eq i).isLt
    rw [List.get_eq_getElem, List.get_eq_getElem] at pair
    rw [List.get_eq_getElem, List.get_eq_getElem]
    exact (congrArg _ moved).trans pair

theorem oneToOne_of_unordered {test : α → β → Bool} {left : List α} {right : List β}
    (h : unordered test left right = true) : OneToOne test left right :=
  oneToOne_iff_exists_perm.mpr (exists_perm_of_unordered h)

section Laws

variable {D : α → Prop} {test : α → α → Bool} (h : EquivalenceOn D test)

include h

theorem Distinct.eq_of_test {items : List α} (hitems : Within D items)
    (distinct : Distinct test items) {i j : Fin items.length}
    (alike : test (items.get i) (items.get j) = true) : i = j := by
  rw [Distinct, List.pairwise_iff_get] at distinct
  rcases lt_trichotomy i j with lt | same | gt
  · rw [distinct i j lt] at alike
    contradiction
  · exact same
  · have back := h.symm (hitems _ (items.get_mem i)) (hitems _ (items.get_mem j)) alike
    rw [distinct j i gt] at back
    contradiction

variable {left right : List α} (hleft : Within D left) (hright : Within D right)

include hleft hright

theorem OneToOne.symm (paired : OneToOne test left right) : OneToOne test right left := by
  obtain ⟨σ, passes⟩ := paired
  refine ⟨σ.symm, fun j => ?_⟩
  have pair := passes (σ.symm j)
  rw [σ.apply_symm_apply] at pair
  exact h.symm (hleft _ (left.get_mem _)) (hright _ (right.get_mem j)) pair

/-! ## Greedy pairing -/

/-- The greedy pairing succeeds whenever the lists can be paired. -/
theorem unordered_iff_oneToOne : unordered test left right = true ↔ OneToOne test left right := by
  refine ⟨oneToOne_of_unordered, fun paired => ?_⟩
  obtain ⟨partners, pairs, perm⟩ := oneToOne_iff_exists_perm.mp paired
  have hpartners : Within D partners := fun a ha => hright a (perm.mem_iff.mp ha)
  exact (unordered_equivalenceOn h).trans hleft hpartners hright
    (unordered_of_forall₂ h hleft hpartners pairs) (unordered_of_perm h hpartners perm)

/-- Pairing looks at classes only, so neither order matters. -/
theorem unordered_congr_perm {left' right' : List α} (permLeft : left'.Perm left)
    (permRight : right'.Perm right) :
    unordered test left' right' = unordered test left right := by
  have hleft' : Within D left' := fun a ha => hleft a (permLeft.mem_iff.mp ha)
  have hright' : Within D right' := fun a ha => hright a (permRight.mem_iff.mp ha)
  rw [Bool.eq_iff_iff, unordered_iff h hleft' hright', unordered_iff h hleft hright]
  refine forall₂_congr fun x _ => ?_
  rw [permLeft.countP_eq, permRight.countP_eq]

/-! ## Coverage -/

theorem coversBoth_of_oneToOne (paired : OneToOne test left right) :
    coversBoth test left right = true := by
  obtain ⟨partners, pairs, perm⟩ := oneToOne_iff_exists_perm.mp paired
  have hpartners : Within D partners := fun a ha => hright a (perm.mem_iff.mp ha)
  exact (coversBoth_equivalenceOn h).trans hleft hpartners hright
    (coversBoth_of_forall₂ h hleft hpartners pairs) (coversBoth_of_perm h hpartners perm)

/-- Entries of which no two are alike have different partners, and there are no more partners than
entries. -/
theorem oneToOne_of_coversBoth (distinct : Distinct test left)
    (covered : coversBoth test left right = true) : OneToOne test left right := by
  simp only [coversBoth, covers, Bool.and_eq_true, beq_iff_eq, List.all_eq_true] at covered
  obtain ⟨⟨length, forth⟩, -⟩ := covered
  have served : ∀ i, ∃ j, test (left.get i) (right.get j) = true := by
    intro i
    obtain ⟨b, hb, pass⟩ := List.any_eq_true.mp (forth _ (left.get_mem i))
    obtain ⟨j, rfl⟩ := List.mem_iff_get.mp hb
    exact ⟨j, pass⟩
  choose partner passes using served
  have injective : Function.Injective partner := by
    intro i j same
    refine distinct.eq_of_test h hleft ?_
    have back := h.symm (hleft _ (left.get_mem j)) (hright _ (right.get_mem _)) (passes j)
    rw [← same] at back
    exact h.trans (hleft _ (left.get_mem i)) (hright _ (right.get_mem _)) (hleft _ (left.get_mem j))
      (passes i) back
  have bijective : Function.Bijective partner := by
    rw [Fintype.bijective_iff_injective_and_card, Fintype.card_fin, Fintype.card_fin]
    exact ⟨injective, length⟩
  exact ⟨Equiv.ofBijective partner bijective, passes⟩

end Laws

/-- How a rule that accepts or refuses two lists stands to their pairings. -/
structure CoverageLaw (same : α → α → Bool) (left right : List α) (accepts : Bool) : Prop where
  /-- Lists that can be paired are accepted. -/
  of_oneToOne : OneToOne same left right → accepts = true
  /-- If one of them has no duplicates, they are accepted for no other reason. -/
  iff_of_distinct : Distinct same left ∨ Distinct same right →
    (accepts = true ↔ OneToOne same left right)
  /-- A class can be met more often on one side than on the other only if both have duplicates. -/
  duplicates : accepts = true → ∀ x ∈ left ++ right,
    left.countP (same x) ≠ right.countP (same x) → ¬ Distinct same left ∧ ¬ Distinct same right

/-- Coverage both ways obeys the law. -/
theorem coverageLaw {D : α → Prop} {test : α → α → Bool} (h : EquivalenceOn D test)
    {left right : List α} (hleft : Within D left) (hright : Within D right) :
    CoverageLaw test left right (coversBoth test left right) := by
  have accepted := coversBoth_of_oneToOne h hleft hright
  have paired : Distinct test left ∨ Distinct test right → coversBoth test left right = true →
      OneToOne test left right := by
    rintro (distinct | distinct) covered
    · exact oneToOne_of_coversBoth h hleft hright distinct covered
    · have back := (coversBoth_equivalenceOn h).symm hleft hright covered
      exact (oneToOne_of_coversBoth h hright hleft distinct back).symm h hright hleft
  refine ⟨accepted, fun distinct => ⟨paired distinct, accepted⟩, fun covered x hx differ => ?_⟩
  -- Paired lists meet every class equally often.
  have unpaired : ¬ OneToOne test left right := by
    intro both
    rw [← unordered_iff_oneToOne h hleft hright, unordered_iff h hleft hright] at both
    refine differ (both x ?_)
    rcases List.mem_append.mp hx with hx | hx
    · exact hleft x hx
    · exact hright x hx
  rw [← not_or]
  exact fun distinct => unpaired (paired distinct covered)

end DeclTree.Matching
