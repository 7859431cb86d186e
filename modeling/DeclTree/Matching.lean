/-!
# Matching two lists

Three ways to ask whether two lists agree up to a test on their entries: by position, by a
pairing in any order, and by mutual coverage. The test may have effects, which run in a fixed
order and only as far as the answer needs them.
-/

namespace DeclTree.Matching

variable {α β : Type}

/-- Every entry of `source` has a partner in `target`. -/
def covers (test : α → α → Bool) (source target : List α) : Bool :=
  source.all fun a => target.any fun b => test a b

/-- Equally many entries, and each side covers the other. One entry may serve several. -/
def coversBoth (test : α → α → Bool) (left right : List α) : Bool :=
  left.length == right.length && covers test left right && covers test right left

section Effects

variable {m : Type → Type} [Monad m]

/-- Runs the second test only if the first one holds. -/
def both (first second : m Bool) : m Bool := do
  if ← first then second else pure false

/-- Runs the test only if the condition holds. -/
def provided (condition : Bool) (test : m Bool) : m Bool :=
  if condition then test else pure false

def coversM (test : α → α → m Bool) (source target : List α) : m Bool :=
  source.allM fun a => target.anyM fun b => test a b

def coversBothM (test : α → α → m Bool) (left right : List α) : m Bool :=
  provided (left.length == right.length) <|
    both (coversM test left right) (coversM test right left)

/-- Equally many entries, which agree position by position. -/
def orderedM (test : α → β → m Bool) (left : List α) (right : List β) : m Bool :=
  provided (left.length == right.length) <|
    (left.zip right).allM fun pair => test pair.1 pair.2

/-- The list without its first entry that passes the test, if one does. -/
def removeFirstM (test : β → m Bool) : List β → m (Option (List β))
  | [] => pure none
  | b :: rest => do
      if ← test b then pure (some rest)
      else return (← removeFirstM test rest).map (b :: ·)

/-- Pairs each entry on the left with the first unused entry on the right that passes. -/
def pairOffM (test : α → β → m Bool) : List α → List β → m Bool
  | [], _ => pure true
  | a :: left, right => do
      match ← removeFirstM (test a) right with
      | none => pure false
      | some rest => pairOffM test left rest

/-- Equally many entries, paired off greedily. -/
def unorderedM (test : α → β → m Bool) (left : List α) (right : List β) : m Bool :=
  provided (left.length == right.length) (pairOffM test left right)

/-! ## What a match depends on

A match runs its test on entries of the two lists and on nothing else.
-/

theorem allM_congr {f g : α → m Bool} {items : List α} (h : ∀ a ∈ items, f a = g a) :
    items.allM f = items.allM g := by
  induction items with
  | nil => rfl
  | cons a items ih =>
      simp only [List.allM, h a List.mem_cons_self]
      rw [ih fun b hb => h b (List.mem_cons_of_mem a hb)]

theorem anyM_congr {f g : α → m Bool} {items : List α} (h : ∀ a ∈ items, f a = g a) :
    items.anyM f = items.anyM g := by
  induction items with
  | nil => rfl
  | cons a items ih =>
      simp only [List.anyM, h a List.mem_cons_self]
      rw [ih fun b hb => h b (List.mem_cons_of_mem a hb)]

theorem coversM_congr {f g : α → α → m Bool} {source target : List α}
    (h : ∀ a ∈ source, ∀ b ∈ target, f a b = g a b) :
    coversM f source target = coversM g source target :=
  allM_congr fun a ha => anyM_congr fun b hb => h a ha b hb

theorem coversBothM_congr {f g : α → α → m Bool} {left right : List α}
    (forth : ∀ a ∈ left, ∀ b ∈ right, f a b = g a b)
    (back : ∀ b ∈ right, ∀ a ∈ left, f b a = g b a) :
    coversBothM f left right = coversBothM g left right := by
  simp only [coversBothM, coversM_congr forth, coversM_congr back]

theorem orderedM_congr {f g : α → β → m Bool} {left : List α} {right : List β}
    (h : ∀ a ∈ left, ∀ b ∈ right, f a b = g a b) :
    orderedM f left right = orderedM g left right := by
  simp only [orderedM]
  rw [allM_congr fun pair hpair =>
    h pair.1 (List.of_mem_zip hpair).1 pair.2 (List.of_mem_zip hpair).2]

theorem removeFirstM_congr {f g : β → m Bool} {items : List β} (h : ∀ b ∈ items, f b = g b) :
    removeFirstM f items = removeFirstM g items := by
  induction items with
  | nil => rfl
  | cons b items ih =>
      simp only [removeFirstM, h b List.mem_cons_self]
      rw [ih fun c hc => h c (List.mem_cons_of_mem b hc)]

/-- What is left after a removal was there before. -/
theorem removeFirstM_subset [LawfulMonad m] (test : β → m Bool) (items : List β) :
    ∃ run : m (Option { rest : List β // rest ⊆ items }),
      removeFirstM test items = Option.map Subtype.val <$> run := by
  induction items with
  | nil => exact ⟨pure none, by simp [removeFirstM]⟩
  | cons b items ih =>
      obtain ⟨run, hrun⟩ := ih
      refine ⟨do
        if ← test b then pure (some ⟨items, List.subset_cons_self b items⟩)
        else Option.map (fun rest => ⟨b :: rest.1, List.cons_subset_cons b rest.2⟩) <$> run, ?_⟩
      simp only [removeFirstM, hrun, map_bind]
      refine bind_congr fun passed => ?_
      cases passed with
      | true => simp
      | false => simp [Function.comp_def]

theorem pairOffM_congr [LawfulMonad m] {f g : α → β → m Bool} {left : List α} {right : List β}
    (h : ∀ a ∈ left, ∀ b ∈ right, f a b = g a b) :
    pairOffM f left right = pairOffM g left right := by
  induction left generalizing right with
  | nil => rfl
  | cons a left ih =>
      obtain ⟨run, hrun⟩ := removeFirstM_subset (g a) right
      simp only [pairOffM, removeFirstM_congr (h a List.mem_cons_self), hrun, bind_map_left]
      refine bind_congr fun rest => ?_
      cases rest with
      | none => rfl
      | some rest =>
          exact ih fun c hc b hb => h c (List.mem_cons_of_mem a hc) b (rest.2 hb)

theorem unorderedM_congr [LawfulMonad m] {f g : α → β → m Bool} {left : List α} {right : List β}
    (h : ∀ a ∈ left, ∀ b ∈ right, f a b = g a b) :
    unorderedM f left right = unorderedM g left right := by
  simp only [unorderedM, pairOffM_congr h]

end Effects

end DeclTree.Matching
