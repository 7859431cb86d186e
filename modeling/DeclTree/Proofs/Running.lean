import Mathlib.Data.List.Forall2
import Mathlib.Order.Defs.Unbundled

/-!
# Runs that can be refused

Copying, building and the steps of the workbench all change a state and may be refused on the
way, keeping the state they had reached. `Returns` says how a run ends when it is not refused and
`Refuses` how it ends when it is; both come apart along binds and loops. `Moves` says what holds
between the state before and the state after, refused or not; a relation that is reflexive and
transitive is kept by whole computations if their steps keep it.
-/

namespace DeclTree

variable {ε σ α β : Type}

/-! ## Lists related entry by entry -/

theorem forall₂_imp_of_mem {R S : α → β → Prop} {as : List α} {bs : List β}
    (sub : ∀ a ∈ as, ∀ b ∈ bs, R a b → S a b) (h : List.Forall₂ R as bs) :
    List.Forall₂ S as bs := by
  rw [List.forall₂_iff_zip] at h ⊢
  refine ⟨h.1, fun {a b} hab => ?_⟩
  obtain ⟨ha, hb⟩ := List.of_mem_zip hab
  exact sub a ha b hb (h.2 hab)

theorem map_eq_map_of_forall₂ {γ : Type} {f : α → γ} {g : β → γ} {as : List α} {bs : List β}
    (h : List.Forall₂ (fun a b => f a = g b) as bs) : as.map f = bs.map g := by
  rwa [← List.forall₂_eq_eq_eq, List.forall₂_map_left_iff, List.forall₂_map_right_iff]

theorem exists_of_forall₂ {R : α → β → Prop} {as : List α} {bs : List β}
    (h : List.Forall₂ R as bs) {b : β} (hb : b ∈ bs) : ∃ a ∈ as, R a b := by
  induction h with
  | nil => cases hb
  | cons related _ ih =>
      rcases List.mem_cons.mp hb with rfl | hb
      · exact ⟨_, List.mem_cons_self, related⟩
      · obtain ⟨a, ha, found⟩ := ih hb
        exact ⟨a, List.mem_cons_of_mem _ ha, found⟩

/-! ## Outcomes -/

theorem except_bind_eq_ok {x : Except ε α} {next : α → Except ε β} {b : β} :
    x >>= next = .ok b ↔ ∃ a, x = .ok a ∧ next a = .ok b := by
  cases x <;> simp [bind, Except.bind]

theorem except_bind_eq_error {x : Except ε α} {next : α → Except ε β} {e : ε} :
    x >>= next = .error e ↔ x = .error e ∨ ∃ a, x = .ok a ∧ next a = .error e := by
  cases x <;> simp [bind, Except.bind]

theorem except_map_eq_ok {x : Except ε α} {f : α → β} {b : β} :
    x.map f = .ok b ↔ ∃ a, x = .ok a ∧ f a = b := by
  cases x <;> simp [Except.map]

/-- How the run ends from a state. -/
def outcome (run : ExceptT ε (StateM σ) α) (s : σ) : Except ε α × σ := run.run s

theorem outcome_bind (run : ExceptT ε (StateM σ) α) (next : α → ExceptT ε (StateM σ) β) (s : σ) :
    outcome (run >>= next) s =
      match outcome run s with
      | (.ok a, s') => outcome (next a) s'
      | (.error e, s') => (.error e, s') := by
  change (StateT.bind run.run (ExceptT.bindCont next)) s = _
  rcases h : run.run s with ⟨_ | a, s'⟩ <;> simp only [StateT.bind, outcome, h] <;> rfl

/-! ## Successful runs -/

/-- The run is not refused, has this result and leaves this state. -/
def Returns (run : ExceptT ε (StateM σ) α) (s : σ) (a : α) (s' : σ) : Prop :=
  outcome run s = (.ok a, s')

section Returns

variable {s s' : σ} {a : α} {b : β}

theorem returns_pure {c : α} :
    Returns (pure a : ExceptT ε (StateM σ) α) s c s' ↔ c = a ∧ s' = s := by
  change ((Except.ok a, s) : Except ε α × σ) = (.ok c, s') ↔ _
  simp [eq_comm]

theorem not_returns_throw {e : ε} : ¬ Returns (throw e : ExceptT ε (StateM σ) α) s a s' := by
  intro h
  cases h

theorem returns_lift {run : StateM σ α} :
    Returns (liftM run : ExceptT ε (StateM σ) α) s a s' ↔ run s = (a, s') := by
  change ((Except.ok (run s).1, (run s).2) : Except ε α × σ) = (.ok a, s') ↔ _
  rw [Prod.mk.injEq, Except.ok.injEq, ← Prod.mk.injEq]
  exact Iff.rfl

theorem returns_bind {run : ExceptT ε (StateM σ) α} {next : α → ExceptT ε (StateM σ) β} :
    Returns (run >>= next) s b s' ↔ ∃ a s₁, Returns run s a s₁ ∧ Returns (next a) s₁ b s' := by
  rw [Returns, outcome_bind]
  rcases h : outcome run s with ⟨_ | a, s₁⟩ <;> simp [Returns, h]

theorem returns_map {run : ExceptT ε (StateM σ) α} {f : α → β} :
    Returns (f <$> run) s b s' ↔ ∃ a, Returns run s a s' ∧ b = f a := by
  rw [← bind_pure_comp, returns_bind]
  constructor
  · rintro ⟨a, s₁, first, last⟩
    obtain ⟨rfl, rfl⟩ := returns_pure.mp last
    exact ⟨a, first, rfl⟩
  · rintro ⟨a, first, rfl⟩
    exact ⟨a, s', first, returns_pure.mpr ⟨rfl, rfl⟩⟩

/-- Runs for the entries of a list, one after the other and none refused. -/
inductive Threads (run : α → ExceptT ε (StateM σ) β) : List α → σ → List β → σ → Prop where
  | nil (s : σ) : Threads run [] s [] s
  | cons {a : α} {as : List α} {b : β} {bs : List β} {s s₁ s' : σ} (first : Returns (run a) s b s₁)
      (rest : Threads run as s₁ bs s') : Threads run (a :: as) s (b :: bs) s'

theorem returns_mapM {run : α → ExceptT ε (StateM σ) β} {as : List α} {bs : List β} :
    Returns (as.mapM run) s bs s' ↔ Threads run as s bs s' := by
  induction as generalizing s s' bs with
  | nil =>
      rw [List.mapM_nil, returns_pure]
      constructor
      · rintro ⟨rfl, rfl⟩
        exact .nil _
      · rintro ⟨⟩
        exact ⟨rfl, rfl⟩
  | cons a as ih =>
      simp only [List.mapM_cons, returns_bind, returns_pure, ih]
      constructor
      · rintro ⟨b, s₁, first, bs, s₂, rest, rfl, rfl⟩
        exact .cons first rest
      · rintro ⟨⟩
        next b bs s₁ first rest => exact ⟨b, s₁, first, bs, s', rest, rfl, rfl⟩

namespace Threads

variable {run : α → ExceptT ε (StateM σ) β} {as : List α} {bs : List β}

theorem length_eq (h : Threads run as s bs s') : bs.length = as.length := by
  induction h with
  | nil => rfl
  | cons _ _ ih => simp [ih]

theorem forall₂ (h : Threads run as s bs s') :
    List.Forall₂ (fun a b => ∃ s s', Returns (run a) s b s') as bs := by
  induction h with
  | nil => exact .nil
  | cons first _ ih => exact .cons ⟨_, _, first⟩ ih

theorem append {as' : List α} {bs' : List β} {s₁ : σ} (h : Threads run as s bs s₁)
    (h' : Threads run as' s₁ bs' s') : Threads run (as ++ as') s (bs ++ bs') s' := by
  induction h with
  | nil => exact h'
  | cons first _ ih => exact .cons first (ih h')

/-- Results that are changed on the way out. -/
theorem map_iff {γ : Type} {f : β → γ} {cs : List γ} :
    Threads (fun a => f <$> run a) as s cs s' ↔ ∃ bs, Threads run as s bs s' ∧ cs = bs.map f := by
  constructor
  · intro h
    induction h with
    | nil => exact ⟨[], .nil _, rfl⟩
    | cons first _ ih =>
        obtain ⟨b, returned, rfl⟩ := returns_map.mp first
        obtain ⟨bs, rest, rfl⟩ := ih
        exact ⟨b :: bs, .cons returned rest, rfl⟩
  · rintro ⟨bs, h, rfl⟩
    induction h with
    | nil => exact .nil _
    | cons first _ ih => exact .cons (returns_map.mpr ⟨_, first, rfl⟩) ih

end Threads

/-- Every result that the run returns has the property. -/
def Yields (run : ExceptT ε (StateM σ) α) (P : α → Prop) : Prop :=
  ∀ s a s', Returns run s a s' → P a

theorem yields_pure {P : α → Prop} (h : P a) : Yields (pure a : ExceptT ε (StateM σ) α) P := by
  intro s c s' returned
  rw [(returns_pure.mp returned).1]
  exact h

/-- The last computation decides. -/
theorem yields_bind {P : β → Prop} {run : ExceptT ε (StateM σ) α}
    {next : α → ExceptT ε (StateM σ) β} (h : ∀ a, Yields (next a) P) : Yields (run >>= next) P := by
  intro s b s' returned
  obtain ⟨a, s₁, -, last⟩ := returns_bind.mp returned
  exact h a s₁ b s' last

theorem yields_mapM {P : β → Prop} {run : α → ExceptT ε (StateM σ) β} {as : List α}
    (h : ∀ a ∈ as, Yields (run a) P) : Yields (as.mapM run) fun bs => ∀ b ∈ bs, P b := by
  intro s bs s' returned b hb
  obtain ⟨a, ha, s₁, s₂, one⟩ := exists_of_forall₂ (returns_mapM.mp returned).forall₂ hb
  exact h a ha s₁ b s₂ one

end Returns

/-! ## Refused runs -/

/-- The run is refused with this error and leaves this state. -/
def Refuses (run : ExceptT ε (StateM σ) α) (s : σ) (e : ε) (s' : σ) : Prop :=
  outcome run s = (.error e, s')

section Refuses

variable {s s' : σ} {e : ε}

theorem not_refuses_pure {a : α} : ¬ Refuses (pure a : ExceptT ε (StateM σ) α) s e s' := by
  intro h
  cases h

theorem not_refuses_lift {run : StateM σ α} :
    ¬ Refuses (liftM run : ExceptT ε (StateM σ) α) s e s' := by
  intro h
  cases h

theorem refuses_throw {thrown : ε} :
    Refuses (throw thrown : ExceptT ε (StateM σ) α) s e s' ↔ e = thrown ∧ s' = s := by
  change ((Except.error thrown, s) : Except ε α × σ) = (.error e, s') ↔ _
  simp [eq_comm]

theorem refuses_bind {run : ExceptT ε (StateM σ) α} {next : α → ExceptT ε (StateM σ) β} :
    Refuses (run >>= next) s e s' ↔
      Refuses run s e s' ∨ ∃ a s₁, Returns run s a s₁ ∧ Refuses (next a) s₁ e s' := by
  rw [Refuses, outcome_bind]
  rcases h : outcome run s with ⟨_ | a, s₁⟩ <;> simp [Refuses, Returns, h]

theorem refuses_map {run : ExceptT ε (StateM σ) α} {f : α → β} :
    Refuses (f <$> run) s e s' ↔ Refuses run s e s' := by
  rw [← bind_pure_comp, refuses_bind]
  constructor
  · intro h
    cases h with
    | inl first => exact first
    | inr last =>
        obtain ⟨_, _, -, refused⟩ := last
        exact absurd refused not_refuses_pure
  · exact Or.inl

/-- Runs for the entries of a list, one after the other until one is refused. -/
inductive Halts (run : α → ExceptT ε (StateM σ) β) : List α → σ → ε → σ → Prop where
  | here {a : α} {as : List α} {s s' : σ} {e : ε} (refused : Refuses (run a) s e s') :
      Halts run (a :: as) s e s'
  | later {a : α} {as : List α} {b : β} {s s₁ s' : σ} {e : ε} (first : Returns (run a) s b s₁)
      (rest : Halts run as s₁ e s') : Halts run (a :: as) s e s'

theorem refuses_mapM {run : α → ExceptT ε (StateM σ) β} {as : List α} :
    Refuses (as.mapM run) s e s' ↔ Halts run as s e s' := by
  induction as generalizing s with
  | nil =>
      constructor
      · intro h
        exact absurd h not_refuses_pure
      · intro h
        cases h
  | cons a as ih =>
      simp only [List.mapM_cons, refuses_bind, not_refuses_pure, and_false, exists_false, or_false,
        ih]
      constructor
      · intro h
        cases h with
        | inl refused => exact .here refused
        | inr halted =>
            obtain ⟨b, s₁, first, rest⟩ := halted
            exact .later first rest
      · intro h
        cases h with
        | here refused => exact .inl refused
        | later first rest => exact .inr ⟨_, _, first, rest⟩

namespace Halts

variable {run : α → ExceptT ε (StateM σ) β} {as as' : List α}

theorem append_left (h : Halts run as s e s') : Halts run (as ++ as') s e s' := by
  induction h with
  | here refused => exact .here refused
  | later first _ ih => exact .later first ih

theorem append_right {bs : List β} {s₁ : σ} (h : Threads run as s bs s₁)
    (h' : Halts run as' s₁ e s') : Halts run (as ++ as') s e s' := by
  induction h with
  | nil => exact h'
  | cons first _ ih => exact .later first (ih h')

/-- Results that are changed on the way out. -/
theorem of_map {γ : Type} {f : β → γ} (h : Halts (fun a => f <$> run a) as s e s') :
    Halts run as s e s' := by
  induction h with
  | here refused => exact .here (refuses_map.mp refused)
  | later first _ ih =>
      obtain ⟨b, returned, -⟩ := returns_map.mp first
      exact .later returned ih

end Halts

end Refuses

/-! ## Movements of the state -/

/-- Refused or not, the run ends in a state related to the one it began in. -/
def Moves (R : σ → σ → Prop) (run : ExceptT ε (StateM σ) α) : Prop :=
  ∀ s, R s (outcome run s).2

theorem Moves.mono {R S : σ → σ → Prop} {run : ExceptT ε (StateM σ) α} (h : Moves R run)
    (sub : ∀ {s s'}, R s s' → S s s') : Moves S run :=
  fun s => sub (h s)

section Moves

variable {R : σ → σ → Prop} [Std.Refl R] [IsTrans σ R]

omit [IsTrans σ R] in
theorem moves_pure (a : α) : Moves R (pure a : ExceptT ε (StateM σ) α) :=
  fun s => Std.Refl.refl s

omit [IsTrans σ R] in
theorem moves_throw (e : ε) : Moves R (throw e : ExceptT ε (StateM σ) α) :=
  fun s => Std.Refl.refl s

omit [Std.Refl R] in
theorem moves_bind {run : ExceptT ε (StateM σ) α} {next : α → ExceptT ε (StateM σ) β}
    (first : Moves R run) (rest : ∀ a, Moves R (next a)) : Moves R (run >>= next) := by
  intro s
  have moved := first s
  rw [outcome_bind]
  rcases h : outcome run s with ⟨_ | a, s₁⟩
  · rwa [h] at moved
  · rw [h] at moved
    exact IsTrans.trans _ _ _ moved (rest a s₁)

theorem moves_map {run : ExceptT ε (StateM σ) α} (f : α → β) (h : Moves R run) :
    Moves R (f <$> run) := by
  rw [← bind_pure_comp]
  exact moves_bind h fun a => moves_pure _

theorem moves_mapM {run : α → ExceptT ε (StateM σ) β} {as : List α}
    (h : ∀ a ∈ as, Moves R (run a)) : Moves R (as.mapM run) := by
  induction as with
  | nil => exact moves_pure []
  | cons a as ih =>
      rw [List.mapM_cons]
      refine moves_bind (h a (by simp)) fun b => ?_
      refine moves_bind (ih fun a ha => h a (by simp [ha])) fun bs => ?_
      exact moves_pure _

end Moves

end DeclTree
