import DeclTree.Proofs.Running
import DeclTree.Resolver
import Mathlib.Data.List.Nodup

/-!
# What a handle source hands out

A source is called again and again: for handles with or without a symbol, to skip lines, and to look
symbols up. Its two counters and its registry advance apart from each other. What ties them together
is that all identities registered are below the counter of identities, and that the texts of all
handles end before the line that comes next. So a new handle neither takes the place of an earlier
one nor changes what its registry answers for it.
-/

namespace DeclTree

namespace HandleSource

/-! ## Calls -/

inductive Call where
  | unbound (kind : String)
  | bound (kind : String) (symbol : Symbol)
  | skipLines (count : Nat)
  /-- The symbol of a handle is looked up. -/
  | lookup (handle : Handle)

/-- The kind and the symbol of the handle that is called for, if one is. -/
def Call.request? : Call → Option (String × Option Symbol)
  | .unbound kind => some (kind, none)
  | .bound kind symbol => some (kind, some symbol)
  | .skipLines _ | .lookup _ => none

/-- What the registry answers for a handle. -/
def answer (source : HandleSource) (handle : Handle) : Option Symbol :=
  (source.registry.lookup handle).1

/-- One call, with the handle that it gives out. -/
def call (source : HandleSource) : Call → Option Handle × HandleSource
  | .unbound kind => (source.unbound kind).map some id
  | .bound kind symbol => (source.bound kind symbol).map some id
  | .skipLines count => (none, source.skipLines count)
  | .lookup handle => (none, { source with registry := (source.registry.lookup handle).2 })

/-- All calls in order, with the handles that they give out. -/
def run (source : HandleSource) : List Call → List Handle × HandleSource
  | [] => ([], source)
  | call :: calls =>
      let (handle?, source) := source.call call
      let (handles, source) := source.run calls
      (handle?.toList ++ handles, source)

/-! ## What holds between calls -/

/-- The second handle stands on a later line, and its text begins after that of the first. -/
def Precedes (handle handle' : Handle) : Prop :=
  ∃ span ∈ handle.span?, ∃ span' ∈ handle'.span?,
    span.line < span'.line ∧ span.start < span.stop ∧ span.stop < span'.start

/-- The text of the handle ends before the next line. -/
def Passed (source : HandleSource) (handle : Handle) : Prop :=
  ∃ span ∈ handle.span?,
    span.line < source.line ∧ span.start < span.stop ∧ span.stop < source.line * 100

/-- The source has given out these handles for these requests. -/
structure Issued (requests : List (String × Option Symbol)) (handles : List Handle)
    (source : HandleSource) : Prop where
  next : source.nextId = handles.length + 1
  ids : handles.map Handle.id = (List.range' 1 handles.length).map SyntaxId.mk
  passed : ∀ handle ∈ handles, source.Passed handle
  ordered : handles.Pairwise Precedes
  answers : List.Forall₂ (fun request handle =>
    handle.kind = request.1 ∧ source.answer handle = request.2) requests handles
  /-- All identities in the registry have been given out. -/
  registered : ∀ id symbol, source.registry.symbols.get? id = some symbol →
    0 < id.number ∧ id.number < source.nextId

namespace Issued

variable {requests : List (String × Option Symbol)} {handles : List Handle} {source : HandleSource}

theorem start : Issued [] [] {} where
  next := rfl
  ids := rfl
  passed _ hhandle := by cases hhandle
  ordered := .nil
  answers := .nil
  registered _ _ found := by cases found

theorem id_mem (h : Issued requests handles source) {handle : Handle} (hhandle : handle ∈ handles) :
    0 < handle.id.number ∧ handle.id.number < source.nextId := by
  have hid : handle.id ∈ (List.range' 1 handles.length).map SyntaxId.mk :=
    h.ids ▸ List.mem_map_of_mem hhandle
  obtain ⟨number, hnumber, same⟩ := List.mem_map.mp hid
  have bounds := List.mem_range'_1.mp hnumber
  rw [← same, h.next, Nat.add_comm]
  exact bounds

/-- What has not been given out is not registered. -/
theorem unregistered (h : Issued requests handles source) {id : SyntaxId}
    (unused : id.number = 0 ∨ source.nextId ≤ id.number) :
    source.registry.symbols.get? id = none := by
  cases found : source.registry.symbols.get? id with
  | none => rfl
  | some symbol =>
      have bounds := h.registered id symbol found
      omega

/-- Lines are skipped or symbols looked up. -/
theorem advance (h : Issued requests handles source) {source' : HandleSource}
    (next : source'.nextId = source.nextId) (line : source.line ≤ source'.line)
    (symbols : source'.registry.symbols = source.registry.symbols) :
    Issued requests handles source' where
  next := next.trans h.next
  ids := h.ids
  passed handle hhandle := by
    obtain ⟨span, hspan, before, nonempty, ends⟩ := h.passed handle hhandle
    exact ⟨span, hspan, by omega, nonempty, by omega⟩
  ordered := h.ordered
  answers := h.answers.imp fun request handle answered => by
    unfold answer Registry.lookup at answered ⊢
    rwa [symbols]
  registered id symbol found := by
    rw [symbols] at found
    rw [next]
    exact h.registered id symbol found

/-- A handle is given out, and what is registered now besides is its symbol. -/
theorem issue (h : Issued requests handles source) {kind : String} {symbol? : Option Symbol}
    {source' : HandleSource} (next : source'.nextId = source.nextId + 1)
    (line : source'.line = source.line + 1)
    (new : source'.registry.symbols.get? ⟨source.nextId⟩ = symbol?)
    (old : ∀ id, id ≠ ⟨source.nextId⟩ →
      source'.registry.symbols.get? id = source.registry.symbols.get? id) :
    Issued (requests ++ [(kind, symbol?)]) (handles ++ [(source.unbound kind).1]) source' where
  next := by
    rw [next, h.next, List.length_append]
    rfl
  ids := by
    rw [List.map_append, h.ids, List.length_append, List.length_singleton, List.range'_concat,
      List.map_append]
    simp [unbound, Handle.parsed, h.next, Nat.add_comm]
  passed handle hhandle := by
    rcases List.mem_append.mp hhandle with hhandle | hhandle
    · obtain ⟨span, hspan, before, nonempty, ends⟩ := h.passed handle hhandle
      exact ⟨span, hspan, by omega, nonempty, by omega⟩
    · rw [List.mem_singleton.mp hhandle]
      refine ⟨_, rfl, ?_, ?_, ?_⟩ <;> simp only [line] <;> omega
  ordered := by
    refine List.pairwise_append.mpr ⟨h.ordered, List.pairwise_singleton _ _, ?_⟩
    intro handle hhandle new hnew
    obtain ⟨span, hspan, before, nonempty, ends⟩ := h.passed handle hhandle
    rw [List.mem_singleton.mp hnew]
    exact ⟨span, hspan, _, rfl, before, nonempty, ends⟩
  answers := by
    refine List.rel_append (forall₂_imp_of_mem ?_ h.answers) (.cons ⟨rfl, new⟩ .nil)
    intro request _ handle hhandle answered
    -- An earlier handle has another identity, so its answer stays.
    have other : handle.id ≠ ⟨source.nextId⟩ := fun same => by
      have bounds := h.id_mem hhandle
      rw [same] at bounds
      exact absurd bounds.2 (Nat.lt_irrefl _)
    exact ⟨answered.1, (old handle.id other).trans answered.2⟩
  registered id symbol found := by
    rw [next]
    by_cases same : id = ⟨source.nextId⟩
    · rw [same, h.next]
      exact ⟨Nat.succ_pos _, Nat.lt_succ_self _⟩
    · rw [old id same] at found
      have bounds := h.registered id symbol found
      omega

theorem call (h : Issued requests handles source) (call : Call) :
    Issued (requests ++ call.request?.toList) (handles ++ (source.call call).1.toList)
      (source.call call).2 := by
  cases call with
  | unbound kind =>
      exact h.issue rfl rfl (h.unregistered (.inr (Nat.le_refl _))) fun _ _ => rfl
  | bound kind symbol =>
      exact h.issue rfl rfl (Table.get?_insert_self _ _ _) fun _ other =>
        Table.get?_insert_ne _ other _
  | skipLines count =>
      simp only [Call.request?, HandleSource.call, Option.toList_none, List.append_nil]
      exact h.advance rfl (Nat.le_add_right _ _) rfl
  | lookup handle =>
      simp only [Call.request?, HandleSource.call, Option.toList_none, List.append_nil]
      exact h.advance rfl (Nat.le_refl _) rfl

theorem run (h : Issued requests handles source) (calls : List Call) :
    Issued (requests ++ calls.filterMap Call.request?) (handles ++ (source.run calls).1)
      (source.run calls).2 := by
  induction calls generalizing requests handles source with
  | nil => simpa [HandleSource.run] using h
  | cons call calls ih =>
      have asked : (call :: calls).filterMap Call.request? =
          call.request?.toList ++ calls.filterMap Call.request? := by
        cases request : call.request? <;> simp [request]
      have rest := ih (h.call call)
      simp only [List.append_assoc] at rest
      rw [asked]
      exact rest

theorem not_isSynthetic (h : Issued requests handles source) {handle : Handle}
    (hhandle : handle ∈ handles) : handle.isSynthetic = false := by
  obtain ⟨span, hspan, -⟩ := h.passed handle hhandle
  rw [Handle.isSynthetic, hspan]
  rfl

end Issued

theorem run_append (source : HandleSource) (calls later : List Call) :
    source.run (calls ++ later) =
      ((source.run calls).1 ++ ((source.run calls).2.run later).1,
        ((source.run calls).2.run later).2) := by
  induction calls generalizing source with
  | nil => rfl
  | cons call calls ih => simp only [List.cons_append, run, ih, List.append_assoc]

/-- A new source hands out the identities from one on in order, at texts that follow one another.
From then on its registry answers each handle with the symbol that it was made with, if any. -/
theorem source_hands_out_usable_handles (calls later : List Call) :
    let handles := (({} : HandleSource).run calls).1
    let source := (({} : HandleSource).run (calls ++ later)).2
    handles.map Handle.id = (List.range' 1 handles.length).map SyntaxId.mk ∧
    (handles.map Handle.id).Nodup ∧
    (∀ handle ∈ handles, handle.id ≠ .synthetic ∧ handle.isSynthetic = false) ∧
    handles.Pairwise Precedes ∧
    List.Forall₂ (fun request handle =>
        handle.kind = request.1 ∧ source.answer handle = request.2)
      (calls.filterMap Call.request?) handles ∧
    ∀ kind, source.answer (.synthetic kind) = none := by
  intro handles source
  have issued : Issued (calls.filterMap Call.request?) handles (({} : HandleSource).run calls).2 :=
    Issued.start.run calls
  have after := issued.run later
  rw [← congrArg Prod.snd (run_append {} calls later)] at after
  refine ⟨issued.ids, ?_, fun handle hhandle => ⟨?_, issued.not_isSynthetic hhandle⟩,
    issued.ordered, ?_, fun kind => after.unregistered (.inl rfl)⟩
  · rw [issued.ids]
    exact List.Nodup.map (fun _ _ same => congrArg SyntaxId.number same) (List.nodup_range' ..)
  · intro same
    have bounds := issued.id_mem hhandle
    rw [same] at bounds
    exact absurd bounds.1 (Nat.lt_irrefl 0)
  · have first := List.forall₂_take_append _ handles _ after.answers
    rwa [← issued.answers.length_eq, List.take_left] at first

end HandleSource

end DeclTree
