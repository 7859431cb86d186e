import DeclTree.Symbol

/-!
# What a qualified name carries

A qualified name is a lead, made of the namespace, followed by the outer name. The whole does not
show where the lead ends: `A.B.C` may be `C` in the namespace `A.B` or `B.C` in the namespace `A`.
But the whole and one of its parts determine the other part. The outer name in turn gives back the
names it is made of if none of them has a dot.
-/

namespace DeclTree.Symbol

variable {symbol symbol' : Symbol} {leaf leaf' : String}

/-- What stands before the outer name. No dot is written for an empty namespace. -/
def lead (symbol : Symbol) : String :=
  if symbol.namespaceName = "" then "" else symbol.namespaceName ++ "."

theorem qualifiedName_eq (symbol : Symbol) (leaf : String) :
    symbol.qualifiedName leaf = symbol.lead ++ symbol.outerName leaf := by
  unfold qualifiedName lead
  split <;> simp

theorem lead_inj : symbol.lead = symbol'.lead ↔ symbol.namespaceName = symbol'.namespaceName := by
  refine ⟨fun h => ?_, fun h => by rw [lead, lead, h]⟩
  unfold lead at h
  by_cases empty : symbol.namespaceName = ""
  · by_cases empty' : symbol'.namespaceName = ""
    · rw [empty, empty']
    · -- The dot that one lead ends in has nothing to stand for in the other.
      rw [if_pos empty, if_neg empty'] at h
      exact absurd (String.append_eq_empty_iff.mp h.symm).2 (by decide)
  · by_cases empty' : symbol'.namespaceName = ""
    · rw [if_neg empty, if_pos empty'] at h
      exact absurd (String.append_eq_empty_iff.mp h).2 (by decide)
    · rw [if_neg empty, if_neg empty'] at h
      exact (String.append_left_inj ".").mp h

/-- No name that the outer name is made of has a dot. -/
def Undotted (symbol : Symbol) (leaf : String) : Prop :=
  ∀ name ∈ symbol.containing ++ [leaf], '.' ∉ name.toList

instance (symbol : Symbol) (leaf : String) : Decidable (symbol.Undotted leaf) :=
  List.decidableBAll (fun name : String => '.' ∉ name.toList) (symbol.containing ++ [leaf])

/-- Undotted names come apart at the dots between them. -/
theorem splitOn_outerName (h : symbol.Undotted leaf) :
    (symbol.outerName leaf).toList.splitOn '.' =
      (symbol.containing ++ [leaf]).map String.toList := by
  rw [outerName, String.toList_intercalate]
  refine List.splitOn_intercalate '.' (fun text htext => ?_) (by simp)
  obtain ⟨name, hname, rfl⟩ := List.mem_map.mp htext
  exact h name hname

theorem eq_of_outerName_eq (h : symbol.Undotted leaf) (h' : symbol'.Undotted leaf')
    (same : symbol.outerName leaf = symbol'.outerName leaf') :
    symbol.containing = symbol'.containing ∧ leaf = leaf' := by
  have texts := splitOn_outerName h
  rw [same, splitOn_outerName h'] at texts
  have names := (List.map_inj_right fun _ _ => String.toList_inj.mp).mp texts
  obtain ⟨containing, leaves⟩ := List.append_inj' names rfl
  exact ⟨containing.symm, (List.singleton_inj.mp leaves).symm⟩

/-- Of namespace, outer name and qualified name any two determine the third, and an outer name
without dots in its parts determines the parts. -/
theorem qualified_name_carries_both_parts (symbol symbol' : Symbol) (leaf leaf' : String) :
    (symbol.namespaceName = symbol'.namespaceName →
      symbol.outerName leaf = symbol'.outerName leaf' →
        symbol.qualifiedName leaf = symbol'.qualifiedName leaf') ∧
    (symbol.namespaceName = symbol'.namespaceName →
      symbol.qualifiedName leaf = symbol'.qualifiedName leaf' →
        symbol.outerName leaf = symbol'.outerName leaf') ∧
    (symbol.outerName leaf = symbol'.outerName leaf' →
      symbol.qualifiedName leaf = symbol'.qualifiedName leaf' →
        symbol.namespaceName = symbol'.namespaceName) ∧
    (symbol.Undotted leaf → symbol'.Undotted leaf' →
      symbol.outerName leaf = symbol'.outerName leaf' →
        symbol.containing = symbol'.containing ∧ leaf = leaf') := by
  rw [qualifiedName_eq, qualifiedName_eq, ← lead_inj]
  refine ⟨fun lead outer => ?_, fun lead whole => ?_, fun outer whole => ?_, eq_of_outerName_eq⟩
  · rw [lead, outer]
  · rw [lead] at whole
    exact (String.append_right_inj _).mp whole
  · rw [outer] at whole
    exact (String.append_left_inj _).mp whole

/-- A type in two others, one of which has no name. -/
def sampleNested (namespaceName : String) : Symbol :=
  { name := "Line", namespaceName, containing := ["Invoice", ""] }

theorem qualified_name_carries_both_parts_of_sampleNested :
    (sampleNested "Acme").Undotted "Line" ∧
      (sampleNested "Acme").qualifiedName "Line" = "Acme.Invoice..Line" ∧
      (∀ symbol : Symbol, symbol.qualifiedName "Line" = "Acme.Invoice..Line" →
        (symbol.outerName "Line" = "Invoice..Line" ↔ symbol.namespaceName = "Acme")) ∧
      ∀ leaf, (sampleNested "").Undotted leaf →
        (sampleNested "").outerName leaf = "Invoice..Line" → leaf = "Line" := by
  have undotted : (sampleNested "Acme").Undotted "Line" := by decide
  refine ⟨undotted, by decide, fun symbol whole => ?_, fun leaf undotted' outer => ?_⟩
  · obtain ⟨-, outer, lead, -⟩ :=
      qualified_name_carries_both_parts symbol (sampleNested "Acme") "Line" "Line"
    exact ⟨fun same => lead same whole, fun same => outer same whole⟩
  · obtain ⟨-, -, -, parts⟩ :=
      qualified_name_carries_both_parts (sampleNested "") (sampleNested "Acme") leaf "Line"
    exact (parts undotted' undotted outer).2

end DeclTree.Symbol
