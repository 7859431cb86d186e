import DeclTree.Intent.Comparison
import DeclTree.Node.Create
import DeclTree.Proofs.Value.Text

/-!
# Tagged payloads

Payloads are compared by their keys, and the key of a tagged payload is its tag, an equals sign and
the text of its value. A text is not the data that it was made from. So the comparison of two
tagged payloads agrees with that of their data only as far as texts do: not where an integer faces a
float that is written alike, nor where zeros of different signs face each other, and in general not
where tags hold equals signs or strings hold quotes.
-/

namespace DeclTree

namespace Payload

variable {tag tag' : String} {value value' : Value}

/-- A tag without equals sign ends at the first one in the key. -/
theorem intentKey_tagged_eq_iff (plain : '=' ∉ tag.toList) (plain' : '=' ∉ tag'.toList) :
    (tagged tag value).intentKey = (tagged tag' value').intentKey ↔
      tag = tag' ∧ value.text = value'.text := by
  constructor
  · intro same
    have texts : tag.toList ++ '=' :: value.text.toList =
        tag'.toList ++ '=' :: value'.text.toList := by
      simpa [intentKey_tagged] using congrArg String.toList same
    have parts := Delimited.eq_of_append_eq_append (· = '=')
      (fun c hc here => plain (here ▸ hc)) (fun c hc here => plain' (here ▸ hc))
      (by simp) (by simp) texts
    exact ⟨String.toList_inj.mp parts.1, String.toList_inj.mp (List.cons.inj parts.2).2⟩
  · rintro ⟨rfl, same⟩
    simp [intentKey_tagged, same]

theorem intentKey_tagged_right_eq_iff :
    (tagged tag value).intentKey = (tagged tag value').intentKey ↔ value.text = value'.text := by
  simp [intentKey_tagged]

end Payload

namespace Node

variable {left right : Header}

/-- Two extensions of one name that differ in no annotation are compared by the keys of their
payloads alone. -/
theorem mismatchBy_extension {m : Type → Type} [Monad m] [LawfulMonad m]
    (symbolOf : Header → m (Option Symbol)) (options : CompareOptions) (name : left.name = right.name)
    (annotations : left.annotations.equivalent right.annotations = true)
    (payload payload' : Payload) :
    mismatchBy symbolOf options (ofHeader left (.extension payload))
        (ofHeader right (.extension payload')) =
      pure (if payload.intentKey = payload'.intentKey then none else some .content) := by
  have exposes : ∀ facet, (ofHeader left (.extension payload)).exposes facet = false := by
    intro facet
    cases facet <;> rfl
  have content : ∀ same, contentAlike same (ofHeader left (.extension payload))
      (ofHeader right (.extension payload')) =
        (pure (payload.intentKey == payload'.intentKey) : m Bool) := by
    intro same
    change Matching.provided (payload.intentKey == payload'.intentKey) (pure true) = _
    cases payload.intentKey == payload'.intentKey <;> rfl
  have type : (Body.extension payload).sameType (.extension payload') = true :=
    Body.sameType_of_kind_eq rfl (by simp [Body.kind])
  rw [mismatchBy]
  simp only [checks, Facet.all, List.map, facetCheck, exposes, content]
  change firstFailing _ = _
  by_cases keys : payload.intentKey = payload'.intentKey <;>
    simp [firstFailing, keys, Node.name, ofHeader, type, name, annotations]

theorem sameIntent_extension (name : left.name = right.name)
    (annotations : left.annotations.equivalent right.annotations = true) (options : CompareOptions)
    (payload payload' : Payload) (state : Resolution) :
    ((ofHeader left (.extension payload)).sameIntent options
      (ofHeader right (.extension payload')) state).1 = true ↔
      payload.intentKey = payload'.intentKey := by
  unfold sameIntent sameIntentBy
  rw [mismatchBy_extension _ options name annotations]
  by_cases keys : payload.intentKey = payload'.intentKey
  · exact iff_of_true (by rw [if_pos keys]; rfl) keys
  · exact iff_of_false (by rw [if_neg keys]; exact Bool.false_ne_true) keys

/-- Whether two tagged payloads have the same intent. The names and the annotations of the nodes that
carry them play no part. -/
theorem tagged_payloads_agree_as_written (left right : Header) (name : left.name = right.name)
    (hleft : left.annotations.entries = []) (hright : right.annotations.entries = [])
    (tag tag' : String) (value value' : Value) (options : CompareOptions) (state : Resolution) :
    let same := ((ofHeader left (.extension (.tagged tag value))).sameIntent options
      (ofHeader right (.extension (.tagged tag' value'))) state).1
    (tag = tag' → value.sameIntent value' = true →
      (same = true ↔ value.mixesZeros value' = false)) ∧
    ('=' ∉ tag.toList → '=' ∉ tag'.toList → value.unquoted = true → value'.unquoted = true →
      ((same = true ↔ tag = tag' ∧ value.sameIntent value' = true) ↔
        ¬ (tag = tag' ∧
          (value.sameIntent value' = true ∧ value.mixesZeros value' = true ∨
            value.writtenAlike value' = true ∧ value.mixesNumbers value' = true)))) := by
  intro same
  have annotations : left.annotations.equivalent right.annotations = true := by
    rw [AnnotationStore.equivalent, hleft, hright]
    rfl
  have keys := sameIntent_extension name annotations options (.tagged tag value) (.tagged tag' value')
    state
  obtain ⟨zeros, numbers⟩ := value.sameIntent_against_writtenAlike value'
  constructor
  · rintro rfl data
    rw [keys, Payload.intentKey_tagged_right_eq_iff, Value.text_eq_iff_of_legible (.inr data)]
    exact zeros data
  · intro plain plain' unquoted unquoted'
    rw [keys, Payload.intentKey_tagged_eq_iff plain plain',
      Value.text_eq_iff_of_legible (.inl ⟨unquoted, unquoted'⟩)]
    by_cases tags : tag = tag'
    · cases data : value.sameIntent value' <;> cases alike : value.writtenAlike value' <;> simp_all
    · simp [tags]

def sampleHeader (number : Nat) : Header :=
  { id := ⟨number⟩, name := "note", handle := .synthetic "extension" }

/-- Whether two nodes with these tags and values have the same intent. -/
def sameTagged (tag tag' : String) (value value' : Value) : Bool :=
  ((ofHeader (sampleHeader 1) (.extension (.tagged tag value))).sameIntent {}
    (ofHeader (sampleHeader 2) (.extension (.tagged tag' value'))) {}).1

/-- A list with a NaN of this fraction. -/
def sampleValue (fraction : UInt64) : Value :=
  .list [.string "a, [b]=", .float ⟨0x7ff0000000000000 + fraction⟩, .list [.int 1, .null]]

theorem tagged_payloads_agree_as_written_of_sampleValue :
    (sampleValue 1).unquoted = true ∧ (sampleValue 2).unquoted = true ∧
      (sampleValue 1).sameIntent (sampleValue 2) = true ∧
      sameTagged "level" "level" (sampleValue 1) (sampleValue 2) = true ∧
      sameTagged "level" "" (sampleValue 1) (sampleValue 2) = false := by
  have unquoted : (sampleValue 1).unquoted = true := by decide +kernel
  have unquoted' : (sampleValue 2).unquoted = true := by decide +kernel
  have data : (sampleValue 1).sameIntent (sampleValue 2) = true := by decide +kernel
  have agree := fun tag' => tagged_payloads_agree_as_written (sampleHeader 1) (sampleHeader 2) rfl rfl
    rfl "level" tag' (sampleValue 1) (sampleValue 2) {} {}
  refine ⟨unquoted, unquoted', data, ?_, ?_⟩
  · exact ((agree "level").1 rfl data).mpr (by decide +kernel)
  · have other := ((agree "").2 (by decide) (by decide) unquoted unquoted').mpr
      (fun same => absurd same.1 (by decide))
    exact Bool.eq_false_iff.mpr fun same => absurd (other.mp same).1 (by decide)

theorem sameTagged_iff (tag tag' : String) (value value' : Value) :
    sameTagged tag tag' value value' = true ↔
      (Payload.tagged tag value).intentKey = (Payload.tagged tag' value').intentKey := by
  have name : (sampleHeader 1).name = (sampleHeader 2).name := rfl
  exact sameIntent_extension name rfl {} _ _ {}

/-- An integer matches a float, zeros do not match, and a tag takes over part of a string. -/
theorem tagged_payloads_compare_texts :
    sameTagged "level" "level" (.int 1) (.float ⟨0x3ff0000000000000⟩) = true ∧
      (Value.int 1).sameIntent (.float ⟨0x3ff0000000000000⟩) = false ∧
      sameTagged "level" "level" (.float ⟨0⟩) (.float ⟨0x8000000000000000⟩) = false ∧
      (Value.float ⟨0⟩).sameIntent (.float ⟨0x8000000000000000⟩) = true ∧
      sameTagged "a" "a=\"x\"" (.string "x\"=\"y") (.string "y") = true := by
  simp only [← Bool.not_eq_true, sameTagged_iff]
  decide +kernel

end Node

end DeclTree
