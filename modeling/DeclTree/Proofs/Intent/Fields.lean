import DeclTree.Proofs.Intent.Places
import DeclTree.Proofs.Intent.Refinement

/-!
# Fields of nodes with the same intent

A comparison and a look at a field read the same node in different ways: the one by facets,
contents and matched lists, the other by accessors and counts. Still, nodes of the catalog with the
same intent answer alike in every field that the comparison covers. It does not cover the position
of a parameter, nor the outer name of a node other than a type declaration.
-/

namespace DeclTree

open Matching

/-! ## Alike answers -/

theorem sameIntentOption_iff {a b : Option Value} :
    sameIntentOption a b = true ↔ Option.Rel (fun a b => a.sameIntent b = true) a b := by
  constructor
  · intro h
    cases a with
    | none =>
        cases b with
        | none => exact .none
        | some b => cases h
    | some a =>
        cases b with
        | none => cases h
        | some b => exact .some h
  · rintro (h | _)
    · exact h
    · rfl

theorem sameIntentOption_of_eq {a b : Option Value} (h : a = b) : sameIntentOption a b = true :=
  h ▸ sameIntentOption_equivalenceOn.refl trivial

theorem alike_of_sameIntentOption {a b : Option Value} (h : sameIntentOption a b = true) :
    a.isSome = b.isSome ∧ (a.getD .null).sameIntent (b.getD .null) = true := by
  cases sameIntentOption_iff.mp h with
  | some same => exact ⟨rfl, same⟩
  | none => exact ⟨rfl, Value.null_sameIntent_iff.mpr rfl⟩

namespace Field

/-- Nodes of this kind with the same intent agree in this field. -/
def Compared (kind : Kind) (field : Field) : Prop :=
  field ≠ .ordinal ∧ (field = .outerName → kind = .typeDecl)

theorem text_of_ofText {text : String} {field : Field} (h : ofText text = .ok field) :
    field.text = text := by
  unfold ofText at h
  split at h
  next other found =>
    obtain rfl := Except.ok.inj h
    simpa using List.find?_some found
  next => cases h

end Field

/-- The default decides on two fields: a parameter without one answers null. -/
theorem ParameterData.ownField?_alike (left : ParameterData) {right : ParameterData}
    (modifier : left.modifier = right.modifier)
    (default : sameIntentOption left.default right.default = true) {field : Field}
    (h : field ≠ .ordinal) :
    sameIntentOption ((Body.parameter left).ownField? field)
      ((Body.parameter right).ownField? field) = true := by
  obtain ⟨optional, value⟩ := alike_of_sameIntentOption default
  cases field with
  | ordinal => exact absurd rfl h
  | isOptional =>
      apply sameIntentOption_of_eq
      simp only [Body.ownField?, isOptional, optional]
  | parameterModifier =>
      apply sameIntentOption_of_eq
      simp only [Body.ownField?, modifier]
  | defaultValue => exact value
  | _ => exact sameIntentOption_of_eq rfl

/-- Bodies with the same content answer alike, except for the position of a parameter. -/
theorem Body.ownField?_alike {left right : Body} (kind : left.kind = right.kind)
    (content : left.sameContent right = true) {field : Field} (h : field ≠ .ordinal) :
    sameIntentOption (left.ownField? field) (right.ownField? field) = true := by
  cases left with
  | typeRef isNullable =>
      cases right <;> cases kind
      next other =>
        obtain rfl : isNullable = other := by simpa [sameContent] using content
        exact sameIntentOption_of_eq rfl
  | parameter data =>
      cases right <;> cases kind
      next other =>
        obtain ⟨modifier, default⟩ : data.modifier = other.modifier ∧
            sameIntentOption data.default other.default = true := by
          simpa [sameContent] using content
        exact data.ownField?_alike modifier default h
  | method data =>
      cases right <;> cases kind
      next other =>
        have isExtension : data.isExtension = other.isExtension := by
          simpa [sameContent] using content
        apply sameIntentOption_of_eq
        cases field <;> simp [ownField?, isExtension]
  | property data =>
      cases right <;> cases kind
      next other =>
        obtain ⟨canGet, canSet⟩ : data.canGet = other.canGet ∧ data.canSet = other.canSet := by
          simpa [sameContent] using content
        apply sameIntentOption_of_eq
        cases field <;> simp [ownField?, canGet, canSet]
  | typeDecl data =>
      cases right <;> cases kind
      next other =>
        obtain ⟨⟨declared, -⟩, -⟩ : (data.kind = other.kind ∧ data.isAbstract = other.isAbstract) ∧
            data.isSealed = other.isSealed := by
          simpa [sameContent] using content
        apply sameIntentOption_of_eq
        cases field <;> simp [ownField?, declared]
  | _ =>
      -- Attributes, extensions and probes have no fields of their own.
      cases right <;> cases kind
      exact sameIntentOption_of_eq rfl

namespace Node

/-! ## Counts -/

theorem length_eq_of_listsSame {same : Node → Node → Bool} {pairing : Pairing}
    {left right : List Node} (h : listsSame same pairing left right = true) :
    left.length = right.length := by
  cases pairing with
  | ordered => exact ((ordered_iff _ _ _).mp h).length_eq
  | unordered =>
      obtain ⟨partners, pairs, perm⟩ := exists_perm_of_unordered h
      exact pairs.length_eq.trans perm.length_eq
  | coverage =>
      simp only [listsSame, coversBoth, Bool.and_eq_true, beq_iff_eq] at h
      exact h.1.1

/-- The children of a node are the nodes in all its places. -/
theorem Catalog.children_eq_flatMap {node : Node} (h : node.Catalog) :
    node.children = node.kind.places.flatMap node.itemsOf := by
  rw [h.children_eq_parts, parts, ← h.places_eq, places, List.flatMap_map]
  refine List.flatMap_congr fun branch hbranch => ?_
  exact (itemsOf_place h.2.shaped.nodup_places hbranch).symm

/-! ## Stateless reading -/

/-- The value of a field, with symbols given by a function. -/
def fieldWith (symbolOf : Header → Option Symbol) (node : Node) (field : Field) : Option Value :=
  node.fieldBy (m := Id) symbolOf field

section Alike

variable {symbolOf : Header → Option Symbol} {options : CompareOptions} {left right : Node}

theorem fieldWith_namespaceName (node : Node) :
    node.fieldWith symbolOf .namespaceName =
      ((node.names?.map (NameSource.read symbolOf)).bind fun names => names.2.1).map .string := by
  unfold fieldWith fieldBy
  cases node.names? with
  | none => rfl
  | some source => cases source <;> rfl

theorem fieldWith_qualifiedName (node : Node) :
    node.fieldWith symbolOf .qualifiedName =
      ((node.names?.map (NameSource.read symbolOf)).bind fun names => names.2.2).map .string := by
  unfold fieldWith fieldBy
  cases node.names? with
  | none => rfl
  | some source => cases source <;> rfl

theorem fieldWith_outerName {node : Node} (h : node.kind = .typeDecl) :
    node.fieldWith symbolOf .outerName =
      ((node.names?.map (NameSource.read symbolOf)).bind fun names => names.1).map .string := by
  obtain ⟨header, body, branches⟩ := node
  cases body <;> cases h
  rfl

/-- The type that a node shows has the same name on both sides. -/
theorem SamePlaces.typeName_eq (hleft : left.Catalog) (hright : right.Catalog)
    (kind : left.kind = right.kind)
    (h : SamePlaces (sameWith symbolOf options) left right) :
    left.type?.join.map name = right.type?.join.map name := by
  have pairs := (ordered_iff _ _ _).mp (h .slot)
  have names : (left.itemsOf .slot).map name = (right.itemsOf .slot).map name := by
    refine map_eq_map_of_forall₂ (forall₂_imp_of_mem (fun a ha b hb same => ?_) pairs)
    exact name_eq_of_sameWith (hleft.within_itemsOf _ a ha) (hright.within_itemsOf _ b hb) same
  rw [hleft.type?_eq, hright.type?_eq, kind]
  split
  · rw [Option.join_some, Option.join_some, ← List.head?_map, names, List.head?_map]
  · rfl

theorem SamePlaces.length_attributes? (hleft : left.Catalog) (hright : right.Catalog)
    (kind : left.kind = right.kind)
    (h : SamePlaces (sameWith symbolOf options) left right) :
    left.attributes?.map List.length = right.attributes?.map List.length := by
  rw [hleft.attributes?_eq, hright.attributes?_eq, kind]
  split
  · rw [Option.map_some, Option.map_some, length_eq_of_listsSame (h (.list .attributes))]
  · rfl

theorem SamePlaces.length_children (hleft : left.Catalog) (hright : right.Catalog)
    (kind : left.kind = right.kind)
    (h : SamePlaces (sameWith symbolOf options) left right) :
    left.children.length = right.children.length := by
  rw [hleft.children_eq_flatMap, hright.children_eq_flatMap, kind]
  induction right.kind.places with
  | nil => rfl
  | cons place rest ih =>
      rw [List.flatMap_cons, List.flatMap_cons, List.length_append, List.length_append, ih,
        length_eq_of_listsSame (h place)]

/-- Nodes with the same intent answer alike in every field that is compared. -/
theorem fieldWith_alike (hleft : left.Catalog) (hright : right.Catalog)
    (same : sameWith symbolOf options left right = true) {field : Field}
    (compared : field.Compared left.kind) :
    sameIntentOption (left.fieldWith symbolOf field) (right.fieldWith symbolOf field) = true := by
  obtain ⟨kind, data, places⟩ := (hleft.sameWith_iff symbolOf options hright).mp same
  cases field with
  | outerName =>
      have declared := compared.2 rfl
      apply sameIntentOption_of_eq
      rw [fieldWith_outerName declared, fieldWith_outerName (kind ▸ declared), data.names]
  | namespaceName =>
      apply sameIntentOption_of_eq
      rw [fieldWith_namespaceName, fieldWith_namespaceName, data.names]
  | qualifiedName =>
      apply sameIntentOption_of_eq
      rw [fieldWith_qualifiedName, fieldWith_qualifiedName, data.names]
  | returnType =>
      have names := congrArg (Option.map Value.string) (places.typeName_eq hleft hright kind)
      rw [Option.map_map, Option.map_map] at names
      exact sameIntentOption_of_eq names
  | attributeCount =>
      have counts := congrArg (Option.map Value.ofNat)
        (places.length_attributes? hleft hright kind)
      rw [Option.map_map, Option.map_map] at counts
      exact sameIntentOption_of_eq counts
  | childCount =>
      apply sameIntentOption_of_eq
      exact congrArg (fun count => some (Value.ofNat count))
        (places.length_children hleft hright kind)
  | kind =>
      apply sameIntentOption_of_eq
      have label := (Body.sameType_iff.mp (Body.sameType_of_kind_eq kind hleft.1)).2
      simp only [fieldWith, fieldBy, label]
  | name | accessModifier | isStatic | isAbstract | isOverride | isSealed | isVirtual =>
      apply sameIntentOption_of_eq
      simp only [fieldWith, fieldBy, data.name, data.access, data.isStatic, data.traits]
  | _ => exact Body.ownField?_alike kind data.content compared.1

end Alike

/-! ## Reading with resolvers -/

/-- A field that is compared is read off the symbols of type declarations. -/
theorem fst_field?_of_steady {symbolOf : Header → Option Symbol} {node : Node}
    (identified : Identified node.typeDecls) {field : Field} (compared : field.Compared node.kind)
    (s : Resolution.Steady symbolOf node.typeDecls (node.field? field)) :
    (node.field? field s).1 = node.fieldWith symbolOf field := by
  have symbol : (reading symbolOf identified).SymbolRelated Header.symbol? symbolOf node :=
    fun hk => reading_symbol? symbolOf identified (mem_typeDecls.mpr ⟨node.self_mem_nodes, hk⟩)
  have reads := (reading symbolOf identified).fieldBy symbol fun outer => symbol (compared.2 outer)
  exact reads.2 s s.2

/-- Nodes of the catalog with the same intent answer alike in every field that is compared, whether
it is asked for as such or by its name. A name that no field has is answered by neither. -/
theorem sameIntent_implies_fields_alike {left right : Node} (hleft : left.Catalog)
    (hright : right.Catalog) (identified : Identified (left.declsWith right))
    (symbolOf : Header → Option Symbol) (options : CompareOptions)
    (s₁ : Steady symbolOf options left right)
    (same : (left.sameIntent options right s₁).1 = true) :
    (∀ field : Field, field.Compared left.kind →
      ∀ (s₂ : Resolution.Steady symbolOf left.typeDecls (left.field? field))
        (s₃ : Resolution.Steady symbolOf right.typeDecls (right.field? field)),
        Option.Rel (fun a b => a.sameIntent b = true) (left.field? field s₂).1
          (right.field? field s₃).1) ∧
    ∀ name : String, (∀ field : Field, field.text = name → field.Compared left.kind) →
      ∀ (s₂ : Resolution.Steady symbolOf left.typeDecls (left.fieldByName? name))
        (s₃ : Resolution.Steady symbolOf right.typeDecls (right.fieldByName? name)),
        Option.Rel (fun a b => a.sameIntent b = true) (left.fieldByName? name s₂).1
          (right.fieldByName? name s₃).1 := by
  rw [sameIntent_of_steady identified s₁] at same
  have kind := kind_eq_of_sameWith symbolOf options same
  have inLeft : Identified left.typeDecls := identified.mono (List.subset_append_left _ _)
  have inRight : Identified right.typeDecls := identified.mono (List.subset_append_right _ _)
  have fields : ∀ field : Field, field.Compared left.kind →
      ∀ (s₂ : Resolution.Steady symbolOf left.typeDecls (left.field? field))
        (s₃ : Resolution.Steady symbolOf right.typeDecls (right.field? field)),
        Option.Rel (fun a b => a.sameIntent b = true) (left.field? field s₂).1
          (right.field? field s₃).1 := by
    intro field compared s₂ s₃
    rw [fst_field?_of_steady inLeft compared s₂,
      fst_field?_of_steady inRight (kind ▸ compared) s₃]
    exact sameIntentOption_iff.mp (fieldWith_alike hleft hright same compared)
  refine ⟨fields, fun name compared => ?_⟩
  unfold fieldByName?
  cases found : Field.ofText name with
  | ok field => exact fields field (compared field (Field.text_of_ofText found))
  | error _ => exact fun _ _ => .none

/-- The sample classes have their methods in different orders, and answer alike. -/
theorem sameIntent_implies_fields_alike_of_sampleClass :
    ((sampleClass 1 ["f", "g"]).sameIntent {} (sampleClass 4 ["g", "f"]) sampleResolution).1 =
        true ∧
      Option.Rel (fun a b => a.sameIntent b = true)
        ((sampleClass 1 ["f", "g"]).field? .outerName sampleResolution).1
        ((sampleClass 4 ["g", "f"]).field? .outerName sampleResolution).1 ∧
      Option.Rel (fun a b => a.sameIntent b = true)
        ((sampleClass 1 ["f", "g"]).fieldByName? "ChildCount" sampleResolution).1
        ((sampleClass 4 ["g", "f"]).fieldByName? "ChildCount" sampleResolution).1 := by
  have same : ((sampleClass 1 ["f", "g"]).sameIntent {} (sampleClass 4 ["g", "f"])
      sampleResolution).1 = true := by decide +kernel
  obtain ⟨fields, names⟩ := sameIntent_implies_fields_alike (by decide +kernel) (by decide +kernel)
    (by decide +kernel) sampleSymbol {} ⟨sampleResolution, fun _ _ => rfl, by decide +kernel⟩ same
  refine ⟨same, ?_, names "ChildCount" ?_ ⟨sampleResolution, fun _ _ => rfl, by decide +kernel⟩
    ⟨sampleResolution, fun _ _ => rfl, by decide +kernel⟩⟩
  · exact fields .outerName ⟨by decide, fun _ => rfl⟩
      ⟨sampleResolution, fun _ _ => rfl, by decide +kernel⟩
      ⟨sampleResolution, fun _ _ => rfl, by decide +kernel⟩
  intro field _
  exact ⟨by rintro rfl; contradiction, fun _ => rfl⟩

end Node

end DeclTree
