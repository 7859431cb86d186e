import DeclTree.Annotation
import DeclTree.Node.Body
import DeclTree.Proofs.Value

/-!
# Same intent of annotations and bodies

The data of a node, apart from the nodes below it, are compared by tests that are equivalences
among nodes of one kind.
-/

namespace DeclTree

open Matching

/-! ## Optional entries -/

/-- Both absent, or both present and alike. -/
def optionAlike {α : Type} (test : α → α → Bool) : Option α → Option α → Bool
  | none, none => true
  | some a, some b => test a b
  | _, _ => false

theorem optionAlike_eq_ordered {α : Type} (test : α → α → Bool) (a b : Option α) :
    optionAlike test a b = ordered test a.toList b.toList := by
  cases a <;> cases b <;> simp [optionAlike, ordered]

theorem optionAlike_equivalenceOn {α : Type} {D : α → Prop} {test : α → α → Bool}
    (h : EquivalenceOn D test) :
    EquivalenceOn (fun item : Option α => ∀ a ∈ item, D a) (optionAlike test) := by
  have lists := (ordered_equivalenceOn h).comap (E := fun item : Option α => ∀ a ∈ item, D a)
    Option.toList fun {item} hitem a ha => hitem a (Option.mem_toList.mp ha)
  exact lists.of_eq fun {a b} _ _ => optionAlike_eq_ordered test a b

theorem sameIntentOption_eq (a b : Option Value) :
    sameIntentOption a b = optionAlike Value.sameIntent a b := by
  cases a <;> cases b <;> rfl

theorem sameIntentOption_equivalenceOn : EquivalenceOn (fun _ => True) sameIntentOption :=
  (optionAlike_equivalenceOn Value.sameIntent_equivalenceOn).mono
    (fun {_} _ _ _ => trivial) |>.of_eq fun {a b} _ _ => sameIntentOption_eq a b

/-! ## Annotations -/

theorem Annotation.sameIntent_equivalenceOn : EquivalenceOn (fun _ => True) sameIntent :=
  (EquivalenceOn.kernel Annotation.key).and
    (Value.sameIntent_equivalenceOn.comap Annotation.value fun {_} _ => trivial)

theorem AnnotationStore.equivalent_equivalenceOn : EquivalenceOn (fun _ => True) equivalent :=
  (coversBoth_equivalenceOn Annotation.sameIntent_equivalenceOn).comap entries
    fun {_} _ _ _ => trivial

/-- Identities make no difference. -/
theorem AnnotationStore.equivalent_of_forall₂ {left right : AnnotationStore}
    (same : List.Forall₂ (fun a b : Annotation => a.key = b.key ∧ a.value = b.value)
      left.entries right.entries) : left.equivalent right = true := by
  refine coversBoth_of_forall₂ Annotation.sameIntent_equivalenceOn (fun _ _ => trivial)
    (fun _ _ => trivial) (same.imp fun a b agree => ?_)
  have values := Value.sameIntent_equivalenceOn.refl (a := b.value) trivial
  simp [ Annotation.sameIntent, agree.1, agree.2, values]

/-! ## Arguments -/

namespace Argument

theorem sameIntent_equivalenceOn : EquivalenceOn (fun _ => True) sameIntent :=
  (EquivalenceOn.kernel Argument.name).and
    (Value.sameIntent_equivalenceOn.comap Argument.value fun {_} _ => trivial)

theorem sameIntentAll_equivalenceOn : EquivalenceOn (fun _ => True) sameIntentAll := by
  have positional := (ordered_equivalenceOn sameIntent_equivalenceOn).comap
    (E := fun _ => True) (List.filter fun argument => !argument.isNamed) fun {_} _ _ _ => trivial
  have named := (coversBoth_equivalenceOn sameIntent_equivalenceOn).comap
    (E := fun _ => True) (List.filter isNamed) fun {_} _ _ _ => trivial
  exact positional.and named

end Argument

/-! ## Bodies -/

namespace Body

/-- Among bodies of one kind, agreement of content is an equivalence. -/
theorem sameContent_equivalenceOn (kind : Kind) :
    EquivalenceOn (fun body : Body => body.kind = kind) sameContent := by
  match kind with
  | .typeRef =>
      refine .of_range (f := .typeRef) (.kernel id) ?_
      rintro ⟨⟩ h <;> simp_all [Body.kind]
  | .attribute =>
      refine .of_range (f := .attribute) Argument.sameIntentAll_equivalenceOn ?_
      rintro ⟨⟩ h <;> simp_all [Body.kind]
  | .parameter =>
      have defaults := sameIntentOption_equivalenceOn.comap (E := fun _ => True)
        ParameterData.default fun {_} _ => trivial
      refine .of_range (f := .parameter) (.and (.kernel ParameterData.modifier) defaults) ?_
      rintro ⟨⟩ h <;> simp_all [Body.kind]
  | .method =>
      refine .of_range (f := .method) (.kernel MethodData.isExtension) ?_
      rintro ⟨⟩ h <;> simp_all [Body.kind]
  | .property =>
      refine .of_range (f := .property)
        (.and (.kernel PropertyData.canGet) (.kernel PropertyData.canSet)) ?_
      rintro ⟨⟩ h <;> simp_all [Body.kind]
  | .typeDecl =>
      refine .of_range (f := .typeDecl)
        (.and (.and (.kernel TypeDeclData.kind) (.kernel TypeDeclData.isAbstract))
          (.kernel TypeDeclData.isSealed)) ?_
      rintro ⟨⟩ h <;> simp_all [Body.kind]
  | .extension =>
      refine .of_range (f := .extension) (.kernel Payload.intentKey) ?_
      rintro ⟨⟩ h <;> simp_all [Body.kind]
  | .probe =>
      refine .of_range (f := .probe) (.kernel ProbeData.content) ?_
      rintro ⟨⟩ h <;> simp_all [Body.kind]

end Body

end DeclTree
