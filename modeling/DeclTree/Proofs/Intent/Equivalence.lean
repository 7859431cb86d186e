import DeclTree.Proofs.Intent.Verdicts

/-!
# Same intent is an equivalence

The laws are proved together, from lower trees to higher ones. If same intent is an equivalence
on the nodes below, then among nodes of one kind every single check is one: most of them compare
what the two nodes show, and the others lift the comparison of the nodes below to options and
lists. For the greedy pairing of members this needs all three laws one level down at once.

Since each check is an equivalence of its own, replacing a node by one of the same intent changes
no verdict, and so not even which check fails first.
-/

namespace DeclTree.Node

open Matching

/-! ## One level -/

section Level

variable {D : Node → Prop} {same : Node → Node → Bool} (h : EquivalenceOn D same)

include h

theorem listsSame_equivalenceOn (pairing : Pairing) :
    EquivalenceOn (Within D) (listsSame same pairing) := by
  cases pairing with
  | ordered => exact ordered_equivalenceOn h
  | unordered => exact unordered_equivalenceOn h
  | coverage => exact coversBoth_equivalenceOn ((EquivalenceOn.kernel name).and h)

theorem facetSame_equivalenceOn (symbolOf : Header → Option Symbol) (facet : Facet) :
    EquivalenceOn (fun node : Node => ∀ part ∈ node.parts, D part)
      fun left right => facetSame symbolOf same left right facet := by
  cases facet with
  | namespaced => exact .kernel fun node : Node => node.names?.map (NameSource.read symbolOf)
  | accessModifier => exact .kernel fun node : Node => node.body.access?
  | attributes =>
      refine (optionAlike_equivalenceOn (listsSame_equivalenceOn h .coverage)).comap attributes? ?_
      intro node hparts items hitems part hpart
      exact hparts part (mem_parts_of_attributes? hitems hpart)
  | isStatic => exact .kernel fun node : Node => node.body.isStatic?
  | returnType =>
      refine (optionAlike_equivalenceOn (optionAlike_equivalenceOn h)).comap type? ?_
      intro node hparts item hitem type htype
      obtain rfl : item = some type := htype
      exact hparts type (mem_parts_of_type? hitem)
  | memberTraits => exact .kernel fun node : Node => node.body.traits?

/-- Nodes of the catalog of one kind, with all nodes on their branches in `D`. -/
structure Above (D : Node → Prop) (kind : Kind) (node : Node) : Prop where
  catalog : node.Catalog
  kind_eq : node.kind = kind
  parts : ∀ part ∈ node.parts, D part

omit h in
theorem Catalog.above {kind : Kind} {node : Node} (h : node.Catalog) (kind_eq : node.kind = kind) :
    Above Catalog kind node :=
  ⟨h, kind_eq, fun _ => h.of_mem_parts⟩

omit h in
theorem Above.memberRoles_eq {kind : Kind} {node : Node} (hnode : Above D kind node) :
    node.memberRoles = kind.places.filterMap Place.memberRole? := by
  rw [memberRoles, hnode.catalog.places_eq, hnode.kind_eq]

theorem contentSame_equivalenceOn (kind : Kind) :
    EquivalenceOn (Above D kind) (contentSame same) := by
  have bodies := (Body.sameContent_equivalenceOn kind).comap (E := Above D kind) body
    fun {_} hnode => hnode.kind_eq
  have members : EquivalenceOn (Above D kind) fun left right =>
      (kind.places.filterMap Place.memberRole?).all fun role =>
        listsSame same role.pairing (left.itemsIn role) (right.itemsIn role) := by
    refine .all fun role _ => ?_
    refine (listsSame_equivalenceOn h role.pairing).comap (fun node : Node => node.itemsIn role) ?_
    intro node hnode part hpart
    exact hnode.parts part (mem_parts_of_itemsIn hpart)
  refine (bodies.and members).of_eq fun {left right} hleft _ => ?_
  rw [contentSame, hleft.memberRoles_eq]

/-- Among nodes of one kind, every check is an equivalence. -/
theorem tests_equivalenceOn (symbolOf : Header → Option Symbol) (options : CompareOptions)
    (kind : Kind) :
    ∀ test ∈ tests symbolOf options same, EquivalenceOn (Above D kind) test.2 := by
  intro test htest
  simp only [tests, List.cons_append, List.nil_append, List.mem_cons, List.mem_append,
    List.mem_map, List.not_mem_nil, or_false] at htest
  rcases htest with rfl | rfl | ⟨facet, -, rfl⟩ | rfl | rfl
  · exact (EquivalenceOn.kernel Node.kind).and (.kernel fun node : Node => node.body.label)
  · exact .kernel name
  · exact (facetSame_equivalenceOn h symbolOf facet).mono fun hnode => hnode.parts
  · cases hoptions : options.annotations with
    | true =>
        simp only [Bool.not_true, Bool.false_or]
        exact AnnotationStore.equivalent_equivalenceOn.comap
          (fun node : Node => node.header.annotations) fun {_} _ => trivial
    | false =>
        simp only [Bool.not_false, Bool.true_or]
        exact .always
  · exact contentSame_equivalenceOn h kind

end Level

/-! ## All levels -/

section Trees

variable (symbolOf : Header → Option Symbol) (options : CompareOptions)

theorem Above.mismatchWith_eq {D : Node → Prop} {kind : Kind} {left right : Node}
    (hleft : Above D kind left) (hright : Above D kind right) :
    mismatchWith symbolOf options left right =
      firstFalse (verdicts symbolOf options (sameWith symbolOf options) left right) := by
  refine Node.mismatchWith_eq symbolOf options ?_ hleft.catalog.2.shaped.nodup_places
  intro facet
  rw [hleft.catalog.exposes_eq, hright.catalog.exposes_eq, hleft.kind_eq, hright.kind_eq]

theorem Above.sameWith_iff {D : Node → Prop} {kind : Kind} {left right : Node}
    (hleft : Above D kind left) (hright : Above D kind right) :
    sameWith symbolOf options left right = true ↔
      ∀ test ∈ tests symbolOf options (sameWith symbolOf options), test.2 left right = true := by
  rw [sameWith, hleft.mismatchWith_eq symbolOf options hright, Option.isNone_iff_eq_none,
    firstFalse_eq_none_iff, verdicts, List.forall_mem_map]

/-- Same intent among nodes whose parts satisfy the laws. -/
theorem sameWith_equivalenceOn_of_below {D : Node → Prop}
    (h : EquivalenceOn D (sameWith symbolOf options)) :
    EquivalenceOn (fun node => node.Catalog ∧ ∀ part ∈ node.parts, D part)
      (sameWith symbolOf options) where
  refl {a} ha := by
    have above : Above D a.kind a := ⟨ha.1, rfl, ha.2⟩
    rw [above.sameWith_iff symbolOf options above]
    intro test htest
    exact (tests_equivalenceOn h symbolOf options a.kind test htest).refl above
  symm {a b} ha hb hab := by
    have above : Above D a.kind a := ⟨ha.1, rfl, ha.2⟩
    have above' : Above D a.kind b :=
      ⟨hb.1, (kind_eq_of_sameWith symbolOf options hab).symm, hb.2⟩
    rw [above.sameWith_iff symbolOf options above'] at hab
    rw [above'.sameWith_iff symbolOf options above]
    intro test htest
    exact (tests_equivalenceOn h symbolOf options a.kind test htest).symm above above'
      (hab test htest)
  trans {a b c} ha hb hc hab hbc := by
    have hkind := kind_eq_of_sameWith symbolOf options hab
    have hkind' := kind_eq_of_sameWith symbolOf options hbc
    have above : Above D a.kind a := ⟨ha.1, rfl, ha.2⟩
    have above' : Above D a.kind b := ⟨hb.1, hkind.symm, hb.2⟩
    have above'' : Above D a.kind c := ⟨hc.1, (hkind.trans hkind').symm, hc.2⟩
    rw [above.sameWith_iff symbolOf options above'] at hab
    rw [above'.sameWith_iff symbolOf options above''] at hbc
    rw [above.sameWith_iff symbolOf options above'']
    intro test htest
    exact (tests_equivalenceOn h symbolOf options a.kind test htest).trans above above' above''
      (hab test htest) (hbc test htest)

theorem sameWith_equivalenceOn_height (height : Nat) :
    EquivalenceOn (fun node : Node => node.Catalog ∧ node.height < height)
      (sameWith symbolOf options) := by
  induction height with
  | zero => exact ⟨fun h => by omega, fun h => by omega, fun h => by omega⟩
  | succ height ih =>
      refine (sameWith_equivalenceOn_of_below symbolOf options ih).mono fun {node} hnode => ?_
      refine ⟨hnode.1, fun part hpart => ⟨hnode.1.of_mem_parts hpart, ?_⟩⟩
      have := height_lt_of_mem_parts hpart
      omega

/-- Same intent is an equivalence on the trees of the catalog. -/
theorem sameWith_equivalenceOn : EquivalenceOn Catalog (sameWith symbolOf options) where
  refl {a} ha :=
    (sameWith_equivalenceOn_height symbolOf options (a.height + 1)).refl ⟨ha, by omega⟩
  symm {a b} ha hb :=
    (sameWith_equivalenceOn_height symbolOf options (a.height + b.height + 1)).symm
      ⟨ha, by omega⟩ ⟨hb, by omega⟩
  trans {a b c} ha hb hc :=
    (sameWith_equivalenceOn_height symbolOf options (a.height + b.height + c.height + 1)).trans
      ⟨ha, by omega⟩ ⟨hb, by omega⟩ ⟨hc, by omega⟩

/-- Nodes of the same intent get the same report. -/
theorem mismatchWith_congr {left left' right right' : Node} (hleft : left.Catalog)
    (hleft' : left'.Catalog) (hright : right.Catalog) (hright' : right'.Catalog)
    (sameLeft : sameWith symbolOf options left left' = true)
    (sameRight : sameWith symbolOf options right right' = true) :
    mismatchWith symbolOf options left right = mismatchWith symbolOf options left' right' := by
  have kindLeft := kind_eq_of_sameWith symbolOf options sameLeft
  have kindRight := kind_eq_of_sameWith symbolOf options sameRight
  by_cases hkind : left.kind = right.kind
  · have al := hleft.above rfl
    have al' := hleft'.above kindLeft.symm
    have ar := hright.above hkind.symm
    have ar' := hright'.above (hkind.trans kindRight).symm
    rw [al.mismatchWith_eq symbolOf options ar, al'.mismatchWith_eq symbolOf options ar']
    rw [al.sameWith_iff symbolOf options al'] at sameLeft
    rw [ar.sameWith_iff symbolOf options ar'] at sameRight
    congr 1
    refine List.map_congr_left fun test htest => ?_
    have laws := tests_equivalenceOn (sameWith_equivalenceOn symbolOf options) symbolOf options
      left.kind test htest
    rw [laws.congr al al' ar ar' (sameLeft test htest) (sameRight test htest)]
  · rw [mismatchWith_of_kind_ne symbolOf options hkind,
      mismatchWith_of_kind_ne symbolOf options (kindLeft ▸ kindRight ▸ hkind)]

end Trees

end DeclTree.Node
