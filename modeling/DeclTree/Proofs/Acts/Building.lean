import DeclTree.Proofs.Acts.Basic

/-!
# Building is a sequence of acts

A plan makes nodes one by one, attaches them to one another and hands back one tree. While it runs,
the nodes it has made and not yet attached are in hand. `Builds` follows them: whatever else is in
hand or on the workbench, the plan gets from the hand before to the hand after by acts, and if it is
refused it lets go of what it had.
-/

namespace DeclTree

open Node

variable {α β : Type}

namespace Acts

variable {rules : Rules} {hand hand' dropped : List Node} {bench : Workbench}

theorem drop : Acts rules ⟨dropped ++ hand, bench⟩ ⟨hand, bench⟩ :=
  .single (.release (List.sublist_append_right dropped hand).subperm)

theorem perm (same : hand'.Perm hand) : Acts rules ⟨hand, bench⟩ ⟨hand', bench⟩ :=
  .single (.release same.subperm)

end Acts

/-! ## Hands -/

/-- Building is orderly, and it may bind nodes but copies none. -/
def Rules.building : Rules := ⟨True, True, False⟩

structure Builds (hand : List Node) (run : BuildM α) (made : α → List Node) : Prop where
  returned : ∀ {bench : Workbench} {a : α} {world : World} {rest : List Node},
    Returns run bench.world a world →
      Acts .building ⟨hand ++ rest, bench⟩ ⟨made a ++ rest, bench.withWorld world⟩
  refused : ∀ {bench : Workbench} {error : TreeError} {world : World}
      {rest : List Node}, Refuses run bench.world error world →
      Acts .building ⟨hand ++ rest, bench⟩ ⟨rest, bench.withWorld world⟩

namespace Builds

variable {hand : List Node} {made : α → List Node} {made' : β → List Node}

/-- What follows may use what is known of the first result. -/
theorem bind_of_yields {run : BuildM α} {next : α → BuildM β} {P : α → Prop}
    (first : Builds hand run made) (yields : Yields run P)
    (rest : ∀ a, P a → Builds (made a) (next a) made') : Builds hand (run >>= next) made' where
  returned h := by
    obtain ⟨a, world₁, h₁, h₂⟩ := returns_bind.mp h
    exact (first.returned h₁).trans ((rest a (yields _ _ _ h₁)).returned h₂)
  refused h := by
    rcases refuses_bind.mp h with h | ⟨a, world₁, h₁, h₂⟩
    · exact first.refused h
    · exact (first.returned h₁).trans ((rest a (yields _ _ _ h₁)).refused h₂)

theorem bind {run : BuildM α} {next : α → BuildM β} (first : Builds hand run made)
    (rest : ∀ a, Builds (made a) (next a) made') : Builds hand (run >>= next) made' :=
  first.bind_of_yields (fun _ _ _ _ => trivial) fun a _ => rest a

/-- The hand holds more than the computation needs. -/
theorem frame {run : BuildM α} (h : Builds hand run made) (rest : List Node) :
    Builds (hand ++ rest) run (fun a => made a ++ rest) where
  returned returned := by
    rw [List.append_assoc, List.append_assoc]
    exact h.returned returned
  refused refused := by
    rw [List.append_assoc]
    exact (h.refused refused).trans Acts.drop

/-- A result that is made of the hand. -/
theorem ofExcept {result : Except TreeError α}
    (h : ∀ {bench rest a}, result = .ok a →
      Acts .building ⟨hand ++ rest, bench⟩ ⟨made a ++ rest, bench⟩) :
    Builds hand (BuildM.ofExcept result) made where
  returned returned := by
    obtain ⟨ok, rfl⟩ := Prod.mk.inj returned
    exact h ok
  refused refused := by
    obtain ⟨-, rfl⟩ := Prod.mk.inj refused
    exact .drop

theorem pure {a : α} (h : ∀ {bench rest},
      Acts .building ⟨hand ++ rest, bench⟩ ⟨made a ++ rest, bench⟩) :
    Builds hand (Pure.pure a : BuildM α) made :=
  ofExcept fun ok => by
    obtain rfl := Except.ok.inj ok
    exact h

theorem same {a : α} (h : hand = made a) : Builds hand (Pure.pure a : BuildM α) made :=
  .pure (h ▸ .refl)

theorem lift {run : StateM World α}
    (h : ∀ {bench a world rest}, run bench.world = (a, world) →
      Acts .building ⟨hand ++ rest, bench⟩ ⟨made a ++ rest, bench.withWorld world⟩) :
    Builds hand (liftM run : BuildM α) made where
  returned returned := h (returns_lift.mp returned)
  refused refused := absurd refused not_refuses_lift

theorem map {run : BuildM α} {f : α → β} (h : Builds hand run fun a => made' (f a)) :
    Builds hand (f <$> run) made' := by
  rw [← bind_pure_comp]
  exact h.bind fun a => .same rfl

theorem perm {hand' : List Node} {run : BuildM α} (h : Builds hand run made)
    (same : hand.Perm hand') : Builds hand' run made where
  returned returned := (Acts.perm (same.append_right _)).trans (h.returned returned)
  refused refused := (Acts.perm (same.append_right _)).trans (h.refused refused)

theorem cons {first : BuildM Node} {rest : BuildM (List Node)}
    (hfirst : Builds [] first fun node => [node]) (hrest : Builds [] rest fun nodes => nodes) :
    Builds [] (do return (← first) :: (← rest)) fun nodes => nodes := by
  refine hfirst.bind fun node => (hrest.frame [node]).bind fun nodes => .pure (.perm ?_)
  exact (List.perm_append_singleton node nodes).symm.append_right _

theorem mapM {plans : List β} {build : β → BuildM Node}
    (h : ∀ plan ∈ plans, Builds [] (build plan) fun node => [node]) :
    Builds [] (plans.mapM build) fun nodes => nodes := by
  induction plans with
  | nil => exact .same rfl
  | cons plan plans ih =>
      rw [List.mapM_cons]
      exact .cons (h plan (by simp)) (ih fun plan hplan => h plan (by simp [hplan]))

/-- One of the nodes in hand takes up the others. What comes back from it is dropped. -/
theorem ofChange {node : Node} {result : Except TreeError Node}
    (h : ∀ node', result = .ok node' → ∃ outs, NodeChange hand outs node node') :
    Builds (hand ++ [node]) (BuildM.ofExcept result) fun node => [node] := by
  refine .ofExcept fun {bench rest node'} ok => ?_
  obtain ⟨outs, change⟩ := h node' ok
  rw [List.append_assoc]
  exact .trans (.single (.change change)) Acts.drop

theorem setBody {node : Node} {body : Body} (unplaced : body.ordinal = 0) :
    Builds [node] (Pure.pure (node.setBody body) : BuildM Node) fun node => [node] :=
  .pure (.single (.setBody unplaced))

end Builds

/-! ## New nodes -/

theorem nextNode_mapM_create (entries : List (String × Value)) (s : Supply) :
    ((entries.mapM fun (key, value) => Annotation.create key value) s).2.nextNode =
      s.nextNode := by
  induction entries generalizing s with
  | nil => rfl
  | cons entry entries ih =>
      rw [List.mapM_cons]
      exact ih { s with nextAnnotation := s.nextAnnotation + 1 }

namespace HeaderPlan

variable (plan : HeaderPlan)

theorem start_builds {body : Body} (unplaced : body.ordinal = 0)
    (binding : Option (Handle × ResolverId)) :
    Builds [] (liftM (plan.start body binding) : BuildM Node) fun node => [node] := by
  refine .lift fun started => ?_
  match binding with
  | some (handle, resolver) => exact .single (.bind trivial unplaced started)
  | none => exact .single (.create unplaced started)

theorem prepare_builds (hand : List Node) :
    Builds hand (liftM plan.prepare : BuildM _) fun _ => hand := by
  refine .lift fun {bench _ _ _} prepared => ?_
  unfold prepare at prepared
  cases hbinding : plan.binding with
  | none =>
      rw [hbinding] at prepared
      obtain ⟨rfl, rfl⟩ := Prod.mk.inj prepared
      exact .refl
  | some binding =>
      rw [hbinding] at prepared
      obtain ⟨rfl, rfl⟩ := Prod.mk.inj prepared
      exact .tail (.single (.resolvers (.handle bench.world.resolution binding.handle)))
        (.resolvers (.declare _ binding.resolver))

theorem finish_builds (node : Node) :
    Builds [node] (liftM (plan.finish node) : BuildM Node) fun node => [node] := by
  refine .lift fun {bench _ _ _} finished => ?_
  obtain ⟨rfl, rfl⟩ := Prod.mk.inj finished
  refine .tail (.single (.forward (Nat.le_of_eq ?_))) (.change (.label node _ _))
  exact (nextNode_mapM_create plan.annotations bench.world.supply).symm

theorem make_builds {body : Body} (unplaced : body.ordinal = 0) :
    Builds [] (liftM (plan.make body) : BuildM Node) fun node => [node] := by
  have steps : (liftM (plan.make body) : BuildM Node) =
      (do
        let binding ← (liftM plan.prepare : BuildM _)
        let node ← (liftM (plan.start body binding) : BuildM Node)
        liftM (plan.finish node)) := rfl
  rw [steps]
  refine (plan.prepare_builds []).bind fun binding => ?_
  refine (plan.start_builds unplaced binding).bind fun node => ?_
  exact plan.finish_builds node

end HeaderPlan

/-! ## Children -/

section Children

variable {node : Node} {made : α → List Node} {role : Role}

theorem Node.attach_builds (role_ne : role ≠ .parameters) (nodes : List Node) :
    Builds (nodes ++ [node]) (node.attach role nodes) fun node => [node] := by
  refine .ofChange fun node' ok => exists_change_of_editList ok fun list list' found edited => ?_
  exact .list role_ne found (ChildList.change_of_addRange edited)

theorem Node.attachType_builds (type? : Option Node) :
    Builds (type?.toList ++ [node]) (node.attachType type?) fun node => [node] := by
  cases type? with
  | none => exact .same rfl
  | some type =>
      refine .ofChange fun node' ok => ?_
      obtain ⟨⟨previous, _⟩, set, rfl⟩ := except_map_eq_ok.mp ok
      exact ⟨previous.toList, change_of_setType set⟩

/-- Children are built and attached before the rest is done. -/
theorem Builds.attach {children : BuildM (List Node)} {next : Node → BuildM α}
    (role_ne : role ≠ .parameters) (hchildren : Builds [] children fun nodes => nodes)
    (rest : ∀ node, Builds [node] (next node) made) :
    Builds [node] (do let node ← node.attach role (← children); next node) made := by
  refine (hchildren.frame [node]).bind fun nodes => ?_
  exact (attach_builds role_ne nodes).bind rest

theorem Builds.attachType {type : BuildM (Option Node)} {next : Node → BuildM α}
    (htype : Builds [] type Option.toList) (rest : ∀ node, Builds [node] (next node) made) :
    Builds [node] (do let node ← node.attachType (← type); next node) made := by
  refine (htype.frame [node]).bind fun type? => ?_
  exact (attachType_builds type?).bind rest

theorem Node.create_builds {body : Body} (unplaced : body.ordinal = 0) (name : String) :
    Builds [] (liftM (World.allocating (create body name)) : BuildM Node) fun node => [node] :=
  HeaderPlan.start_builds { name } unplaced none

theorem Node.generic_builds (name : String) (nodes : List Node) :
    Builds nodes (BuildM.ofAlloc (generic name nodes)) fun node => [node] := by
  have steps : BuildM.ofAlloc (generic name nodes) =
      (do
        let node ← (liftM (World.allocating (create (.typeRef false) name)) : BuildM Node)
        node.attach .typeArgs nodes) := rfl
  rw [steps]
  refine ((create_builds rfl name).frame nodes).bind fun node => ?_
  exact (attach_builds (by decide) nodes).perm List.perm_append_comm

theorem Node.typed_builds (name : String) (type : Node) :
    Builds [type] (BuildM.ofAlloc (typed name type)) fun node => [node] := by
  have steps : BuildM.ofAlloc (typed name type) =
      (do
        let node ← (liftM (World.allocating (create (.parameter {}) name)) : BuildM Node)
        node.attachType (some type)) := rfl
  rw [steps]
  refine ((create_builds rfl name).frame [type]).bind fun node => ?_
  exact (attachType_builds (some type)).perm List.perm_append_comm

end Children

/-! ## Plans -/

theorem AttributePlan.build_builds (plan : AttributePlan) :
    Builds [] plan.build fun node => [node] :=
  (plan.header.make_builds rfl).bind fun _ => .setBody rfl

theorem ExtensionPlan.build_builds (plan : ExtensionPlan) :
    Builds [] plan.build fun node => [node] :=
  plan.header.make_builds rfl

namespace TypeRefPlan

mutual

theorem build_builds : (plan : TypeRefPlan) → Builds [] plan.build fun node => [node]
  | ⟨header, generic, arguments, isNullable⟩ => by
      have rest : ∀ node, Builds [node] (do
          let node ← (liftM (header.finish node) : BuildM Node)
          let node ← node.attach .typeArgs (← buildAll arguments)
          return node.setBody (.typeRef isNullable)) fun node => [node] := fun node =>
        (header.finish_builds node).bind fun node =>
          .attach (by decide) (buildAll_builds arguments) fun node => .setBody rfl
      rw [build]
      refine (header.prepare_builds []).bind fun binding => ?_
      refine (buildGeneric_builds generic).bind fun nodes? => ?_
      cases nodes? with
      | none => exact (header.start_builds rfl binding).bind rest
      | some nodes => exact (generic_builds header.name nodes).bind rest

theorem buildGeneric_builds : (plans? : Option (List TypeRefPlan)) →
    Builds [] (buildGeneric plans?) fun nodes? => nodes?.getD []
  | none => .same rfl
  | some plans => .map (buildAll_builds plans)

theorem buildAll_builds : (plans : List TypeRefPlan) → Builds [] (buildAll plans) fun nodes => nodes
  | [] => .same rfl
  | plan :: plans => .cons (build_builds plan) (buildAll_builds plans)

end

theorem buildOption_builds (plan? : Option TypeRefPlan) :
    Builds [] (buildOption plan?) Option.toList := by
  cases plan? with
  | none => exact .same rfl
  | some plan => exact .map plan.build_builds

end TypeRefPlan

theorem ParameterPlan.build_builds (plan : ParameterPlan) :
    Builds [] plan.build fun node => [node] := by
  have rest : ∀ node, Builds [node] (do
      let node ← (liftM (plan.header.finish node) : BuildM Node)
      let node ← node.attach .attributes (← plan.attributes.mapM AttributePlan.build)
      let node ← node.attachType (← TypeRefPlan.buildOption plan.type)
      return node.setBody (.parameter { modifier := plan.modifier, default := plan.default }))
      fun node => [node] := by
    intro node
    refine (plan.header.finish_builds node).bind fun node => ?_
    refine .attach (by decide) (.mapM fun plan _ => plan.build_builds) fun node => ?_
    exact .attachType (TypeRefPlan.buildOption_builds plan.type) fun node => .setBody rfl
  unfold build
  refine (plan.header.prepare_builds []).bind fun binding => ?_
  refine (TypeRefPlan.buildOption_builds plan.typed).bind fun type? => ?_
  cases type? with
  | none => exact (plan.header.start_builds rfl binding).bind rest
  | some type => exact (typed_builds plan.header.name type).bind rest

/-- A plan for a parameter builds a parameter, whatever else it does. -/
theorem ParameterPlan.build_yields (plan : ParameterPlan) :
    Yields plan.build fun node => node.kind = .parameter := by
  have rest : ∀ node, Yields (do
      let node ← (liftM (plan.header.finish node) : BuildM Node)
      let node ← node.attach .attributes (← plan.attributes.mapM AttributePlan.build)
      let node ← node.attachType (← TypeRefPlan.buildOption plan.type)
      return node.setBody (.parameter { modifier := plan.modifier, default := plan.default }))
      fun node => node.kind = .parameter := by
    intro node
    refine yields_bind fun _ => yields_bind fun _ => yields_bind fun _ => ?_
    exact yields_bind fun _ => yields_bind fun _ => yields_pure rfl
  unfold build
  refine yields_bind fun binding => yields_bind fun type? => ?_
  cases type? with
  | none => exact yields_bind rest
  | some type => exact yields_bind rest

theorem MethodPlan.build_builds (plan : MethodPlan) : Builds [] plan.build fun node => [node] := by
  unfold build
  refine (plan.header.make_builds rfl).bind fun node => ?_
  refine .attach (by decide) (.mapM fun plan _ => plan.build_builds) fun node => ?_
  refine .attachType (TypeRefPlan.buildOption_builds plan.type) fun node => ?_
  have parameters : Builds [] (plan.parameters.mapM ParameterPlan.build) fun nodes => nodes :=
    .mapM fun plan _ => plan.build_builds
  have yields : Yields (plan.parameters.mapM ParameterPlan.build) _ :=
    yields_mapM fun plan _ => plan.build_yields
  refine (parameters.frame [node]).bind_of_yields yields fun nodes kinds => ?_
  refine Builds.bind (.ofChange fun _ ok => exists_change_of_addParameters kinds ok) fun node => ?_
  split
  · exact .setBody rfl
  · exact .same rfl

theorem PropertyPlan.build_builds (plan : PropertyPlan) :
    Builds [] plan.build fun node => [node] := by
  unfold build
  refine (plan.header.make_builds rfl).bind fun node => ?_
  refine .attach (by decide) (.mapM fun plan _ => plan.build_builds) fun node => ?_
  refine .attachType (TypeRefPlan.buildOption_builds plan.type) fun node => ?_
  split
  · exact .setBody rfl
  · exact .same rfl

namespace TypeDeclPlan

mutual

theorem build_builds : (plan : TypeDeclPlan) → Builds [] plan.build fun node => [node]
  | ⟨header, data, attributes, methods, properties, nested, extensions⟩ => by
      rw [build]
      refine (header.make_builds rfl).bind fun node => ?_
      refine .attach (by decide) (.mapM fun plan _ => plan.build_builds) fun node => ?_
      refine .attach (by decide) (.mapM fun plan _ => plan.build_builds) fun node => ?_
      refine .attach (by decide) (.mapM fun plan _ => plan.build_builds) fun node => ?_
      refine .attach (by decide) (buildAll_builds nested) fun node => ?_
      refine .attach (by decide) (.mapM fun plan _ => plan.build_builds) fun node => ?_
      split
      · exact .setBody rfl
      · exact .same rfl

theorem buildAll_builds : (plans : List TypeDeclPlan) →
    Builds [] (buildAll plans) fun nodes => nodes
  | [] => .same rfl
  | plan :: plans => .cons (build_builds plan) (buildAll_builds plans)

end

end TypeDeclPlan

namespace Blueprint

mutual

theorem build_builds : (plan : Blueprint) → Builds [] plan.build fun node => [node]
  | .typeRef plan => plan.build_builds
  | .attribute plan => plan.build_builds
  | .parameter plan => plan.build_builds
  | .method plan => plan.build_builds
  | .property plan => plan.build_builds
  | .typeDecl plan => plan.build_builds
  | .extension plan => plan.build_builds
  | .probe header data attributes type => by
      rw [build]
      refine (header.make_builds rfl).bind fun node => ?_
      refine ((buildAttributes_builds attributes).frame [node]).bind fun attributes => ?_
      refine ((buildType_builds type).frame (attributes.getD [] ++ [node])).bind fun type => ?_
      refine .pure fun {bench rest} => ?_
      rw [List.append_assoc, List.append_assoc]
      exact .single (.hold attributes type)

theorem buildAttributes_builds : (plans? : Option (List Blueprint)) →
    Builds [] (buildAttributes plans?) fun nodes? => nodes?.getD []
  | none => .same rfl
  | some plans => .map (buildAll_builds plans)

theorem buildType_builds : (plan? : Option (Option Blueprint)) →
    Builds [] (buildType plan?) fun type => type.join.toList
  | none => .same rfl
  | some none => .same rfl
  | some (some plan) => .map (build_builds plan)

theorem buildAll_builds : (plans : List Blueprint) → Builds [] (buildAll plans) fun nodes => nodes
  | [] => .same rfl
  | plan :: plans => .cons (build_builds plan) (buildAll_builds plans)

end

end Blueprint

end DeclTree
