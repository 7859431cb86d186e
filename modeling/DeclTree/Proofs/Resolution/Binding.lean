import DeclTree.Proofs.Resolution.Trace
import DeclTree.Workbench.Run

/-!
# Binding a single node

A plan for a single node with a binding gets a handle, makes sure that the resolver exists, and then
asks it once, whatever kind of node it makes. Nothing else that the plan does touches the state of
resolution.
-/

namespace DeclTree

open BenchM

/-- The state of resolution stays as it is. -/
def World.Calm (world world' : World) : Prop := world'.resolution = world.resolution

instance : Std.Refl World.Calm := ⟨fun _ => rfl⟩

instance : IsTrans World World.Calm := ⟨fun _ _ _ first second => second.trans first⟩

/-- The plan makes one node, and nothing hangs below it. -/
inductive Blueprint.Single (header : HeaderPlan) : Blueprint → Prop where
  | typeRef (isNullable : Bool) : Single header (.typeRef { header, isNullable })
  | attributeUse (arguments : List Argument) : Single header (.attribute { header, arguments })
  | parameter (modifier : ParameterModifier) (default : Option Value) :
      Single header (.parameter { header, modifier, default })
  | method (access : Option AccessModifier) (modifiers : Option Modifiers) (isExtension : Bool) :
      Single header (.method { header, access, modifiers, isExtension })
  | property (access : Option AccessModifier) (modifiers : Option Modifiers)
      (accessors : Option (Bool × Bool)) :
      Single header (.property { header, access, modifiers, accessors })
  | typeDecl (data : TypeDeclDataPlan) : Single header (.typeDecl { header, data })
  | extension (payload : Payload) : Single header (.extension { header, payload })
  | probe (data : ProbeData) : Single header (.probe header data none none)

theorem outcome_lift_bind {ε σ α β : Type} (run : StateM σ α)
    (next : α → ExceptT ε (StateM σ) β) (s : σ) :
    outcome (liftM run >>= next) s = outcome (next (run s).1) (run s).2 := rfl

theorem ofExcept_calm {α : Type} (result : Except TreeError α) :
    Moves World.Calm (BuildM.ofExcept result) :=
  fun _ => rfl

/-- Children are built and attached before the rest is done. -/
theorem attach_calm {α : Type} {node : Node} {role : Role} {children : BuildM (List Node)}
    {next : Node → BuildM α} (first : Moves World.Calm children)
    (rest : ∀ node, Moves World.Calm (next node)) :
    Moves World.Calm (do next (← node.attach role (← children))) :=
  moves_bind first fun _ => moves_bind (ofExcept_calm _) rest

theorem attachNoType_calm {α : Type} {node : Node} {next : Node → BuildM α}
    (rest : ∀ node, Moves World.Calm (next node)) :
    Moves World.Calm (do next (← node.attachType (← TypeRefPlan.buildOption none))) :=
  rest node

/-! ## The one request -/

/-- The world in which the handle is there and the resolver exists. -/
def BindingPlan.prepared (plan : BindingPlan) (world : World) : World :=
  { world with resolution := (plan.handle.realize world.resolution).2.declare plan.resolver }

/-- What a single bound node does to the state of resolution. -/
structure BindingPlan.Asks (plan : BindingPlan) (world : World) (header : Header)
    (state : Resolution) : Prop where
  id : header.id = ⟨world.supply.nextNode⟩
  handle : header.handle = (plan.handle.realize world.resolution).1
  resolver : header.resolver = some plan.resolver
  after : state = (plan.prepared world).resolution.request plan.resolver header
  calls : ∀ id, state.calls id = world.resolution.calls id + if id = plan.resolver then 1 else 0

theorem BindingPlan.unkept_prepared (plan : BindingPlan) {world : World} (unkept : world.Unkept) :
    (plan.prepared world).Unkept := by
  intro id late
  have same : (plan.prepared world).resolution.cache = world.resolution.cache :=
    (ResolverChange.declare _ plan.resolver).cache.trans
      (ResolverChange.handle world.resolution plan.handle).cache
  rw [same]
  exact unkept id late

theorem BindingPlan.calls_prepared (plan : BindingPlan) (world : World) (id : ResolverId) :
    (plan.prepared world).resolution.calls id = world.resolution.calls id :=
  ((ResolverChange.declare _ plan.resolver).calls id).trans
    ((ResolverChange.handle world.resolution plan.handle).calls id)

namespace HeaderPlan

variable {plan : HeaderPlan} {binding : BindingPlan}

theorem make_of_binding (bound : plan.binding = some binding) (body : Body) (world : World) :
    plan.make body world =
      let (node, world') := Node.bind body (binding.handle.realize world.resolution).1
        binding.resolver (binding.prepared world)
      plan.finish node world' := by
  have ready : plan.prepare world = (some ((binding.handle.realize world.resolution).1,
      binding.resolver), binding.prepared world) := by
    unfold prepare
    rw [bound]
    rfl
  change plan.finish (plan.start body (plan.prepare world).1 (plan.prepare world).2).1
    (plan.start body (plan.prepare world).1 (plan.prepare world).2).2 = _
  rw [ready]
  rfl

/-- A node is made by a header plan, and what follows leaves the state of resolution alone. -/
theorem asks_of_calm {α : Type} (bound : plan.binding = some binding) (body : Body)
    {rest : Node → BuildM α} (calm : ∀ node, Moves World.Calm (rest node)) {world : World}
    (unkept : world.Unkept) :
    ∃ header, binding.Asks world header
      (outcome (liftM (plan.make body) >>= rest) world).2.resolution := by
  rcases made : Node.bind body (binding.handle.realize world.resolution).1 binding.resolver
    (binding.prepared world) with ⟨node, world'⟩
  obtain ⟨handle, resolver, state⟩ :=
    Node.request_of_bind (binding.unkept_prepared unkept) made
  have finished : plan.make body world = plan.finish node world' := by
    rw [make_of_binding bound, made]
  have after : (outcome (liftM (plan.make body) >>= rest) world).2.resolution =
      (binding.prepared world).resolution.request binding.resolver node.header := by
    rw [← state, outcome_lift_bind, finished]
    exact calm _ _
  refine ⟨node.header, (Node.isNew_bind made).id, handle, resolver, after, fun id => ?_⟩
  rw [after, Resolution.calls_request, binding.calls_prepared]

end HeaderPlan

/-- A single node with a binding asks its resolver once. -/
theorem Blueprint.Single.asks {header : HeaderPlan} {binding : BindingPlan} {plan : Blueprint}
    (single : plan.Single header) (bound : header.binding = some binding) {world : World}
    (unkept : world.Unkept) :
    ∃ made, binding.Asks world made (outcome plan.build world).2.resolution := by
  cases single with
  | typeRef isNullable =>
      have steps : outcome (Blueprint.build (.typeRef { header, isNullable })) world =
          outcome (do
            let node ← (liftM (header.make (.typeRef false)) : BuildM Node)
            let node ← node.attach .typeArgs []
            return node.setBody (.typeRef isNullable)) world := rfl
      rw [steps]
      refine HeaderPlan.asks_of_calm bound (.typeRef false) (fun node => ?_) unkept
      exact moves_bind (ofExcept_calm _) fun node => moves_pure _
  | attributeUse arguments =>
      rw [Blueprint.build, AttributePlan.build]
      exact HeaderPlan.asks_of_calm bound (.attribute []) (fun node => moves_pure _) unkept
  | parameter modifier default =>
      have steps : outcome (Blueprint.build (.parameter { header, modifier, default })) world =
          outcome (do
            let node ← (liftM (header.make (.parameter {})) : BuildM Node)
            let node ← node.attach .attributes []
            return node.setBody (.parameter { modifier, default })) world := rfl
      rw [steps]
      refine HeaderPlan.asks_of_calm bound (.parameter {}) (fun node => ?_) unkept
      exact moves_bind (ofExcept_calm _) fun node => moves_pure _
  | method access modifiers isExtension =>
      rw [Blueprint.build, MethodPlan.build]
      refine HeaderPlan.asks_of_calm bound (.method {}) (fun node => ?_) unkept
      refine attach_calm (moves_pure _) fun node => attachNoType_calm fun node => ?_
      refine moves_bind (moves_pure _) fun parameters => ?_
      refine moves_bind (ofExcept_calm _) fun node => ?_
      split <;> exact moves_pure _
  | property access modifiers accessors =>
      rw [Blueprint.build, PropertyPlan.build]
      refine HeaderPlan.asks_of_calm bound (.property {}) (fun node => ?_) unkept
      refine attach_calm (moves_pure _) fun node => attachNoType_calm fun node => ?_
      split <;> exact moves_pure _
  | typeDecl data =>
      rw [Blueprint.build, TypeDeclPlan.build]
      refine HeaderPlan.asks_of_calm bound (.typeDecl {}) (fun node => ?_) unkept
      refine attach_calm (moves_pure _) fun node => ?_
      refine attach_calm (moves_pure _) fun node => ?_
      refine attach_calm (moves_pure _) fun node => ?_
      refine attach_calm (moves_pure _) fun node => ?_
      refine attach_calm (moves_pure _) fun node => ?_
      split <;> exact moves_pure _
  | extension payload =>
      rw [Blueprint.build, ExtensionPlan.build]
      exact HeaderPlan.asks_of_calm bound (.extension payload) (fun node => moves_pure _) unkept
  | probe data =>
      rw [Blueprint.build]
      exact HeaderPlan.asks_of_calm bound (.probe data) (fun node => moves_pure _) unkept

/-- Nothing that a step of building does after the tree is built touches the state of resolution. -/
theorem Workbench.resolution_step_build (bench : Workbench) (plan : Blueprint) (target : String) :
    (bench.step (.node (.build plan target))).2.world.resolution =
      (outcome plan.build bench.world).2.resolution := by
  change (outcome (building plan.build >>= _) bench).2.world.resolution = _
  have built : outcome (building plan.build) bench =
      ((outcome plan.build bench.world).1.mapError .tree,
        bench.withWorld (outcome plan.build bench.world).2) := rfl
  rw [outcome_bind, built]
  cases (outcome plan.build bench.world).1 <;> rfl

end DeclTree
