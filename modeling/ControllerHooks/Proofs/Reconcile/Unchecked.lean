import ControllerHooks.Proofs.Reconcile.Idempotence

/-!
# What the checks of a pass do not look at

The checks before and after a body look at the parent and its dependents. References and hints for
the next pass are not among them, so a pass hands on what its body leaves of them.

* `Reconciler.reconcile_map`: a pass does not notice a change to what the checks do not look at.
* `Reconciler.RunOf.keeps`: what every body keeps, a run of any length keeps.
* `Reconciler.references_follow_the_body`: references are what the body makes of them, and other
  references in their place are accepted just the same.
* `Reconciler.hints_are_echoed`: the hints of a request come back with the response when the body
  sets none; events do not.
-/

namespace ControllerHooks

namespace State

/-- When the next pass is wished for. -/
def hints (s : State) : Bool × Option UInt64 := (s.requeue, s.requeueAfter)

def withHints (hints : Bool × Option UInt64) (s : State) : State :=
  { s with requeue := hints.1, requeueAfter := hints.2 }

def withReferences (references : Dependents) (s : State) : State := { s with references }

/-- The parent and its dependents alone. -/
def bare (s : State) : State := { blank with object := s.object, dependents := s.dependents }

/-- A change to a state that no check looks at, and that is the same whatever the events are. -/
structure Unchecked (f : State → State) : Prop where
  object : ∀ s, (f s).object = s.object
  dependents : ∀ s, (f s).dependents = s.dependents
  filter : ∀ s, { f s with events := (f s).events.filter Event.isComplete } =
    f { s with events := s.events.filter Event.isComplete }

theorem unchecked_withReferences (references : Dependents) :
    Unchecked (withReferences references) :=
  ⟨fun _ => rfl, fun _ => rfl, fun _ => rfl⟩

theorem unchecked_withHints (hints : Bool × Option UInt64) : Unchecked (withHints hints) :=
  ⟨fun _ => rfl, fun _ => rfl, fun _ => rfl⟩

/-- A transition is told by the two parents and by the dependents that are desired. -/
theorem checkTransition_congr {decls : List DependentDecl} {s s' t t' : State}
    (parent : s'.object = s.object) (object : t'.object = t.object)
    (dependents : t'.dependents = t.dependents) :
    s'.checkTransition t' decls = s.checkTransition t decls := by
  simp only [checkTransition, parent, object, dependents]

end State

namespace Reconciler

open State (Unchecked)

/-- A change that no check looks at goes through a pass: the pass faults as before, or returns
the changed state. -/
theorem reconcile_map {f : State → State} (unchecked : Unchecked f) {r r' : Reconciler}
    {s s' : State} (declared : r'.dependents = r.dependents) (parent : s'.object = s.object)
    (dependents : s'.dependents = s.dependents)
    (ran : r'.body { s' with events := [] } = (r.body { s with events := [] }).map f) :
    r'.reconcile s' = (r.reconcile s).map f := by
  rw [reconcile, reconcile, ran, dependents, declared]
  cases s.dependents.check r.dependents with
  | error fault => rfl
  | ok _ =>
    cases r.body { s with events := [] } with
    | error fault => rfl
    | ok t =>
      have checks : s'.checkTransition (f t) r.dependents = s.checkTransition t r.dependents :=
        State.checkTransition_congr parent (unchecked.object t) (unchecked.dependents t)
      simp only [ok_map, ok_bind, checks]
      cases s.checkTransition t r.dependents with
      | error fault => rfl
      | ok _ => exact congrArg Except.ok (unchecked.filter t)

/-- The events of a request make no difference. -/
theorem reconcile_events (r : Reconciler) (s : State) (events : List Event) :
    r.reconcile { s with events } = r.reconcile s := rfl

/-! ## What bodies keep -/

variable {α : Type} {f : State → α}

/-- The body leaves a part of the state as it finds it. -/
def Keeps (r : Reconciler) (f : State → α) : Prop := ∀ s t, r.body s = .ok t → f t = f s

/-- The body does not look at a part of the state that is changed: it makes of the changed state
what it makes of the state itself, changed. -/
def Ignores (r : Reconciler) (f : State → State) : Prop := ∀ s, r.body (f s) = (r.body s).map f

/-- A part of the state that has nothing to do with events. -/
def Eventless (f : State → α) : Prop := ∀ s events, f { s with events } = f s

theorem reconcile_keeps {r : Reconciler} {s out : State} (eventless : Eventless f)
    (keeps : r.Keeps f) (pass : r.reconcile s = .ok out) : f out = f s := by
  obtain ⟨_, left, ran, _, rfl⟩ := reconcile_eq_ok_iff.1 pass
  calc f { left with events := left.events.filter Event.isComplete }
      = f left := eventless left _
    _ = f { s with events := [] } := keeps _ _ ran
    _ = f s := eventless s _

/-- Passes one after another, each given what the one before returned, of reconcilers of some
kind. -/
inductive RunOf (kind : Reconciler → Prop) : State → State → Prop
  | nothing (s : State) : RunOf kind s s
  | next {r : Reconciler} {s t u : State} :
      RunOf kind s t → kind r → r.reconcile t = .ok u → RunOf kind s u

theorem RunOf.keeps {s out : State} (eventless : Eventless f)
    (run : RunOf (fun r => r.Keeps f) s out) : f out = f s := by
  induction run with
  | nothing => rfl
  | next _ keeps pass ih => exact (reconcile_keeps eventless keeps pass).trans ih

/-- The parent and its dependents tell what the body makes of them, and of the rest it adds events
only. -/
def IsLocal (r : Reconciler) : Prop :=
  ∀ s : State, r.body s = (r.body s.bare).map fun t =>
    { s with object := t.object, dependents := t.dependents, events := s.events ++ t.events }

theorem IsLocal.keeps {r : Reconciler} (h : r.IsLocal)
    (same : ∀ (s : State) object dependents events, f { s with object, dependents, events } = f s) :
    r.Keeps f := by
  intro s t ran
  rw [h s] at ran
  obtain ⟨_, _, rfl⟩ := map_eq_ok.1 ran
  exact same s _ _ _

theorem IsLocal.ignores_hints {r : Reconciler} (h : r.IsLocal) (hints : Bool × Option UInt64) :
    r.Ignores (State.withHints hints) := by
  intro s
  have bare : (s.withHints hints).bare = s.bare := rfl
  rw [h s, h (s.withHints hints), bare]
  cases r.body s.bare <;> rfl

end Reconciler

/-! ## The registered controllers -/

theorem ContainerSet.isLocal : reconciler.IsLocal := by
  intro s
  simp only [reconciler, body, State.bare]
  cases desired s.object with
  | error fault => rfl
  | ok d =>
    cases s.dependents.slot deployments.key with
    | error fault => rfl
    | ok slot =>
      cases slot with
      | absent =>
        simp only [ok_bind, pure_eq_ok_value]
        cases s.object.insertStatus "healthyReplicas" (.ofInt 0) <;> rfl
      | present observed =>
        simp only [ok_bind, pure_eq_ok_value]
        cases update d observed with
        | error fault => rfl
        | ok updated =>
          simp only [ok_bind]
          cases s.object.insertStatus "healthyReplicas" (.ofInt (available updated)) <;> rfl

theorem Noop.isLocal : reconciler.IsLocal := by
  intro s
  simp only [reconciler, body, PhaseTracker.apply, State.bare]
  split
  · cases s.object.insertStatus "phase" (.string tracker.phase) <;> rfl
  · simp [State.blank]

theorem Controller.isLocal {c : Controller} (registered : c ∈ all) : c.reconciler.IsLocal := by
  rcases mem_all_iff.1 registered with rfl | rfl
  · exact ContainerSet.isLocal
  · exact Noop.isLocal

namespace Reconciler

/-! ## References -/

/-- The reconciler that puts these references in the place of those that the body leaves. -/
def referringTo (references : Dependents) (r : Reconciler) : Reconciler :=
  { r with body := fun s => (r.body s).map (State.withReferences references) }

/-- **References follow the body.** A pass that completes returns the references of the request
exactly when its body leaves them there; when a body puts others in their place the pass faults as
it would without, or returns the others. So they are those of the request after any passes whose
bodies keep them, as those of the registered controllers do. -/
theorem references_follow_the_body (r : Reconciler) (s : State) :
    (∀ out, r.reconcile s = .ok out → (out.references = s.references ↔
      ∃ left, r.body { s with events := [] } = .ok left ∧ left.references = s.references)) ∧
    (∀ references, (r.referringTo references).reconcile s =
      (r.reconcile s).map (State.withReferences references)) ∧
    (∀ out, RunOf (fun q => q.Keeps State.references) s out → out.references = s.references) ∧
    ∀ c ∈ Controller.all, c.reconciler.Keeps State.references := by
  refine ⟨?_, ?_, ?_, ?_⟩
  · intro out pass
    obtain ⟨_, left, ran, _, rfl⟩ := reconcile_eq_ok_iff.1 pass
    constructor
    · intro same
      exact ⟨left, ran, same⟩
    · rintro ⟨left', ran', same⟩
      obtain rfl := Except.ok.inj (ran.symm.trans ran')
      exact same
  · intro references
    exact reconcile_map (State.unchecked_withReferences references) rfl rfl rfl rfl
  · intro out run
    exact run.keeps fun _ _ => rfl
  · intro c registered
    exact (Controller.isLocal registered).keeps fun _ _ _ _ => rfl

/-- A container set that refers to a Service and wishes for a pass in half a minute. -/
def referring : State :=
  { Controller.admitted with
    references := SortedMap.empty.insert ⟨"service.v1"⟩
      [{ Object.blank with apiVersion := "v1", kind := "Service" }]
    requeueAfter := some 30 }

/-- Two passes return the reference, and the same passes with a body that drops it return none. -/
theorem references_follow_the_body_over_two_passes :
    ∃ first out : State, ContainerSet.reconciler.reconcile referring = .ok first ∧
      ContainerSet.reconciler.reconcile first = .ok out ∧
      out.references = referring.references ∧
      (ContainerSet.reconciler.referringTo .empty).reconcile first =
        .ok (out.withReferences .empty) := by
  obtain ⟨first, out, created, kept⟩ : ∃ first out,
      ContainerSet.reconciler.reconcile referring = .ok first ∧
        ContainerSet.reconciler.reconcile first = .ok out := ⟨_, _, rfl, rfl⟩
  obtain ⟨_, _, runs, controllers⟩ :=
    references_follow_the_body ContainerSet.reconciler referring
  obtain ⟨_, replaced, _⟩ := references_follow_the_body ContainerSet.reconciler first
  have keeps := controllers ContainerSet.controller (Controller.mem_all_iff.2 (.inl rfl))
  have run : RunOf (fun r => r.Keeps State.references) referring out :=
    .next (.next (.nothing _) keeps created) keeps kept
  refine ⟨first, out, created, kept, runs _ run, ?_⟩
  rw [replaced, kept]
  rfl

/-- A body that drops all references goes through: no check compares them with the request's. -/
theorem lost_references_are_accepted :
    let drops : Reconciler := ⟨[], fun s => .ok { s with references := .empty }⟩
    let observed : State := { State.blank with references := referring.references }
    observed.checkTransition { observed with references := .empty } drops.dependents = .ok () ∧
      ∃ out, drops.reconcile observed = .ok out ∧ out.references ≠ observed.references := by
  intro drops observed
  refine ⟨rfl, State.blank, rfl, ?_⟩
  decide

/-! ## Hints -/

/-- **Hints are echoed.** The events of a request make no difference to a pass. Its hints for the
next pass do: a pass whose body sets none returns none exactly when none were given, and after any
such passes the hints are those of the first request; a body that does not look at them makes the
same of two requests that differ in them, but for the hints themselves. The registered controllers
have such bodies. -/
theorem hints_are_echoed (r : Reconciler) (s : State) :
    (∀ events, r.reconcile { s with events } = r.reconcile s) ∧
    (r.Keeps State.hints → ∀ out, r.reconcile s = .ok out →
      (out.requeue = false ∧ out.requeueAfter = none ↔
        s.requeue = false ∧ s.requeueAfter = none)) ∧
    (∀ out, RunOf (fun q => q.Keeps State.hints) s out → out.hints = s.hints) ∧
    (∀ hints, r.Ignores (State.withHints hints) →
      r.reconcile (s.withHints hints) = (r.reconcile s).map (State.withHints hints)) ∧
    ∀ c ∈ Controller.all, c.reconciler.Keeps State.hints ∧
      ∀ hints, c.reconciler.Ignores (State.withHints hints) := by
  refine ⟨reconcile_events r s, ?_, ?_, ?_, ?_⟩
  · intro keeps out pass
    have same : out.hints = s.hints := reconcile_keeps (fun _ _ => rfl) keeps pass
    obtain ⟨requeue, requeueAfter⟩ := Prod.mk.inj same
    rw [requeue, requeueAfter]
  · intro out run
    exact run.keeps fun _ _ => rfl
  · intro hints ignores
    exact reconcile_map (State.unchecked_withHints hints) rfl rfl rfl
      (ignores { s with events := [] })
  · intro c registered
    have isLocal := Controller.isLocal registered
    exact ⟨isLocal.keeps fun _ _ _ _ => rfl, isLocal.ignores_hints⟩

/-- A hint is still there after two passes. -/
theorem hints_are_echoed_over_two_passes :
    ∃ first out : State, ContainerSet.reconciler.reconcile referring = .ok first ∧
      ContainerSet.reconciler.reconcile first = .ok out ∧ out.hints = (false, some 30) ∧
      ContainerSet.reconciler.reconcile (first.withHints (true, none)) =
        .ok (out.withHints (true, none)) := by
  obtain ⟨first, out, created, kept⟩ : ∃ first out,
      ContainerSet.reconciler.reconcile referring = .ok first ∧
        ContainerSet.reconciler.reconcile first = .ok out := ⟨_, _, rfl, rfl⟩
  obtain ⟨_, _, runs, _, controllers⟩ := hints_are_echoed ContainerSet.reconciler referring
  obtain ⟨_, _, _, changed, _⟩ := hints_are_echoed ContainerSet.reconciler first
  obtain ⟨keeps, ignores⟩ :=
    controllers ContainerSet.controller (Controller.mem_all_iff.2 (.inl rfl))
  have run : RunOf (fun r => r.Keeps State.hints) referring out :=
    .next (.next (.nothing _) keeps created) keeps kept
  refine ⟨first, out, created, kept, runs _ run, ?_⟩
  rw [changed _ (ignores _), kept]
  rfl

/-- Hints that no body has set are in the response to a request that carried them, and not in the
response to the same request without them. -/
theorem hints_of_a_request_are_not_cleared :
    let hinted := State.blank.withHints (true, some 5)
    Noop.reconciler.Keeps State.hints ∧
      (∃ out, Noop.reconciler.reconcile hinted = .ok out ∧ out.requeue = true ∧
        out.requeueAfter = some 5) ∧
      ∃ out, Noop.reconciler.reconcile State.blank = .ok out ∧ out.requeue = false ∧
        out.requeueAfter = none :=
  ⟨Noop.isLocal.keeps fun _ _ _ _ => rfl, ⟨_, rfl, rfl, rfl⟩, ⟨_, rfl, rfl, rfl⟩⟩

end Reconciler

end ControllerHooks
