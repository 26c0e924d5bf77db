import ControllerHooks.Controllers.Registry
import ControllerHooks.Proofs.Controllers.ContainerSet
import ControllerHooks.Proofs.Controllers.Noop
import ControllerHooks.Proofs.Reconcile.Checks

/-!
# Passes are idempotent

`Controller.reconcile_settles`: a pass on the result of a pass completes, tells nothing and changes
nothing. The result of the first pass is what the second one sees, whichever way it was reached.
-/

namespace ControllerHooks.Controller

theorem mem_all_iff {c : Controller} :
    c ∈ all ↔ c = ContainerSet.controller ∨ c = Noop.controller := by
  simp [all]

theorem noop_ne_containerSet : Noop.controller ≠ ContainerSet.controller := by
  intro same
  have names := congrArg name same
  revert names
  decide

/-- A body leaves its own result alone, its events apart. -/
theorem body_again {c : Controller} (registered : c ∈ all) {s t : State}
    (h : c.reconciler.body s = .ok t) :
    c.reconciler.body { t with events := [] } = .ok { t with events := [] } := by
  rcases mem_all_iff.1 registered with rfl | rfl
  · exact ContainerSet.body_again h
  · exact Noop.body_again h

theorem reconcile_result_again {c : Controller} (registered : c ∈ all) {s out : State}
    (first : c.reconciler.reconcile s = .ok out) :
    c.reconciler.reconcile out = .ok { out with events := [] } := by
  obtain ⟨_, desired, ran, _, rfl⟩ := Reconciler.reconcile_eq_ok_iff.1 first
  have settled := body_again registered ran
  exact Reconciler.reconcile_again first settled

/-- **Idempotence.** When a pass of a registered controller completes, another pass on what it
returned completes too. It tells nothing and changes nothing. -/
theorem reconcile_settles {c : Controller} (registered : c ∈ all) {s out : State}
    (first : c.reconciler.reconcile s = .ok out) :
    ∃ again, c.reconciler.reconcile out = .ok again ∧ again.events = [] ∧
      again.object = out.object ∧ again.dependents = out.dependents ∧
      again.references = out.references ∧ again.requeue = out.requeue ∧
      again.requeueAfter = out.requeueAfter :=
  ⟨_, reconcile_result_again registered first, rfl, rfl, rfl, rfl, rfl, rfl⟩

/-- A container set that has just been admitted. -/
def admitted : State :=
  { State.blank with
    object := { Object.blank with
      metadata := some { Metadata.blank with name := some "web", inNamespace := some "default" }
      spec := some (.object [("image", .string "nginx"), ("replicas", .ofInt 2)]) }
    events := [.warning "Old" "from an earlier pass"] }

/-- Its Deployment is created in the first pass, and found in the second. -/
theorem reconcile_settles_after_creation :
    let created : State := { admitted with
      object := { admitted.object with status := some (.object [("healthyReplicas", .ofInt 0)]) }
      dependents := admitted.dependents.insert ContainerSet.deployments.key
        [ContainerSet.deployment ⟨"web", "default", 2, "nginx"⟩]
      events := [ContainerSet.createdEvent] }
    ContainerSet.reconciler.reconcile admitted = .ok created ∧
      ∃ again, ContainerSet.reconciler.reconcile created = .ok again ∧ again.events = [] ∧
        again.dependents = created.dependents := by
  intro created
  have first : ContainerSet.reconciler.reconcile admitted = .ok created := rfl
  obtain ⟨again, ran, quiet, _, kept, _⟩ :=
    reconcile_settles (c := ContainerSet.controller) (mem_all_iff.2 (.inl rfl)) first
  exact ⟨first, again, ran, quiet, kept⟩

end ControllerHooks.Controller
