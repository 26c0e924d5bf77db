import ControllerHooks.Proofs.Codec.Changes
import ControllerHooks.Proofs.Controllers.Noop

/-!
# Passes on states that are written and read again

A pass leaves a legible state legible, and it does not look at fractions of seconds.

* `ContainerSet.Pass.legible`, `Noop.body_legible`: what is built and changed can be written and
  read again.
* `ContainerSet.Pass.wholeSeconds`, `Noop.body_wholeSeconds`: on a state at whole seconds a pass
  does the same.
-/

namespace ControllerHooks

variable {numbers : Number → Prop} {room : Nat}

/-! ## Container sets -/

namespace ContainerSet

theorem setImage_legible (d : Desired) {v w : Json} {a : Unit}
    (set : setImage d v = some (a, w)) (h : v.Legible numbers room) : w.Legible numbers room := by
  obtain ⟨members, rfl, rfl⟩ := setImage_eq_some.1 set
  cases h.fits with
  | object _ => exact h.insert "image" (Json.legible_string _)

theorem replicasJson_legible [Number.CoversWords numbers] (d : Desired) :
    (replicasJson d).Legible numbers room := by
  have low := d.replicas.le_toInt
  have high := d.replicas.toInt_lt
  exact Json.legible_ofInt (by omega) (by omega)

theorem update_legible [Number.CoversWords numbers] {d : Desired} {observed updated : Object}
    (h : observed.Legible numbers room) (inLine : update d observed = .ok updated) :
    updated.Legible numbers room := by
  obtain ⟨members, spec, opened, changed, rfl⟩ := update_eq_ok_iff.1 inLine
  have whole := (Object.openPart_legible h.spec opened).insert "replicas" (replicasJson_legible d)
  obtain ⟨template, rfl⟩ := modified_spec changed
  refine ⟨h.metadata, ?_, h.status, h.extra⟩
  rintro v ⟨⟩
  exact ⟨by simp, whole.modifyAt? (setImage_legible d) changed⟩

theorem labels_legible (d : Desired) : (labels d).Legible numbers (room + 1) :=
  Json.legible_empty.insert label (Json.legible_string d.name)

theorem deploymentSpec_legible [Number.CoversWords numbers] (d : Desired) :
    (deploymentSpec d).Legible numbers (room + 5) := by
  have container : (container d).Legible numbers (room + 1) :=
    (Json.legible_empty.insert "image" (Json.legible_string d.image)).insert "name"
      (Json.legible_string d.name)
  have containers : (Json.array [ContainerSet.container d]).Legible numbers (room + 2) :=
    ⟨.array (by simp [container.ordered]), .array (by simp [container.fits])⟩
  have selector : (Json.object [("matchLabels", labels d)]).Legible numbers (room + 4) :=
    Json.legible_empty.insert "matchLabels" (labels_legible d)
  have metadata : (Json.object [("labels", labels d)]).Legible numbers (room + 3) :=
    Json.legible_empty.insert "labels" (labels_legible d)
  have spec : (Json.object [("containers", .array [ContainerSet.container d])]).Legible numbers
      (room + 3) := Json.legible_empty.insert "containers" containers
  have template : (Json.object [("metadata", .object [("labels", labels d)]),
      ("spec", .object [("containers", .array [ContainerSet.container d])])]).Legible numbers
      (room + 4) :=
    (Json.legible_empty.insert "metadata" metadata).insert "spec" spec
  exact ((Json.legible_empty.insert "replicas" (replicasJson_legible d)).insert "selector"
    selector).insert "template" template

theorem deployment_legible [Number.CoversWords numbers] (d : Desired) :
    (deployment d).Legible numbers (room + 2) := by
  constructor
  · rintro m ⟨⟩
    exact ⟨by simp [Metadata.blank], by simp [Metadata.blank], by simp [Metadata.blank]⟩
  · rintro v ⟨⟩
    exact ⟨by simp [deploymentSpec], deploymentSpec_legible d⟩
  · simp [deployment, Object.blank]
  · simp [deployment, Object.blank, SortedMap.empty]

theorem available_legible [Number.CoversWords numbers] (o : Object) :
    (Json.ofInt (available o)).Legible numbers room := by
  unfold available
  cases h : (o.statusField "availableReplicas").bind Json.int64? with
  | none => exact Json.legible_ofInt (by decide) (by decide)
  | some n =>
    obtain ⟨v, _, word⟩ := Option.bind_eq_some_iff.1 h
    obtain ⟨low, high⟩ := Json.int64?_range word
    exact Json.legible_ofInt low high

theorem Pass.legible [Number.CoversWords numbers] {s t : State}
    (h : s.Legible numbers (room + 2)) (pass : Pass s t) : t.Legible numbers (room + 2) := by
  have key : ResourceKey.isWellFormed deployments.key.text = true := by decide
  cases pass with
  | @created d _ _ _ inserted =>
    have object := h.object.insertStatus (Json.legible_ofInt (by decide) (by decide)) inserted
    have built : ∀ o ∈ [deployment d], o.Legible numbers (room + 2) := by simp [deployment_legible]
    exact ⟨object, h.dependents.insert key built, h.references⟩
  | @updated _ _ deployed _ _ one updated inserted =>
    have object := h.object.insertStatus (available_legible _) inserted
    have observed := h.dependents.of_objects _ (by rw [one]; exact List.mem_singleton_self _)
    have inLine : ∀ o ∈ [deployed], o.Legible numbers (room + 2) := by
      simp [update_legible observed updated]
    exact ⟨object, h.dependents.insert key inLine, h.references⟩

theorem desired_wholeSeconds (o : Object) : desired o.wholeSeconds = desired o := by
  have spec : o.wholeSeconds.specAs (Payload.read : Reader ContainerSetSpec) =
      o.specAs Payload.read := rfl
  simp [desired, spec, Object.requireName]

theorem update_wholeSeconds {d : Desired} {observed updated : Object}
    (h : update d observed = .ok updated) :
    update d observed.wholeSeconds = .ok updated.wholeSeconds := by
  obtain ⟨members, spec, opened, changed, rfl⟩ := update_eq_ok_iff.1 h
  exact update_eq_ok_iff.2 ⟨members, spec, opened, changed, rfl⟩

theorem Pass.wholeSeconds {s t : State} (pass : Pass s t) : Pass s.wholeSeconds t.wholeSeconds := by
  cases pass with
  | @created d object asked none inserted =>
    have built : (deployment d).wholeSeconds = deployment d := rfl
    have nothing : s.wholeSeconds.dependents.objects deployments.key = [] := by
      simp [State.wholeSeconds, Dependents.objects_wholeSeconds, none]
    have again := Pass.created ((desired_wholeSeconds s.object).trans asked) nothing
      (Object.insertStatus_wholeSeconds inserted)
    simpa [State.wholeSeconds, Dependents.wholeSeconds_insert, built] using again
  | @updated d observed deployed object asked one inLine inserted =>
    have same : s.wholeSeconds.dependents.objects deployments.key = [observed.wholeSeconds] := by
      simp [State.wholeSeconds, Dependents.objects_wholeSeconds, one]
    have again := Pass.updated ((desired_wholeSeconds s.object).trans asked) same
      (update_wholeSeconds inLine) (Object.insertStatus_wholeSeconds inserted)
    simpa [State.wholeSeconds, Dependents.wholeSeconds_insert] using again

end ContainerSet

/-! ## Noop objects -/

namespace Noop

theorem body_legible {s t : State} (h : s.Legible numbers room) (ran : body s = .ok t) :
    t.Legible numbers room := by
  obtain ⟨set, applied⟩ := body_eq_ok_iff.1 ran
  rcases PhaseTracker.apply_eq_ok_iff.1 applied with ⟨_, result⟩ | ⟨_, members, opened, result⟩
  · obtain rfl : t = s := congrArg Prod.fst result
    exact h
  · obtain rfl : t = _ := congrArg Prod.fst result
    have inserted : s.object.insertStatus "phase" (.string tracker.phase) = .ok _ :=
      Object.insertStatus_eq_ok_iff.2 ⟨members, opened, rfl⟩
    exact ⟨h.object.insertStatus (Json.legible_string _) inserted, h.dependents, h.references⟩

theorem body_wholeSeconds {s t : State} (ran : body s = .ok t) :
    body s.wholeSeconds = .ok t.wholeSeconds := by
  obtain ⟨set, applied⟩ := body_eq_ok_iff.1 ran
  refine body_eq_ok_iff.2 ⟨set, PhaseTracker.apply_eq_ok_iff.2 ?_⟩
  rcases PhaseTracker.apply_eq_ok_iff.1 applied with
    ⟨unset, result⟩ | ⟨unset, members, opened, result⟩
  · obtain ⟨rfl, rfl⟩ := Prod.mk.inj result
    exact .inl ⟨unset, rfl⟩
  · obtain ⟨rfl, rfl⟩ := Prod.mk.inj result
    exact .inr ⟨unset, members, opened, rfl⟩

end Noop

end ControllerHooks
