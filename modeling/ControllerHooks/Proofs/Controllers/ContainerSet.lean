import ControllerHooks.Controllers.ContainerSet
import ControllerHooks.Proofs.Json.Paths

/-!
# What a container set does in a pass

* `ContainerSet.desired_eq_ok_iff`: what a parent must say of its Deployment.
* `ContainerSet.body_eq_ok_iff`: a pass creates the Deployment or updates the one it sees, and
  `ContainerSet.Pass` lists all that it changes.
* `ContainerSet.update_again`: a Deployment that is in line with its parent is left alone.
* `ContainerSet.update_over`, `ContainerSet.update_deployment`: an update makes up for what was done
  before it, be it another update or the creation.
-/

namespace ControllerHooks

namespace Object

theorem insertStatus_eq_ok_iff {field : String} {value : Json} {o result : Object} :
    o.insertStatus field value = .ok result ↔
      ∃ members, openPart "status" o.status = .ok members ∧
        result = { o with status := some (.object (Entries.insert field value members)) } := by
  simp only [insertStatus, bind_eq_ok, pure_eq_ok_value, Except.ok.injEq]
  exact exists_congr fun _ => and_congr_right fun _ => eq_comm

/-- A status can be written to when it is absent or an object. -/
theorem exists_insertStatus_iff {field : String} {value : Json} {o : Object} :
    (∃ result, o.insertStatus field value = .ok result) ↔
      o.status = none ∨ ∃ members, o.status = some (.object members) := by
  cases h : o.status with
  | none => simp [insertStatus, openPart, h]
  | some v => cases v <;> simp [insertStatus, openPart, h]

theorem specAs_eq_ok_iff {α : Type} {read : Reader α} {o : Object} {x : α} :
    o.specAs read = .ok (some x) ↔
      ∃ v, o.spec = some v ∧ read (Doc.ofJson .memory v) = .ok x := by
  cases h : o.spec with
  | none => simp [specAs, h]
  | some v => cases typed : read (Doc.ofJson .memory v) <;> simp [specAs, h, typed]

theorem requireName_eq_ok_iff {o : Object} {name : String} :
    o.requireName = .ok name ↔ o.name = some name := by
  cases h : o.name <;> simp [requireName, h]

theorem insertStatus_again {field : String} {value : Json} {o result : Object}
    (h : o.insertStatus field value = .ok result) :
    result.insertStatus field value = .ok result := by
  obtain ⟨members, _, rfl⟩ := insertStatus_eq_ok_iff.1 h
  exact insertStatus_eq_ok_iff.2 ⟨_, rfl, by rw [Entries.insert_over]⟩

end Object

namespace Dependents

theorem objects_insert (deps : Dependents) (key : ResourceKey) (objects : List Object) :
    Dependents.objects (deps.insert key objects) key = objects := by
  simp [Dependents.objects, SortedMap.get?_insert]

theorem slot_eq_absent_iff {deps : Dependents} {key : ResourceKey} :
    deps.slot key = .ok .absent ↔ deps.objects key = [] := by
  rcases h : deps.objects key with _ | ⟨a, _ | ⟨b, rest⟩⟩ <;> simp [slot, h]

theorem slot_eq_present_iff {deps : Dependents} {key : ResourceKey} {object : Object} :
    deps.slot key = .ok (.present object) ↔ deps.objects key = [object] := by
  rcases h : deps.objects key with _ | ⟨a, _ | ⟨b, rest⟩⟩ <;> simp [slot, h]

end Dependents

namespace ContainerSet

/-! ## The Deployment -/

/-- Only an object takes an image. -/
theorem setImage_eq_some {d : Desired} {v w : Json} {a : Unit} :
    setImage d v = some (a, w) ↔ ∃ members, v = .object members ∧
      w = .object (Entries.insert "image" (.string d.image) members) := by
  cases v <;> simp [setImage, eq_comm (a := w)]

theorem setImage_settles (d : Desired) (v : Json) (a : Unit) (w : Json)
    (h : setImage d v = some (a, w)) : setImage d w = some (a, w) := by
  obtain ⟨members, rfl, rfl⟩ := setImage_eq_some.1 h
  exact setImage_eq_some.2 ⟨_, rfl, by rw [Entries.insert_over]⟩

theorem setImage_over (first second : Desired) (v : Json) (a : Unit) (w : Json) (b : Unit)
    (x : Json) (h₁ : setImage first v = some (a, w)) (h₂ : setImage second w = some (b, x)) :
    setImage second v = some (b, x) := by
  obtain ⟨members, rfl, rfl⟩ := setImage_eq_some.1 h₁
  obtain ⟨_, ⟨⟩, rfl⟩ := setImage_eq_some.1 h₂
  exact setImage_eq_some.2 ⟨members, rfl, by rw [Entries.insert_over]⟩

theorem update_eq_ok_iff {d : Desired} {observed updated : Object} :
    update d observed = .ok updated ↔ ∃ members spec,
      Object.openPart "spec" observed.spec = .ok members ∧
      (Json.object (Entries.insert "replicas" (replicasJson d) members)).modifyAt? (setImage d)
        containerPath = some ((), spec) ∧
      updated = { observed with spec := some spec } := by
  simp only [update, bind_eq_ok]
  refine exists_congr fun members => ?_
  cases (Json.object (Entries.insert "replicas" (replicasJson d) members)).modifyAt?
    (setImage d) containerPath with
  | none => simp
  | some result => simp [Prod.ext_iff, eq_comm (a := updated)]

/-- Below the specification only the template is changed. -/
theorem modified_spec {d : Desired} {members : List (String × Json)} {spec : Json}
    (h : (Json.object members).modifyAt? (setImage d) containerPath = some ((), spec)) :
    ∃ template, spec = .object (Entries.insert "template" template members) := by
  obtain ⟨_, template, _, _, rfl⟩ := Json.modifyAt?_cons.1 h
  exact ⟨template, rfl⟩

theorem update_again {d : Desired} {observed updated : Object}
    (h : update d observed = .ok updated) : update d updated = .ok updated := by
  obtain ⟨members, spec, _, changed, rfl⟩ := update_eq_ok_iff.1 h
  obtain ⟨template, rfl⟩ := modified_spec changed
  refine update_eq_ok_iff.2 ⟨_, _, rfl, ?_, rfl⟩
  rw [Entries.insert_comm (by decide), Entries.insert_over]
  exact Json.modifyAt?_again (setImage_settles d) changed

/-- An update makes up for an earlier one. -/
theorem update_over {first second : Desired} {observed between updated : Object}
    (h₁ : update first observed = .ok between) (h₂ : update second between = .ok updated) :
    update second observed = .ok updated := by
  obtain ⟨members, _, opened, changed, rfl⟩ := update_eq_ok_iff.1 h₁
  obtain ⟨old, template, found, inside, rfl⟩ := Json.modifyAt?_cons.1 changed
  obtain ⟨_, spec, opened', again, rfl⟩ := update_eq_ok_iff.1 h₂
  cases opened'
  have beside : "template" ≠ "replicas" := by decide
  rw [← Entries.insert_comm beside, Entries.insert_over] at again
  have stands : (Json.object (Entries.insert "replicas" (replicasJson second) members)).child?
      "template" = some old := by
    rw [← found]
    simp [Json.child?, Entries.find?_insert_of_ne beside]
  have earlier := Json.modifyAt?_cons.2 ⟨old, template, stands, inside, rfl⟩
  exact update_eq_ok_iff.2
    ⟨members, spec, opened, Json.modifyAt?_over (setImage_over first second) earlier again, rfl⟩

/-- Updating what was built for a parent gives what is built for the same parent. -/
theorem update_deployment {first second : Desired} (name : first.name = second.name)
    (inNamespace : first.inNamespace = second.inNamespace) :
    update second (deployment first) = .ok (deployment second) := by
  cases first
  cases second
  cases name
  cases inNamespace
  exact update_eq_ok_iff.2 ⟨_, _, rfl, rfl, rfl⟩

/-! ## The pass -/

/-- What is asked for depends on the specification and on the metadata only. -/
theorem desired_congr {a b : Object} (spec : a.spec = b.spec) (metadata : a.metadata = b.metadata) :
    desired a = desired b := by
  simp [desired, Object.specAs, Object.requireName, Object.name, Object.inNamespace, spec, metadata]

theorem needed_eq_ok_iff {α : Type} {field : String} {x : Option α} {y : α} :
    needed field x = .ok y ↔ x = some y := by
  cases x <;> simp [needed]

/-- A parent asks for a Deployment: it has a name and a namespace, and its specification can be
read and has both of its fields. -/
structure Asks (parent : Object) (d : Desired) : Prop where
  name : parent.name = some d.name
  inNamespace : parent.inNamespace = some d.inNamespace
  spec : ∃ (v : Json) (spec : ContainerSetSpec), parent.spec = some v ∧
    Payload.read (Doc.ofJson .memory v) = .ok spec ∧ spec.replicas = some d.replicas ∧
    spec.image = some d.image

theorem desired_eq_ok_iff {parent : Object} {d : Desired} :
    desired parent = .ok d ↔ Asks parent d := by
  simp only [desired, bind_eq_ok, needed_eq_ok_iff, Object.requireName_eq_ok_iff, pure_eq_ok_value,
    Except.ok.injEq]
  constructor
  · rintro ⟨_, view, spec, rfl, _, name, _, inNamespace, _, replicas, _, image, rfl⟩
    obtain ⟨v, stands, typed⟩ := Object.specAs_eq_ok_iff.1 view
    exact ⟨name, inNamespace, v, spec, stands, typed, replicas, image⟩
  · rintro ⟨name, inNamespace, v, spec, stands, typed, replicas, image⟩
    exact ⟨_, Object.specAs_eq_ok_iff.2 ⟨v, stands, typed⟩, spec, rfl, _, name, _, inNamespace, _,
      replicas, _, image, rfl⟩

/-- A Deployment is named after its parent. -/
theorem identity_of_desired {o : Object} {d : Desired} (h : desired o = .ok d) :
    o.name = some d.name ∧ o.inNamespace = some d.inNamespace :=
  have asks := desired_eq_ok_iff.1 h
  ⟨asks.name, asks.inNamespace⟩

theorem desired_insertStatus {field : String} {value : Json} {o result : Object}
    (h : o.insertStatus field value = .ok result) : desired result = desired o := by
  obtain ⟨members, _, rfl⟩ := Object.insertStatus_eq_ok_iff.1 h
  exact desired_congr rfl rfl

/-- All that a pass may do to a state. -/
inductive Pass (s : State) : State → Prop
  | created {d : Desired} {object : Object} :
      desired s.object = .ok d → s.dependents.objects deployments.key = [] →
      s.object.insertStatus "healthyReplicas" (.ofInt 0) = .ok object →
      Pass s { s with
        object, dependents := s.dependents.insert deployments.key [deployment d]
        events := s.events ++ [createdEvent] }
  | updated {d : Desired} {observed deployed object : Object} :
      desired s.object = .ok d → s.dependents.objects deployments.key = [observed] →
      update d observed = .ok deployed →
      s.object.insertStatus "healthyReplicas" (.ofInt (available observed)) = .ok object →
      Pass s { s with object, dependents := s.dependents.insert deployments.key [deployed] }

theorem available_update {d : Desired} {observed updated : Object}
    (h : update d observed = .ok updated) : available updated = available observed := by
  obtain ⟨_, _, _, _, rfl⟩ := update_eq_ok_iff.1 h
  rfl

theorem body_eq_ok_iff {s t : State} : body s = .ok t ↔ Pass s t := by
  constructor
  · intro h
    simp only [body, bind_eq_ok] at h
    obtain ⟨d, asked, slot, found, h⟩ := h
    cases slot with
    | absent =>
      have none := Dependents.slot_eq_absent_iff.1 found
      simp only [pure_eq_ok_value, ok_bind, bind_eq_ok, Except.ok.injEq] at h
      obtain ⟨object, inserted, rfl⟩ := h
      simpa [Dependents.push, none] using Pass.created asked none inserted
    | present observed =>
      have one := Dependents.slot_eq_present_iff.1 found
      simp only [pure_eq_ok_value, ok_bind, bind_eq_ok, Except.ok.injEq] at h
      obtain ⟨deployed, updated, object, inserted, rfl⟩ := h
      rw [available_update updated] at inserted
      simpa using Pass.updated asked one updated inserted
  · rintro (⟨asked, none, inserted⟩ | ⟨asked, one, updated, inserted⟩)
    · simp [body, asked, Dependents.slot_eq_absent_iff.2 none, inserted, Dependents.push, none]
    · simp [body, asked, Dependents.slot_eq_present_iff.2 one, updated, available_update updated,
        inserted]

/-- With a Deployment in line and the status that goes with it there is nothing to do. -/
theorem body_settled (s : State) {d : Desired} {deployed object : Object} {deps : Dependents}
    (asked : desired s.object = .ok d) (inLine : update d deployed = .ok deployed)
    (inserted : s.object.insertStatus "healthyReplicas" (.ofInt (available deployed)) =
      .ok object) :
    let t : State :=
      { s with object, dependents := deps.insert deployments.key [deployed], events := [] }
    body t = .ok t := by
  intro t
  have still : desired t.object = .ok d := (desired_insertStatus inserted).trans asked
  have one : t.dependents.objects deployments.key = [deployed] := Dependents.objects_insert _ _ _
  have kept : t.object.insertStatus "healthyReplicas" (.ofInt (available deployed)) =
      .ok object := Object.insertStatus_again inserted
  have again := Pass.updated still one inLine kept
  apply body_eq_ok_iff.2
  simpa only [t, SortedMap.insert_over] using again

/-- Seeing its own result, the pass finds the Deployment in place and nothing to do. -/
theorem body_again {s t : State} (h : body s = .ok t) :
    body { t with events := [] } = .ok { t with events := [] } := by
  cases body_eq_ok_iff.1 h with
  | created asked _ inserted => exact body_settled s asked (update_deployment rfl rfl) inserted
  | updated asked _ updated inserted =>
    rw [← available_update updated] at inserted
    exact body_settled s asked (update_again updated) inserted

end ContainerSet

end ControllerHooks
