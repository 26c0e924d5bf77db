import ControllerHooks.Proofs.Reconcile.Admitted
import ControllerHooks.Proofs.Reconcile.Plans

/-!
# When a pass over a container set completes

The conditions are spread over the checks before and after the body, the typed view of the
specification, the place of the Deployment and the walk to its container. Here they are in one
place.

* `ContainerSet.HasContainer`: what an observed Deployment must have for an update.
* `ContainerSet.reconcile_completes_iff`: a pass completes exactly where `ContainerSet.Completes`
  holds, and what it creates is determined by the parent.
-/

namespace ControllerHooks.ContainerSet

/-! ## What is observed -/

/-- The place where an update puts the image: the first container of the pod template. -/
def HasContainer (observed : Object) : Prop :=
  ∃ members template container, observed.spec = some (.object members) ∧
    Entries.find? "template" members = some template ∧
    template.at? ["spec", "containers", "0"] = some (.object container)

theorem exists_update_iff {d : Desired} {observed : Object} :
    (∃ updated, update d observed = .ok updated) ↔ HasContainer observed := by
  constructor
  · rintro ⟨_, h⟩
    obtain ⟨members, _, opened, changed, rfl⟩ := update_eq_ok_iff.1 h
    obtain ⟨template, _, found, inside, _⟩ := Json.modifyAt?_cons.1 changed
    have stands : Entries.find? "template" members = some template := by
      rw [← found]
      exact (Entries.find?_insert_of_ne (by decide) _ _).symm
    obtain ⟨v, _, _, here, set⟩ := Json.exists_modifyAt?_iff.1 ⟨_, _, inside⟩
    obtain ⟨container, rfl, _⟩ := setImage_eq_some.1 set
    rcases Object.openPart_eq_ok opened with ⟨_, rfl⟩ | spec
    · cases stands
    · exact ⟨members, template, container, spec, stands, here⟩
  · rintro ⟨members, template, container, spec, stands, here⟩
    have set : setImage d (.object container) = some ((), _) :=
      setImage_eq_some.2 ⟨container, rfl, rfl⟩
    obtain ⟨b, child, inside⟩ := Json.exists_modifyAt?_iff.2 ⟨_, (), _, here, set⟩
    have found : (Json.object (Entries.insert "replicas" (replicasJson d) members)).child?
        "template" = some template := by
      rw [← stands]
      exact Entries.find?_insert_of_ne (by decide) _ _
    have opened : Object.openPart "spec" observed.spec = .ok members := by rw [spec]; rfl
    exact ⟨_, update_eq_ok_iff.2
      ⟨members, _, opened, Json.modifyAt?_cons.2 ⟨template, child, found, inside, rfl⟩, rfl⟩⟩

/-- The boundary lets in Deployments alone, and one at most. -/
theorem permitted_iff {deps : Dependents} :
    deps.Permitted reconciler.dependents ↔
      ∀ e ∈ deps.entries, e.1 = ⟨"deployment.v1.apps"⟩ ∧ e.2.length ≤ 1 := by
  have key : (deployments.declare .one).key = ⟨"deployment.v1.apps"⟩ := by decide
  have arity : (deployments.declare .one).arity = .one := rfl
  rw [reconciler, Dependents.permitted_singleton_iff, key, arity]
  simp

theorem unobserved_of_permitted {deps : Dependents}
    (permitted : deps.Permitted reconciler.dependents)
    (none : deps.objects deployments.key = []) : Unobserved deps := by
  rcases Dependents.entries_of_permitted permitted with nothing | ⟨objects, one⟩
  · exact .inl (SortedMap.ext nothing)
  · have empty : objects = [] :=
      Dependents.entries_of_none permitted none (_, objects) (by rw [one]; exact List.mem_cons_self)
    rw [empty] at one
    exact .inr (SortedMap.ext one)

/-! ## The pass -/

/-- What a pass over a state needs, where the parent asks for this Deployment. -/
structure Completes (s : State) (d : Desired) : Prop where
  dependents : ∀ e ∈ s.dependents.entries, e.1 = ⟨"deployment.v1.apps"⟩ ∧ e.2.length ≤ 1
  asks : Asks s.object d
  status : s.object.status = none ∨ ∃ members, s.object.status = some (.object members)
  /-- A Deployment is created under the parent's name, which must not be empty then; one that is
  observed has a name of its own. -/
  deployment : Unobserved s.dependents ∧ d.name ≠ "" ∨
    ∃ observed, s.dependents.objects deployments.key = [observed] ∧
      Object.BelongsTo s.object deployments.key observed ∧ HasContainer observed

theorem completes_of_reconcile {s out : State} (pass : reconciler.reconcile s = .ok out) :
    ∃ d, Completes s d := by
  obtain ⟨permitted, after, ran, allowed, -⟩ := Reconciler.reconcile_eq_ok_iff.1 pass
  have dependents := permitted_iff.1 permitted
  cases body_eq_ok_iff.1 ran with
  | @created d _ asked none inserted =>
    -- The name that the last check asks for is the parent's.
    obtain ⟨_, _, ⟨name, named, nonempty⟩, _⟩ :=
      (State.allows_insert_iff permitted rfl).1 allowed
    refine ⟨d, dependents, desired_eq_ok_iff.1 asked,
      Object.exists_insertStatus_iff.1 ⟨_, inserted⟩,
      .inl ⟨unobserved_of_permitted permitted none, ?_⟩⟩
    cases named
    exact nonempty
  | @updated d observed deployed _ asked one updated inserted =>
    obtain ⟨identity, key, name, place⟩ := (State.allows_insert_iff permitted rfl).1 allowed
    refine ⟨d, dependents, desired_eq_ok_iff.1 asked,
      Object.exists_insertStatus_iff.1 ⟨_, inserted⟩,
      .inr ⟨observed, one, ?_, exists_update_iff.1 ⟨_, updated⟩⟩⟩
    -- An update keeps the type and the metadata, so what is checked of its result was so before.
    obtain ⟨_, _, _, _, rfl⟩ := update_eq_ok_iff.1 updated
    exact ⟨key, name, place.trans identity.inNamespace⟩

theorem reconcile_of_completes {s : State} {d : Desired} (h : Completes s d) :
    ∃ out, reconciler.reconcile s = .ok out := by
  have asked := desired_eq_ok_iff.2 h.asks
  rcases h.deployment with ⟨unobserved, named⟩ | ⟨observed, one, belongs, container⟩
  · obtain ⟨object, inserted⟩ := Object.exists_insertStatus_iff.2 h.status
    exact ⟨_, reconcile_unobserved unobserved asked named inserted⟩
  · obtain ⟨deployed, updated⟩ := (exists_update_iff (d := d)).2 container
    obtain ⟨object, inserted⟩ := Object.exists_insertStatus_iff.2 h.status
    obtain ⟨_, _, same⟩ := Object.insertStatus_eq_ok_iff.1 inserted
    have permitted := permitted_iff.2 h.dependents
    have ran := Pass.updated (s := { s with events := [] }) asked one updated inserted
    refine ⟨_, Reconciler.reconcile_eq_ok_iff.2 ⟨permitted, _, body_eq_ok_iff.2 ran,
      (State.allows_insert_iff permitted rfl).2 ?_, rfl⟩⟩
    obtain ⟨_, _, _, _, rfl⟩ := update_eq_ok_iff.1 updated
    rw [same]
    exact ⟨⟨rfl, rfl, rfl, rfl⟩, belongs.key, belongs.name, belongs.inNamespace⟩

/-! ## What is created -/

/-- The Deployment that a parent asks for, member by member. -/
def deploymentMembers (d : Desired) : List (String × Json) :=
  let labels : Json := .object [("containerset", .string d.name)]
  [("apiVersion", .string "apps/v1"), ("kind", .string "Deployment"),
    ("metadata", .object [("name", .string d.name), ("namespace", .string d.inNamespace)]),
    ("spec", .object
      [("replicas", .ofInt d.replicas.toInt),
        ("selector", .object [("matchLabels", labels)]),
        ("template", .object
          [("metadata", .object [("labels", labels)]),
            ("spec", .object [("containers", .array
              [.object [("image", .string d.image), ("name", .string d.name)]])])])])]

theorem members_deployment (d : Desired) : (deployment d).members = deploymentMembers d := by
  have apiVersion : Object.textMember "apiVersion" deployments.apiVersion =
      [("apiVersion", .string "apps/v1")] := by decide
  have kind : Object.textMember "kind" deployments.kind = [("kind", .string "Deployment")] := by
    decide
  simp only [deployment, Object.members, apiVersion, kind]
  rfl

theorem toValue_deployment (d : Desired) :
    (deployment d).toValue = .object (deploymentMembers d) := by
  have sorted : Entries.Sorted (deploymentMembers d) :=
    Entries.sorted_of_keys ["apiVersion", "kind", "metadata", "spec"] (List.Sublist.refl _)
      (by decide)
  rw [Object.toValue, members_deployment, Entries.ofList_eq_self sorted]

/-- **When a pass completes.** A pass completes exactly when the dependents are Deployments and one
at most; the parent has a name, a namespace, both fields of its specification, and no status but an
object; and the Deployment can be created, for which the parent's name must not be empty, or be
updated, for which it must belong to the parent and have a container.

A pass that observes no Deployment returns the state it was given but for three things: the status
tells of no healthy replicas, the one dependent is the Deployment that the parent asks for, and the
one event tells of it. -/
theorem reconcile_completes_iff (s : State) :
    ((∃ out, reconciler.reconcile s = .ok out) ↔ ∃ d, Completes s d) ∧
    (Unobserved s.dependents → ∀ out, reconciler.reconcile s = .ok out →
      ∃ d deployed members, Asks s.object d ∧ deployed = deployment d ∧
        deployed.toValue = .object (deploymentMembers d) ∧
        (s.object.status = none ∧ members = [] ∨ s.object.status = some (.object members)) ∧
        out = { s with
          object := { s.object with
            status := some (.object (Entries.insert "healthyReplicas" (.ofInt 0) members)) }
          dependents := SortedMap.empty.insert ⟨"deployment.v1.apps"⟩ [deployed]
          events := [.normal "CreateDeployment" "deployment created"] }) := by
  refine ⟨⟨?_, ?_⟩, ?_⟩
  · rintro ⟨out, pass⟩
    exact completes_of_reconcile pass
  · rintro ⟨d, completes⟩
    exact reconcile_of_completes completes
  · intro unobserved out pass
    obtain ⟨d, completes⟩ := completes_of_reconcile pass
    rcases completes.deployment with ⟨_, named⟩ | ⟨observed, one, _⟩
    · obtain ⟨object, inserted⟩ := Object.exists_insertStatus_iff.2 completes.status
      obtain ⟨members, opened, rfl⟩ := Object.insertStatus_eq_ok_iff.1 inserted
      have created := reconcile_unobserved unobserved (desired_eq_ok_iff.2 completes.asks) named
        inserted
      obtain rfl := Except.ok.inj (pass.symm.trans created)
      exact ⟨d, _, members, completes.asks, rfl, toValue_deployment d,
        Object.openPart_eq_ok opened, rfl⟩
    · rw [unobserved.objects] at one
      cases one

/-- A container set with an empty name. -/
def nameless : State :=
  { Controller.admitted with
    object := { Controller.admitted.object with
      metadata := some { Metadata.blank with name := some "", inNamespace := some "default" } } }

/-- The same container set when a Deployment is observed whose containers stand in an object, under
their numbers. -/
def numbered : State :=
  { nameless with
    dependents := SortedMap.empty.insert deployments.key
      [{ deployment ⟨"db", "default", 1, "redis"⟩ with
        spec := some (.object [("template", .object [("spec", .object
          [("containers", .object [("0", .object [])])])])]) }] }

/-- A container set without a Deployment needs a name, one with a Deployment does not. -/
theorem reconcile_completes_iff_named :
    (Unobserved Controller.admitted.dependents ∧ ∃ out,
      reconciler.reconcile Controller.admitted = .ok out ∧ out.events = [createdEvent]) ∧
      (¬ ∃ out, reconciler.reconcile nameless = .ok out) ∧
      ∃ out, reconciler.reconcile numbered = .ok out := by
  have asks : Asks Controller.admitted.object ⟨"web", "default", 2, "nginx"⟩ :=
    ⟨rfl, rfl, _, ⟨some 2, some "nginx"⟩, rfl, rfl, rfl, rfl⟩
  have nothing : Unobserved Controller.admitted.dependents := .inl rfl
  refine ⟨⟨nothing, ?_⟩, ?_, ?_⟩
  · obtain ⟨completes, determined⟩ := reconcile_completes_iff Controller.admitted
    obtain ⟨out, pass⟩ := completes.2
      ⟨_, by rintro _ ⟨⟩, asks, .inl rfl, .inl ⟨nothing, by decide⟩⟩
    obtain ⟨_, _, _, _, _, _, _, rfl⟩ := determined nothing out pass
    exact ⟨_, pass, rfl⟩
  · intro completes
    obtain ⟨d, _, ⟨named, _, _⟩, _, ⟨_, nonempty⟩ | ⟨_, one, _⟩⟩ :=
      (reconcile_completes_iff nameless).1.1 completes
    · exact nonempty (Option.some.inj named).symm
    · cases one
  · refine (reconcile_completes_iff numbered).1.2
      ⟨⟨"", "default", 2, "nginx"⟩, ?_, ⟨rfl, rfl, asks.spec⟩, .inl rfl, .inr ⟨_, rfl, ?_, ?_⟩⟩
    · exact List.forall_mem_singleton.2 ⟨rfl, Nat.le_refl 1⟩
    · exact ⟨by decide, ⟨"db", rfl, by decide⟩, rfl⟩
    · exact ⟨_, _, _, rfl, rfl, rfl⟩

end ControllerHooks.ContainerSet
