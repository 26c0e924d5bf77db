import ControllerHooks.Proofs.Patch.Objects
import ControllerHooks.Proofs.Reconcile.Convergence

/-!
# A plan describes the pass

`Controller.plan_describes_reconcile`: the plan hook and the reconcile hook fault alike, and where
they complete the plan lists what the pass does, and nothing else.
-/

namespace ControllerHooks

open Json (diffAt memberDiff)

/-! ## How much a pass changes -/

namespace ContainerSet

variable {d : Desired} {observed updated : Object}

theorem setImage_ordered {v w : Json} {a : Unit} (set : setImage d v = some (a, w))
    (h : v.Ordered) : w.Ordered := by
  obtain ⟨members, rfl, rfl⟩ := setImage_eq_some.1 set
  exact Json.ordered_insert h (.string _)

theorem writes_setImage (v : Json) (a : Unit) (w : Json) (path : List String) (h : v.Ordered)
    (set : setImage d v = some (a, w)) : (diffAt path v w).Writes 1 := by
  obtain ⟨members, rfl, rfl⟩ := setImage_eq_some.1 set
  exact (Json.writes_of_scalar (by simp) (by simp) members "image" path).perm
    (Json.diffAt_insert h "image" _ path)

/-- In the specification an update sets the number of replicas and, inside the template, the
image. -/
theorem writes_spec {members : List (String × Json)} {old template : Json} {a : Unit}
    (ordered : (Json.object members).Ordered) (stands : Entries.find? "template" members = some old)
    (changed : old.modifyAt? (setImage d) ["spec", "containers", "0"] = some (a, template))
    (path : List String) :
    (diffAt path (.object members) (.object (Entries.insertAll members
      [("replicas", replicasJson d), ("template", template)]))).Writes 2 := by
  have replicas : (memberDiff path members ("replicas", replicasJson d)).Writes 1 :=
    Json.writes_of_scalar (by simp [replicasJson, Json.ofInt]) (by simp [replicasJson, Json.ofInt])
      members "replicas" path
  have image : (memberDiff path members ("template", template)).Writes 1 := by
    simp only [memberDiff, stands]
    exact Json.writes_modifyAt? writes_setImage (ordered.of_find? stands) changed _
  refine (replicas.append image).perm ?_
  simpa using Json.diffAt_insertAll ordered
    [("replicas", replicasJson d), ("template", template)] (by simp) path

/-- An update is one operation or two, if it changes anything. -/
theorem summary_update (ordered : observed.Ordered) (inLine : update d observed = .ok updated)
    (differs : observed.same updated = false) : (Plan.summary observed updated).Counts 2 := by
  obtain ⟨members, _, opened, changed, rfl⟩ := update_eq_ok_iff.1 inLine
  obtain ⟨old, template, found, inside, rfl⟩ := Json.modifyAt?_cons.1 changed
  have stands : Entries.find? "template" members = some old := by
    rw [← found]
    exact (Entries.find?_insert_of_ne (by decide) _ _).symm
  rcases Object.openPart_eq_ok opened with ⟨_, rfl⟩ | some
  · cases stands
  have whole := ordered.spec _ some
  have target : (Json.object (Entries.insertAll members
      [("replicas", replicasJson d), ("template", template)])).Ordered :=
    Json.ordered_insert (Json.ordered_insert whole (.number _))
      ((whole.of_find? stands).modifyAt? setImage_ordered inside)
  have writes : (memberDiff [] (Entries.ofList observed.members) ("spec", .object
      (Entries.insertAll members [("replicas", replicasJson d), ("template", template)]))).Writes
        2 := by
    simp only [memberDiff, Object.find?_spec ordered.unknown, some]
    exact writes_spec whole stands inside _
  exact (Object.replaces_spec ordered.unknown _).summary ordered target writes differs

end ContainerSet

namespace Plan

/-- Without dependents there is nothing to refer to. -/
theorem index_of_nothing {deps : Dependents} (nothing : ∀ e ∈ deps.entries, e.2 = []) :
    index deps = .ok .empty := by
  have named : deps.Named := by
    intro e he
    simp [nothing e he]
  have none : referenced deps.entries = [] := by
    apply List.flatMap_eq_nil_iff.2
    intro e he
    simp [nothing e he]
  exact index_eq_ok_iff.2 ⟨named, by rw [none]; rfl⟩

/-- The reference to a dependent that has a name. -/
theorem index_of_one {deps : Dependents} {key : ResourceKey} {o : Object} {name : String}
    (one : deps.entries = [(key, [o])]) (named : o.name = some name) :
    index deps = .ok (.ofList [(⟨key, o.inNamespace, name⟩, o)]) :=
  index_eq_ok_iff.2 ⟨by simp [Dependents.Named, one, named],
    by simp [referenced, one, Object.ref, named]⟩

/-- What a plan says of the parent. -/
def parentPart (observed desired : State) : Option DiffSummary :=
  if observed.object.same desired.object then none
  else some (summary observed.object desired.object)

variable {observed desired : State} {ref : ObjectRef} {old new : Object}

theorem between_nothing (before : index observed.dependents = .ok .empty)
    (after : index desired.dependents = .ok .empty) :
    between observed desired = .ok ⟨parentPart observed desired, [], [], []⟩ := by
  simp only [between, before, after, ok_bind]
  rfl

theorem between_created (before : index observed.dependents = .ok .empty)
    (after : index desired.dependents = .ok (.ofList [(ref, new)])) :
    between observed desired = .ok ⟨parentPart observed desired, [ref], [], []⟩ := by
  simp only [between, before, after, ok_bind]
  rfl

theorem between_updated (before : index observed.dependents = .ok (.ofList [(ref, old)]))
    (after : index desired.dependents = .ok (.ofList [(ref, new)])) :
    between observed desired = .ok ⟨parentPart observed desired, [],
      if old.same new then [] else [⟨ref, summary old new⟩], []⟩ := by
  have found (o : Object) : (SortedMap.ofList [(ref, o)]).get? ref = some o :=
    Entries.find?_insert_self ref o []
  have entries (o : Object) : (SortedMap.ofList [(ref, o)]).entries = [(ref, o)] := rfl
  have created : without (.ofList [(ref, new)]) (.ofList [(ref, old)]) = [] := by
    simp [without, SortedMap.keys, entries, found]
  have deleted : without (.ofList [(ref, old)]) (.ofList [(ref, new)]) = [] := by
    simp [without, SortedMap.keys, entries, found]
  simp only [between, before, after, ok_bind, created, deleted, entries]
  cases same : old.same new <;> simp [changeOf, found, same, parentPart]

/-- Nothing is deleted, and the parent is mentioned when it changes, which is one operation. -/
structure Describes (observed desired : State) (p : Plan) : Prop where
  deleted : p.deleted = []
  unchanged : observed.object.same desired.object = true → p.parent = none
  changed : observed.object.same desired.object = false →
    ∃ counts, p.parent = some counts ∧ counts.Counts 1

theorem describes_parentPart {created : List ObjectRef} {updated : List Change}
    (counts : observed.object.same desired.object = false →
      (summary observed.object desired.object).Counts 1) :
    Describes observed desired ⟨parentPart observed desired, created, updated, []⟩ where
  deleted := rfl
  unchanged same := by simp [parentPart, same]
  changed differs := ⟨_, by simp [parentPart, differs], counts differs⟩

end Plan

/-! ## Plans of both controllers -/

namespace ContainerSet

/-- What a plan says of the Deployment of a container set: it is created, kept or updated. The
reference has the parent's namespace; a Deployment that is there already has a name of its own. -/
inductive Planned (observed desired : State) (p : Plan) : Prop
  | created {name : String} : observed.dependents.objects deployments.key = [] →
      observed.object.name = some name →
      p.created = [⟨deployments.key, observed.object.inNamespace, name⟩] → p.updated = [] →
      Planned observed desired p
  | kept {old new : Object} : observed.dependents.objects deployments.key = [old] →
      desired.dependents.objects deployments.key = [new] → old.same new = true →
      p.created = [] → p.updated = [] → Planned observed desired p
  | updated {old new : Object} {name : String} {counts : DiffSummary} :
      observed.dependents.objects deployments.key = [old] →
      desired.dependents.objects deployments.key = [new] → old.same new = false →
      old.name = some name → p.created = [] →
      p.updated = [⟨⟨deployments.key, observed.object.inNamespace, name⟩, counts⟩] →
      counts.Counts 2 → Planned observed desired p

/-- The status member of a container set is a number. -/
theorem summary_healthyReplicas {o result : Object} {n : Int} (ordered : o.Ordered)
    (inserted : o.insertStatus "healthyReplicas" (.ofInt n) = .ok result) :
    o.same result = false → (Plan.summary o result).Counts 1 :=
  Object.summary_insertStatus ordered (.number _) (by rintro _ ⟨⟩) (by rintro _ ⟨⟩) inserted

/-- An update leaves the metadata alone. -/
theorem metadata_of_update {d : Desired} {observed updated : Object}
    (h : update d observed = .ok updated) : updated.metadata = observed.metadata := by
  obtain ⟨_, _, _, _, rfl⟩ := update_eq_ok_iff.1 h
  rfl

/-- The Deployment is referred to alike before and after an update: under its own name, and in the
namespace of the parent. -/
theorem index_of_update {s after : State} {d : Desired} {observed deployed : Object}
    (permitted : s.dependents.Permitted [deployments.declare .one])
    (one : s.dependents.objects deployments.key = [observed])
    (updated : update d observed = .ok deployed)
    (placed : after.dependents = s.dependents.insert deployments.key [deployed])
    (allowed : State.Allows [deployments.declare .one] s after) :
    ∃ name, observed.name = some name ∧
      Plan.index s.dependents =
        .ok (.ofList [(⟨deployments.key, s.object.inNamespace, name⟩, observed)]) ∧
      Plan.index after.dependents =
        .ok (.ofList [(⟨deployments.key, s.object.inNamespace, name⟩, deployed)]) := by
  have before : s.dependents.entries = [(deployments.key, [observed])] :=
    Dependents.entries_of_one permitted one
  have entries : after.dependents.entries = [(deployments.key, [deployed])] := by
    rw [placed]
    exact Dependents.entries_insert permitted [deployed]
  -- Only what a pass leaves is checked for a name; an update does not touch the metadata.
  obtain ⟨identity, _, ⟨name, named, _⟩, place⟩ :=
    (State.allows_insert_iff permitted placed).1 allowed
  have inside := place.trans identity.inNamespace
  have metadata := metadata_of_update updated
  have same_name : observed.name = some name := by rw [← named, Object.name, Object.name, metadata]
  have same_place : observed.inNamespace = s.object.inNamespace := by
    rw [← inside, Object.inNamespace, Object.inNamespace, metadata]
  refine ⟨name, same_name, ?_, ?_⟩
  · rw [← same_place]
    exact Plan.index_of_one before same_name
  · rw [← inside]
    exact Plan.index_of_one entries named

theorem plan_of_reconcile {s out : State} (ordered : s.Ordered)
    (pass : reconciler.reconcile s = .ok out) :
    ∃ plan, Plan.between s out = .ok plan ∧ plan.Describes s out ∧ Planned s out plan := by
  obtain ⟨permitted, after, ran, allowed, rfl⟩ := Reconciler.reconcile_eq_ok_iff.1 pass
  cases body_eq_ok_iff.1 ran with
  | @created d object asked none inserted =>
    obtain ⟨name, inNamespace⟩ := identity_of_desired asked
    have before := Plan.index_of_nothing (Dependents.entries_of_none permitted none)
    have entries := Dependents.entries_insert permitted [deployment d]
    have after : Plan.index (s.dependents.insert deployments.key [deployment d]) =
        .ok (.ofList [(⟨deployments.key, some d.inNamespace, d.name⟩, deployment d)]) :=
      Plan.index_of_one entries rfl
    have parent := summary_healthyReplicas ordered.object inserted
    refine ⟨_, Plan.between_created before after, Plan.describes_parentPart parent, ?_⟩
    exact .created none name (by rw [← inNamespace]) rfl
  | @updated d observed deployed object asked one updated inserted =>
    obtain ⟨name, named, before, after⟩ := index_of_update permitted one updated rfl allowed
    have parent := summary_healthyReplicas ordered.object inserted
    refine ⟨_, Plan.between_updated before after, Plan.describes_parentPart parent, ?_⟩
    have placed := Dependents.objects_insert s.dependents deployments.key [deployed]
    cases same : observed.same deployed with
    | true => exact .kept one placed same rfl (by simp)
    | false =>
      have entries := Dependents.entries_of_one permitted one
      have written : ∀ o ∈ [observed], o.Ordered :=
        ordered.dependents (deployments.key, [observed]) (by rw [entries]; exact List.mem_cons_self)
      have counts := summary_update (written observed List.mem_cons_self) updated same
      exact .updated one placed same named rfl (by simp) counts

end ContainerSet

namespace Noop

theorem plan_of_reconcile {s out : State} (ordered : s.Ordered)
    (pass : reconciler.reconcile s = .ok out) :
    ∃ plan, Plan.between s out = .ok plan ∧ plan.Describes s out ∧
      plan.created = [] ∧ plan.updated = [] := by
  obtain ⟨permitted, after, ran, allowed, rfl⟩ := Reconciler.reconcile_eq_ok_iff.1 pass
  have nothing : ∀ e ∈ s.dependents.entries, e.2 = [] := by
    intro e he
    obtain ⟨_, declared, _⟩ := permitted e he
    cases declared
  have before := Plan.index_of_nothing nothing
  obtain ⟨set, applied⟩ := body_eq_ok_iff.1 ran
  rcases PhaseTracker.apply_eq_ok_iff.1 applied with ⟨_, result⟩ | ⟨_, members, opened, result⟩
  · obtain rfl : after = _ := congrArg Prod.fst result
    refine ⟨_, Plan.between_nothing before before, Plan.describes_parentPart ?_, rfl, rfl⟩
    intro differs
    rw [Object.same_iff.2 rfl] at differs
    cases differs
  · obtain rfl : after = _ := congrArg Prod.fst result
    have inserted : s.object.insertStatus "phase" (.string tracker.phase) = .ok _ :=
      Object.insertStatus_eq_ok_iff.2 ⟨members, opened, rfl⟩
    have parent := Object.summary_insertStatus ordered.object (.string _) (by rintro _ ⟨⟩)
      (by rintro _ ⟨⟩) inserted
    exact ⟨_, Plan.between_nothing before before, Plan.describes_parentPart parent, rfl, rfl⟩

end Noop

namespace Controller

variable {c : Controller} {s out : State}

theorem plan_of_reconcile (registered : c ∈ all) (ordered : s.Ordered)
    (pass : c.reconciler.reconcile s = .ok out) :
    ∃ plan, Plan.between s out = .ok plan ∧ plan.Describes s out ∧
      (c = ContainerSet.controller → ContainerSet.Planned s out plan) ∧
      (c = Noop.controller → plan.created = [] ∧ plan.updated = []) := by
  rcases mem_all_iff.1 registered with rfl | rfl
  · obtain ⟨plan, planned, describes, deployment⟩ := ContainerSet.plan_of_reconcile ordered pass
    refine ⟨plan, planned, describes, fun _ => deployment, ?_⟩
    intro same
    exact absurd same.symm noop_ne_containerSet
  · obtain ⟨plan, planned, describes, nothing⟩ := Noop.plan_of_reconcile ordered pass
    refine ⟨plan, planned, describes, ?_, fun _ => nothing⟩
    intro same
    exact absurd same noop_ne_containerSet

/-- **Plans.** On any request the plan hook and the reconcile hook fault alike. Where they complete,
the plan tells the step that the other hook takes: the parent is mentioned when it changes, by one
operation; the Deployment of a container set is created where there is none, and updated when it
changes, by one operation or two; nothing else is created or updated, and nothing is deleted. -/
theorem plan_describes_reconcile (registered : c ∈ all) (request : Bytes) :
    (∀ fault, c.invoke .plan request = .error fault ↔ c.invoke .reconcile request = .error fault) ∧
    ∀ response, c.invoke .reconcile request = .ok response →
      ∃ s out plan, Payload.decode request = .ok s ∧ c.reconciler.reconcile s = .ok out ∧
        response = Payload.encode out ∧ c.invoke .plan request = .ok plan.toJson.bytes ∧
        plan.Describes s out ∧
        (c = ContainerSet.controller → ContainerSet.Planned s out plan) ∧
        (c = Noop.controller → plan.created = [] ∧ plan.updated = []) := by
  constructor
  · intro fault
    cases read : (Payload.decode request : Except DecodeError State) with
    | error e => simp [invoke, Payload.request, read]
    | ok s =>
      cases pass : c.reconciler.reconcile s with
      | error e => simp [invoke, Payload.request, read, Controller.plan, pass]
      | ok out =>
        obtain ⟨plan, planned, _⟩ :=
          plan_of_reconcile registered (State.ordered_of_decode read) pass
        simp [invoke, Payload.request, read, Controller.plan, pass, planned]
  · intro response answered
    obtain ⟨s, out, read, pass, same⟩ := invoke_reconcile_eq_ok_iff.1 answered
    obtain ⟨plan, planned, describes, deployment, nothing⟩ :=
      plan_of_reconcile registered (State.ordered_of_decode read) pass
    exact ⟨s, out, plan, read, pass, same, invoke_plan_of_reconcile read pass planned, describes,
      deployment, nothing⟩

/-- The Deployment that is created for one request is the only thing that its plan lists. -/
theorem plan_describes_reconcile_before_creation :
    let request : Bytes := (Json.object admitted.members).bytes
    ContainerSet.controller ∈ all ∧
      ∃ plan : Plan, ContainerSet.controller.invoke .plan request = .ok plan.toJson.bytes ∧
        plan.created = [⟨ContainerSet.deployments.key, some "default", "web"⟩] ∧
        plan.updated = [] ∧ plan.deleted = [] := by
  intro request
  have registered : ContainerSet.controller ∈ all := mem_all_iff.2 (.inl rfl)
  have read : Payload.decode request = .ok admitted.wholeSeconds :=
    State.decode_encode admitted_portable
  obtain ⟨out, pass⟩ : ∃ out, ContainerSet.reconciler.reconcile admitted.wholeSeconds = .ok out :=
    ⟨_, rfl⟩
  have answered : ContainerSet.controller.invoke .reconcile request =
      .ok (Json.object out.members).bytes :=
    invoke_reconcile_eq_ok_iff.2 ⟨_, out, read, pass, rfl⟩
  obtain ⟨_, describes⟩ := plan_describes_reconcile registered request
  obtain ⟨s, _, plan, read', _, _, planned, whole, deployment, _⟩ := describes _ answered
  obtain rfl := Except.ok.inj (read.symm.trans read')
  cases deployment rfl with
  | created _ named created updated =>
    obtain rfl := Option.some.inj named
    exact ⟨registered, plan, planned, created, updated, whole.deleted⟩
  | kept one | updated one => cases one

/-- A container set with a Deployment that is not named after it. -/
def adopted : State :=
  { admitted with
    dependents := SortedMap.empty.insert ContainerSet.deployments.key
      [ContainerSet.deployment ⟨"db", "default", 1, "nginx"⟩] }

theorem adopted_portable : adopted.Portable 120 := by
  have key : ResourceKey.isWellFormed ContainerSet.deployments.key.text = true := by decide
  have built : ∀ o ∈ [ContainerSet.deployment ⟨"db", "default", 1, "nginx"⟩],
      o.Legible Number.IsWord 120 := by
    simp [ContainerSet.deployment_legible]
  exact ⟨admitted_portable.object, Dependents.legible_empty.insert key built,
    admitted_portable.references⟩

/-- A Deployment that is updated is listed under its own name, not under its parent's. -/
theorem plan_of_adopted_deployment :
    let request : Bytes := (Json.object adopted.members).bytes
    (∃ response, ContainerSet.controller.invoke .reconcile request = .ok response) ∧
      adopted.object.name = some "web" ∧
      ∃ plan : Plan, ContainerSet.controller.invoke .plan request = .ok plan.toJson.bytes ∧
        plan.updated = [⟨⟨ContainerSet.deployments.key, some "default", "db"⟩, ⟨0, 1, 0⟩⟩] := by
  intro request
  have read : Payload.decode request = .ok adopted.wholeSeconds :=
    State.decode_encode adopted_portable
  obtain ⟨out, pass, planned⟩ : ∃ out, ContainerSet.reconciler.reconcile adopted.wholeSeconds =
      .ok out ∧ Plan.between adopted.wholeSeconds out = .ok ⟨some ⟨1, 0, 0⟩, [],
        [⟨⟨ContainerSet.deployments.key, some "default", "db"⟩, ⟨0, 1, 0⟩⟩], []⟩ :=
    ⟨_, rfl, rfl⟩
  exact ⟨⟨_, invoke_reconcile_eq_ok_iff.2 ⟨_, out, read, pass, rfl⟩⟩, rfl, _,
    invoke_plan_of_reconcile read pass planned, rfl⟩

end Controller

end ControllerHooks
