import ControllerHooks.Proofs.Json.Frames
import ControllerHooks.Proofs.Reconcile.Completion

/-!
# What an update leaves alone

A pass that observes a Deployment writes at three places, and two of them lie in values that were
shaped elsewhere.

* `ContainerSet.InLine` and `ContainerSet.TellsHealthy`: a specification and a status before and
  after a pass.
* `ContainerSet.Reports`: the healthy replicas that go with an observed Deployment.
* `ContainerSet.update_frame`: a pass with one observed Deployment changes these places only.
-/

namespace ControllerHooks.ContainerSet

open Json (SameBut)

/-! ## The Deployment -/

/-- The place of the image in the specification of a Deployment. -/
def imagePath : List String := ["template", "spec", "containers", "0", "image"]

/-- A specification as the parent asks for it, and for the rest as it was. -/
structure InLine (d : Desired) (before after : Json) : Prop where
  container : ∃ members, before.at? containerPath = some (.object members)
  replicas : after.at? ["replicas"] = some (.ofInt d.replicas.toInt)
  image : after.at? imagePath = some (.string d.image)
  beside : SameBut [["replicas"], imagePath] before after
  ordered : before.Ordered → after.Ordered

theorem InLine.unique {d : Desired} {before a b : Json} (ha : InLine d before a)
    (hb : InLine d before b) (ordered : before.Ordered) : a = b := by
  refine ha.beside.unique hb.beside (ha.ordered ordered) (hb.ordered ordered) ?_
  simp [ha.replicas, hb.replicas, ha.image, hb.image]

theorem sameBut_setImage {d : Desired} (v : Json) (a : Unit) (w : Json)
    (h : setImage d v = some (a, w)) : SameBut [["image"]] v w := by
  obtain ⟨members, rfl, rfl⟩ := setImage_eq_some.1 h
  exact SameBut.insert "image" _ members

theorem inLine_of_update {d : Desired} {observed updated : Object}
    (h : update d observed = .ok updated) :
    ∃ before after, observed.spec = some before ∧
      updated = { observed with spec := some after } ∧ InLine d before after := by
  obtain ⟨members, after, opened, changed, rfl⟩ := update_eq_ok_iff.1 h
  obtain ⟨inside, template, container, spec, stands, here⟩ := exists_update_iff.1 ⟨_, h⟩
  rw [spec] at opened
  obtain rfl : inside = members := Except.ok.inj opened
  have written : SameBut [imagePath] (.object (Entries.insert "replicas" (replicasJson d) inside))
      after := SameBut.modifyAt? sameBut_setImage changed
  obtain ⟨_, placed, _, set, found⟩ := Json.at?_modifyAt? changed
  have stood : (Json.object inside).at? containerPath = some (.object container) := by
    rw [containerPath, Json.at?_object, stands]
    exact here
  refine ⟨_, after, spec, rfl, ⟨container, stood⟩, ?_, ?_, ?_, ?_⟩
  · exact (written.kept ["replicas"] (by decide)).trans (Json.at?_insert_self _ _ inside)
  · have split : imagePath = containerPath ++ ["image"] := rfl
    obtain ⟨members, _, rfl⟩ := setImage_eq_some.1 set
    rw [split, Json.at?_append, found]
    exact Json.at?_insert_self "image" _ members
  · exact (SameBut.insert "replicas" _ inside).trans written (by decide)
  · intro ordered
    exact (Json.ordered_insert ordered (.number _)).modifyAt? setImage_ordered changed

/-! ## The status of the parent -/

/-- The available replicas that a Deployment tells of. -/
def Tells (observed : Object) (n : Int) : Prop :=
  ∃ members, observed.status = some (.object members) ∧
    Entries.find? "availableReplicas" members = some (.ofInt n) ∧ -2 ^ 63 ≤ n ∧ n < 2 ^ 63

/-- The healthy replicas that go with an observed Deployment: its available ones where it tells of
them, none otherwise. -/
def Reports (observed : Object) (n : Int) : Prop :=
  Tells observed n ∨ n = 0 ∧ ∀ m, ¬ Tells observed m

theorem int64?_eq_some_iff {v : Json} {n : Int} :
    v.int64? = some n ↔ v = .ofInt n ∧ -2 ^ 63 ≤ n ∧ n < 2 ^ 63 := by
  unfold Json.int64?
  split
  · rename_i m
    simp only [Json.ofInt, Json.number.injEq, Number.int.injEq, Option.ite_none_right_eq_some,
      Option.some.injEq]
    constructor
    · rintro ⟨range, rfl⟩
      exact ⟨rfl, by omega⟩
    · rintro ⟨rfl, range⟩
      exact ⟨by omega, rfl⟩
  · rename_i other
    simp only [reduceCtorEq, false_iff, not_and]
    rintro rfl
    exact absurd rfl (other n)

theorem tells_iff {observed : Object} {n : Int} :
    Tells observed n ↔ (observed.statusField "availableReplicas").bind Json.int64? = some n := by
  simp only [Object.statusField, Option.bind_eq_some_iff, int64?_eq_some_iff]
  constructor
  · rintro ⟨members, status, found, range⟩
    exact ⟨_, ⟨_, status, found⟩, rfl, range⟩
  · rintro ⟨_, ⟨status, stands, found⟩, rfl, range⟩
    cases status with
    | object members => exact ⟨members, stands, found, range⟩
    | null | bool | number | string | array => cases found

theorem reports_available (observed : Object) : Reports observed (available observed) := by
  unfold available Reports
  simp only [tells_iff]
  cases (observed.statusField "availableReplicas").bind Json.int64? with
  | none => simp
  | some n => simp

/-- A status with a number of healthy replicas, and for the rest as it was. -/
structure TellsHealthy (n : Int) (before : Option Json) (after : Json) : Prop where
  writable : before = none ∨ ∃ members, before = some (.object members)
  healthy : after.at? ["healthyReplicas"] = some (.ofInt n)
  beside : SameBut [["healthyReplicas"]] (before.getD (.object [])) after
  ordered : (before.getD (.object [])).Ordered → after.Ordered

theorem TellsHealthy.unique {n : Int} {before : Option Json} {a b : Json}
    (ha : TellsHealthy n before a) (hb : TellsHealthy n before b)
    (ordered : (before.getD (.object [])).Ordered) : a = b := by
  refine ha.beside.unique hb.beside (ha.ordered ordered) (hb.ordered ordered) ?_
  simp [ha.healthy, hb.healthy]

theorem tellsHealthy_of_insertStatus {n : Int} {o result : Object}
    (h : o.insertStatus "healthyReplicas" (.ofInt n) = .ok result) :
    ∃ status, result = { o with status := some status } ∧ TellsHealthy n o.status status := by
  obtain ⟨members, opened, rfl⟩ := Object.insertStatus_eq_ok_iff.1 h
  have healthy := Json.at?_insert_self "healthyReplicas" (.ofInt n) members
  have beside := SameBut.insert "healthyReplicas" (.ofInt n) members
  have ordered (h : (Json.object members).Ordered) :
      (Json.object (Entries.insert "healthyReplicas" (.ofInt n) members)).Ordered :=
    Json.ordered_insert h (.number _)
  refine ⟨_, rfl, ?_⟩
  rcases Object.openPart_eq_ok opened with ⟨absent, rfl⟩ | stands
  · rw [absent]
    exact ⟨.inl rfl, healthy, beside, ordered⟩
  · rw [stands]
    exact ⟨.inr ⟨members, rfl⟩, healthy, beside, ordered⟩

/-! ## The pass -/

/-- What a specification that is an object asks for stands in it under the names of the fields. -/
theorem Asks.members {parent : Object} {d : Desired} (h : Asks parent d)
    {members : List (String × Json)} (sorted : Entries.Sorted members)
    (stands : parent.spec = some (.object members)) :
    Entries.find? "replicas" members = some (.ofInt d.replicas.toInt) ∧
      Entries.find? "image" members = some (.string d.image) := by
  obtain ⟨v, spec, here, read, replicas, image⟩ := h.spec
  obtain rfl : .object members = v := Option.some.inj (stands.symm.trans here)
  refine ⟨?_, image_of_read sorted read image⟩
  have view := ContainerSetSpec.replicas_of_read sorted read
  rw [replicas] at view
  rcases Reader.of_optional view with ⟨_, none⟩ | ⟨_, n, number, some⟩
  · cases none
  · obtain rfl := Option.some.inj some
    exact FieldRule.find?_of_memberOrNull (Reader.int32_eq_ok number) (by simp [Json.ofInt])

/-- **What an update changes.** A pass that completes with one observed Deployment returns the
state it was given, without its events, but for three places: the number of replicas and the first
container's image in the Deployment's specification are those that the parent asks for, and the
parent's status has the number of healthy replicas that the Deployment reports. For ordered
documents this determines what is returned. -/
theorem update_frame {s out : State} {observed : Object}
    (one : s.dependents.objects deployments.key = [observed])
    (pass : reconciler.reconcile s = .ok out) :
    ∃ d before spec status n, Asks s.object d ∧
      (∀ members, Entries.Sorted members → s.object.spec = some (.object members) →
        Entries.find? "replicas" members = some (.ofInt d.replicas.toInt) ∧
        Entries.find? "image" members = some (.string d.image)) ∧
      observed.spec = some before ∧ InLine d before spec ∧
      (before.Ordered → ∀ other, InLine d before other → other = spec) ∧
      Reports observed n ∧ TellsHealthy n s.object.status status ∧
      ((s.object.status.getD (.object [])).Ordered → ∀ other,
        TellsHealthy n s.object.status other → other = status) ∧
      s.dependents.entries = [(⟨"deployment.v1.apps"⟩, [observed])] ∧
      out.dependents.entries =
        [(⟨"deployment.v1.apps"⟩, [{ observed with spec := some spec }])] ∧
      out = { s with
        object := { s.object with status := some status }
        dependents := out.dependents
        events := [] } := by
  obtain ⟨permitted, after, ran, -, rfl⟩ := Reconciler.reconcile_eq_ok_iff.1 pass
  have key : deployments.key = ⟨"deployment.v1.apps"⟩ := by decide
  cases body_eq_ok_iff.1 ran with
  | created _ none => cases one.symm.trans none
  | @updated d seen deployed _ asked same updated inserted =>
    obtain rfl : observed = seen := List.singleton_inj.1 (one.symm.trans same)
    have asks := desired_eq_ok_iff.1 asked
    obtain ⟨before, spec, stands, rfl, inLine⟩ := inLine_of_update updated
    obtain ⟨status, rfl, tells⟩ := tellsHealthy_of_insertStatus inserted
    have alone := Dependents.entries_of_one permitted one
    have placed := Dependents.entries_insert permitted [{ observed with spec := some spec }]
    refine ⟨d, before, spec, status, available observed, asks,
      fun _ sorted object => asks.members sorted object, stands, inLine,
      fun ordered _ other => other.unique inLine ordered, reports_available observed, tells,
      fun ordered _ other => other.unique tells ordered, ?_, ?_, rfl⟩
    · rw [← key]
      exact alone
    · rw [← key]
      exact placed

/-- A Deployment as a cluster keeps it: there is more in it than its container set asks for. -/
def seasoned : Object :=
  { deployment ⟨"web", "default", 1, "redis"⟩ with
    metadata := some { Metadata.blank with
      name := some "web", inNamespace := some "default", resourceVersion := some "41" }
    spec := some (.object
      [("paused", .bool true),
        ("template", .object [("spec", .object [("containers", .array
          [.object [("command", .array [.string "serve"]), ("image", .string "redis")],
            .object [("image", .string "proxy")]])])])])
    status := some (.object [("availableReplicas", .ofInt 2), ("replicas", .ofInt 3)]) }

/-- A container set that runs already, with that Deployment. -/
def running : State :=
  { Controller.admitted with
    object := { Controller.admitted.object with
      status := some (.object [("phase", .string "Ready")]) }
    dependents := SortedMap.empty.insert deployments.key [seasoned]
    requeueAfter := some 30 }

/-- The second container, the command of the first one and the phase of the parent stay. -/
theorem update_frame_of_running :
    running.dependents.objects deployments.key = [seasoned] ∧
      ∃ out spec status, reconciler.reconcile running = .ok out ∧
        out.dependents.entries =
          [(⟨"deployment.v1.apps"⟩, [{ seasoned with spec := some spec }])] ∧
        spec.at? imagePath = some (.string "nginx") ∧
        spec.at? ["template", "spec", "containers", "1"] =
          some (.object [("image", .string "proxy")]) ∧
        spec.at? ["template", "spec", "containers", "0", "command"] =
          some (.array [.string "serve"]) ∧
        out.object = { running.object with status := some status } ∧
        status.at? ["healthyReplicas"] = some (.ofInt 2) ∧
        status.at? ["phase"] = some (.string "Ready") := by
  have one : running.dependents.objects deployments.key = [seasoned] := rfl
  obtain ⟨out, pass⟩ : ∃ out, reconciler.reconcile running = .ok out := ⟨_, rfl⟩
  obtain ⟨d, before, spec, status, n, _, asked, stands, inLine, _, reports, tells, _, _, placed,
    whole⟩ := update_frame one pass
  cases stands
  have sorted : Entries.Sorted [("image", .string "nginx"), ("replicas", Json.ofInt 2)] :=
    Entries.sorted_of_keys ["image", "replicas"] (List.Sublist.refl _) (by decide)
  obtain ⟨_, image⟩ := asked _ sorted rfl
  have available : Tells seasoned 2 := ⟨_, rfl, rfl, by decide, by decide⟩
  refine ⟨one, out, spec, status, pass, placed, ?_, ?_, ?_, by rw [whole], ?_, ?_⟩
  · rw [inLine.image]
    exact image.symm
  · exact inLine.beside.kept _ (by decide)
  · exact inLine.beside.kept _ (by decide)
  · rcases reports with ⟨members, status, found, _⟩ | ⟨_, silent⟩
    · cases status
      cases found
      exact tells.healthy
    · exact absurd available (silent 2)
  · exact tells.beside.kept _ (by decide)

end ControllerHooks.ContainerSet
