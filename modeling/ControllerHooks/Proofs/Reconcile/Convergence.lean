import ControllerHooks.Proofs.Controllers.Portable
import ControllerHooks.Proofs.Reconcile.Comparison
import ControllerHooks.Proofs.Reconcile.Idempotence

/-!
# Responses are requests

`Controller.reconcile_converges`: the response of a pass can be sent as a request. Another pass
answers with the same document, less the events, and a plan for it is empty.
-/

namespace ControllerHooks

/-! ## Plans -/

namespace Plan

/-- From a state to itself there is nothing to plan, whatever events it carries. -/
theorem between_self {s : State} (es : List Event) (named : s.dependents.Named) :
    between s { s with events := es } = .ok ⟨none, [], [], []⟩ := by
  obtain ⟨p, planned⟩ : ∃ p, between s { s with events := es } = .ok p :=
    exists_between_iff.2 ⟨named, named⟩
  have noop := (classifies_of_between planned).isNoop_iff.2 ⟨Object.same_iff.2 rfl, fun _ => rfl⟩
  have empty : p = ⟨none, [], [], []⟩ := by
    cases p
    exact (mk.injEq ..).mpr (isNoop_eq_true_iff.1 noop)
  rw [planned, empty]

end Plan

/-! ## Passes at whole seconds -/

theorem Object.SameIdentity.wholeSeconds {old new : Object} (same : SameIdentity old new) :
    SameIdentity old.wholeSeconds new.wholeSeconds :=
  ⟨same.apiVersion, same.kind, by simp [same.name], by simp [same.inNamespace]⟩

theorem Dependents.mem_wholeSeconds {deps : Dependents} {e : ResourceKey × List Object} :
    e ∈ SortedMap.entries deps.wholeSeconds ↔
      ∃ f ∈ deps.entries, (f.1, f.2.map Object.wholeSeconds) = e :=
  List.mem_map

theorem Dependents.Permitted.wholeSeconds {decls : List DependentDecl} {deps : Dependents}
    (h : deps.Permitted decls) : deps.wholeSeconds.Permitted decls := by
  intro e he
  obtain ⟨f, hf, rfl⟩ := Dependents.mem_wholeSeconds.1 he
  simpa using h f hf

theorem State.Allows.wholeSeconds {decls : List DependentDecl} {observed desired : State}
    (h : Allows decls observed desired) :
    Allows decls observed.wholeSeconds desired.wholeSeconds := by
  refine ⟨h.identity.wholeSeconds, h.permitted.wholeSeconds, ?_⟩
  intro e he o ho
  obtain ⟨f, hf, rfl⟩ := Dependents.mem_wholeSeconds.1 he
  obtain ⟨o, inside, rfl⟩ := List.mem_map.1 ho
  have belongs := h.belong f hf o inside
  exact ⟨belongs.key, by simpa using belongs.name,
    by simpa [State.wholeSeconds] using belongs.inNamespace⟩

namespace Controller

variable {numbers : Number → Prop} [Number.CoversWords numbers] {c : Controller}
  {s t out : State} {room : Nat}

theorem body_legible (registered : c ∈ all) (h : s.Legible numbers (room + 2))
    (ran : c.reconciler.body s = .ok t) : t.Legible numbers (room + 2) := by
  rcases mem_all_iff.1 registered with rfl | rfl
  · exact (ContainerSet.body_eq_ok_iff.1 ran).legible h
  · exact Noop.body_legible h ran

theorem body_wholeSeconds (registered : c ∈ all) (ran : c.reconciler.body s = .ok t) :
    c.reconciler.body s.wholeSeconds = .ok t.wholeSeconds := by
  rcases mem_all_iff.1 registered with rfl | rfl
  · exact ContainerSet.body_eq_ok_iff.2 (ContainerSet.body_eq_ok_iff.1 ran).wholeSeconds
  · exact Noop.body_wholeSeconds ran

theorem reconcile_legible (registered : c ∈ all) (h : s.Legible numbers (room + 2))
    (pass : c.reconciler.reconcile s = .ok out) : out.Legible numbers (room + 2) := by
  obtain ⟨_, desired, ran, _, rfl⟩ := Reconciler.reconcile_eq_ok_iff.1 pass
  have start : { s with events := [] }.Legible numbers (room + 2) :=
    ⟨h.object, h.dependents, h.references⟩
  obtain ⟨object, dependents, references⟩ := body_legible registered start ran
  exact ⟨object, dependents, references⟩

theorem reconcile_portable (registered : c ∈ all) (h : s.Portable (room + 2))
    (pass : c.reconciler.reconcile s = .ok out) : out.Portable (room + 2) :=
  reconcile_legible registered h pass

theorem reconcile_wholeSeconds (registered : c ∈ all)
    (pass : c.reconciler.reconcile s = .ok out) :
    c.reconciler.reconcile s.wholeSeconds = .ok out.wholeSeconds := by
  obtain ⟨permitted, desired, ran, allowed, rfl⟩ := Reconciler.reconcile_eq_ok_iff.1 pass
  exact Reconciler.reconcile_eq_ok_iff.2 ⟨permitted.wholeSeconds, desired.wholeSeconds,
    body_wholeSeconds registered ran, allowed.wholeSeconds, rfl⟩

/-! ## The wire -/

theorem invoke_reconcile_eq_ok_iff {request response : Bytes} :
    c.invoke .reconcile request = .ok response ↔ ∃ s out, Payload.decode request = .ok s ∧
      c.reconciler.reconcile s = .ok out ∧ response = (Json.object out.members).bytes := by
  simp only [invoke, bind_eq_ok, Payload.request, mapError_eq_ok, pure_eq_ok_value,
    Except.ok.injEq]
  constructor
  · rintro ⟨s, read, out, pass, rfl⟩
    exact ⟨s, out, read, pass, rfl⟩
  · rintro ⟨s, out, read, pass, rfl⟩
    exact ⟨s, read, out, pass, rfl⟩

theorem invoke_plan_of_reconcile {request : Bytes} {plan : Plan}
    (read : Payload.decode request = .ok s) (pass : c.reconciler.reconcile s = .ok out)
    (planned : Plan.between s out = .ok plan) :
    c.invoke .plan request = .ok plan.toJson.bytes := by
  simp [invoke, Payload.request, Controller.plan, read, pass, planned]

theorem members_without_events (s : State) :
    ({ s with events := [] } : State).members = Entries.erase "events" s.members := by
  obtain ⟨object, dependents, references, events, requeue, after⟩ := s
  have other {α : Type} (toJson : α → Json) (x : Option α) :
      (Json.optional "requeueAfter" toJson x).filter (fun e => decide (e.1 ≠ "events")) =
        Json.optional "requeueAfter" toJson x := by
    cases x <;> rfl
  simp only [State.members, Entries.erase, List.filter_append, other]
  cases references.isEmpty <;> cases events.isEmpty <;> cases requeue <;> rfl

/-- **Convergence.** When a pass answers a request whose numbers are integers of 64 bits, its
response is itself a request. A pass on it answers with the same document, less its events, and a
plan for it has no parent and nothing to create, update or delete. -/
theorem reconcile_converges (registered : c ∈ all) {request response : Bytes}
    (words : request.HasWords) (answered : c.invoke .reconcile request = .ok response) :
    ∃ members, response = (Json.object members).bytes ∧
      c.invoke .reconcile response = .ok (Json.object (Entries.erase "events" members)).bytes ∧
      c.invoke .plan response = .ok (Json.object
        [("created", .array []), ("updated", .array []), ("deleted", .array [])]).bytes := by
  obtain ⟨s, out, read, pass, rfl⟩ := invoke_reconcile_eq_ok_iff.1 answered
  have portable : out.Portable 120 :=
    reconcile_portable registered (State.portable_of_decode words read) pass
  have again : Payload.decode (Json.object out.members).bytes = .ok out.wholeSeconds :=
    State.decode_encode portable
  have settled := reconcile_wholeSeconds registered (reconcile_result_again registered pass)
  have allowed := Reconciler.reconcile_allows settled
  have named : ∀ e ∈ out.wholeSeconds.dependents.entries, ∀ o ∈ e.2,
      ∃ name, o.name = some name := by
    intro e he o ho
    obtain ⟨name, named, _⟩ := (allowed.belong e he o ho).name
    exact ⟨name, named⟩
  have same := State.toJson_wholeSeconds { out with events := [] }
  refine ⟨out.members, rfl, ?_, ?_⟩
  · refine invoke_reconcile_eq_ok_iff.2 ⟨_, _, again, settled, ?_⟩
    rw [← members_without_events]
    exact congrArg Json.bytes same.symm
  · exact invoke_plan_of_reconcile again settled (Plan.between_self [] named)

theorem admitted_portable : admitted.Portable 120 := by
  have spec : (Json.object [("image", .string "nginx"), ("replicas", .ofInt 2)]).Legible
      Number.IsWord 125 :=
    (Json.legible_empty.insert "image" (Json.legible_string _)).insert "replicas"
      (Json.legible_ofInt (by decide) (by decide))
  refine ⟨⟨?_, ?_, by simp [admitted, Object.blank], by simp [admitted, Object.blank,
    SortedMap.empty]⟩, Dependents.legible_empty, Dependents.legible_empty⟩
  · rintro m ⟨⟩
    exact ⟨by simp [Metadata.blank], by simp [Metadata.blank], by simp [Metadata.blank]⟩
  · rintro v ⟨⟩
    exact ⟨by simp, spec⟩

/-- The Deployment is created for one request, and nothing is left to do for its response. -/
theorem reconcile_converges_after_creation :
    let request : Bytes := (Json.object admitted.members).bytes
    ∃ members, ContainerSet.controller.invoke .reconcile request = .ok (Json.object members).bytes ∧
      ContainerSet.controller.invoke .reconcile (Json.object members).bytes =
        .ok (Json.object (Entries.erase "events" members)).bytes ∧
      ContainerSet.controller.invoke .plan (Json.object members).bytes = .ok (Json.object
        [("created", .array []), ("updated", .array []), ("deleted", .array [])]).bytes := by
  intro request
  have registered : ContainerSet.controller ∈ all := mem_all_iff.2 (.inl rfl)
  have words : request.HasWords := Json.hasWords_bytes (State.fits_toJson admitted_portable)
  have read : Payload.decode request = .ok admitted.wholeSeconds :=
    State.decode_encode admitted_portable
  obtain ⟨out, pass⟩ : ∃ out, ContainerSet.reconciler.reconcile admitted.wholeSeconds = .ok out :=
    ⟨_, rfl⟩
  have answered : ContainerSet.controller.invoke .reconcile request =
      .ok (Json.object out.members).bytes :=
    invoke_reconcile_eq_ok_iff.2 ⟨_, out, read, pass, rfl⟩
  obtain ⟨members, same, again, planned⟩ := reconcile_converges registered words answered
  rw [same] at answered again planned
  exact ⟨members, answered, again, planned⟩

end Controller

end ControllerHooks
