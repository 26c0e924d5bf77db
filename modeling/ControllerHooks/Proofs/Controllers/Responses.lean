import ControllerHooks.CommandLine
import ControllerHooks.Proofs.Codec.NormalForm
import ControllerHooks.Proofs.Json.Lines
import ControllerHooks.Proofs.Reconcile.Plans

/-!
# Responses are single lines

* `Controller.isLine_of_invoke`: what a hook of a registered controller responds is one line with
  one document, whatever the request holds.
* `Invocation.run_writes_one_line`: a process writes this line, or fails and writes nothing.
-/

namespace ControllerHooks

variable {numbers : Number → Prop} {room : Nat}

/-! ## Plans -/

theorem DiffSummary.fits_toJson [Number.CoversWords numbers] {s : DiffSummary} {n : Nat}
    (counts : s.Counts n) (few : n ≤ 2) : (Payload.toJson s : Json).Within numbers (room + 1) := by
  have word {k : Nat} (small : k ≤ 2) : (Json.ofNat k).Within numbers room :=
    .number (Number.CoversWords.covers ⟨by omega, by omega⟩)
  obtain ⟨removes, _, total⟩ := counts
  refine .object ?_
  simp only [List.forall_mem_cons]
  exact ⟨word (by omega), word (by omega), word (by omega), by simp⟩

theorem ObjectRef.fits_members (r : ObjectRef) : ∀ m ∈ r.members, m.2.Within numbers room := by
  simp only [members, List.forall_mem_append, Json.forall_mem_optional, List.forall_mem_singleton]
  exact ⟨⟨.string _, fun _ _ => .string _⟩, .string _⟩

namespace Plan

/-- A plan that counts a few operations only. -/
structure IsSmall (p : Plan) : Prop where
  parent : ∀ s ∈ p.parent, s.Counts 1
  updated : ∀ c ∈ p.updated, c.summary.Counts 2

theorem IsSmall.fits_toJson [Number.CoversWords numbers] {p : Plan} (small : p.IsSmall) :
    p.toJson.Within numbers (room + 4) := by
  have refs (rs : List ObjectRef) :
      (Json.array (rs.map ObjectRef.toJson)).Within numbers (room + 3) :=
    Json.fits_array_map fun r _ => .object r.fits_members
  have changes : (Json.array (p.updated.map changeJson)).Within numbers (room + 3) := by
    refine Json.fits_array_map fun c hc => .object ?_
    simp only [List.forall_mem_append, List.forall_mem_singleton]
    exact ⟨c.target.fits_members, DiffSummary.fits_toJson (small.updated c hc) le_rfl⟩
  refine .object ?_
  simp only [List.forall_mem_append, Json.forall_mem_optional, List.forall_mem_cons]
  refine ⟨fun s hs => ?_, refs _, changes, refs _, by simp⟩
  exact DiffSummary.fits_toJson (small.parent s hs) (by decide)

variable {observed desired : State} {p : Plan}

theorem Describes.parent_counts (h : p.Describes observed desired) :
    ∀ s ∈ p.parent, s.Counts 1 := by
  rintro s here
  cases same : observed.object.same desired.object with
  | true =>
    rw [h.unchanged same] at here
    cases here
  | false =>
    obtain ⟨counts, there, few⟩ := h.changed same
    obtain rfl := Option.some.inj (there.symm.trans here)
    exact few

end Plan

theorem ContainerSet.Planned.updated_counts {observed desired : State} {p : Plan}
    (h : Planned observed desired p) : ∀ c ∈ p.updated, c.summary.Counts 2 := by
  cases h with
  | created _ _ _ nothing | kept _ _ _ _ nothing => simp [nothing]
  | updated _ _ _ _ _ one few => simpa [one] using few

namespace Controller

variable {c : Controller} {hook : Hook} {request response : Bytes}

theorem isSmall_of_between (registered : c ∈ all) {s out : State} (ordered : s.Ordered)
    (pass : c.reconciler.reconcile s = .ok out) {p : Plan} (planned : Plan.between s out = .ok p) :
    p.IsSmall := by
  obtain ⟨plan, same, describes, deployment, nothing⟩ := plan_of_reconcile registered ordered pass
  obtain rfl := Except.ok.inj (same.symm.trans planned)
  refine ⟨describes.parent_counts, ?_⟩
  rcases mem_all_iff.1 registered with rfl | rfl
  · exact (deployment rfl).updated_counts
  · simp [(nothing rfl).2]

/-! ## Responses -/

/-- The numbers of a request are finite, so those of a state that a pass makes of it are. -/
theorem fits_of_reconcile (registered : c ∈ all) {s out : State}
    (read : Payload.decode request = .ok s) (pass : c.reconciler.reconcile s = .ok out) :
    (Payload.toJson out : Json).Within Number.IsFinite Document.depthLimit := by
  have finite : (Document.parse request).root.Within Number.IsFinite Document.depthLimit :=
    Document.parse_within fun _ => Token.isFinite_of_mem_lex
  have legible : s.Legible Number.IsFinite 120 :=
    State.legible_of_read (Payload.read_of_decode read) finite
  exact State.fits_toJson (reconcile_legible registered legible pass)

theorem isLine_of_invoke (registered : c ∈ all) (h : c.invoke hook request = .ok response) :
    response.IsLine := by
  cases hook with
  | validate | mutate =>
    simp only [invoke, bind_eq_ok, pure_eq_ok_value, Except.ok.injEq] at h
    obtain ⟨_, _, answer, _, rfl⟩ := h
    exact Json.isLine_bytes answer.fits_toJson
  | reconcile =>
    obtain ⟨s, out, read, pass, rfl⟩ := invoke_reconcile_eq_ok_iff.1 h
    exact Json.isLine_bytes (fits_of_reconcile registered read pass)
  | plan =>
    simp only [invoke, Controller.plan, bind_eq_ok, Payload.request, mapError_eq_ok,
      pure_eq_ok_value, Except.ok.injEq] at h
    obtain ⟨s, read, p, ⟨out, pass, planned⟩, rfl⟩ := h
    have small := isSmall_of_between registered (State.ordered_of_decode read) pass planned
    exact Json.isLine_bytes small.fits_toJson

theorem find?_name (registered : c ∈ all) : find? c.name = some c := by
  rcases mem_all_iff.1 registered with rfl | rfl <;> rfl

end Controller

/-! ## The process -/

namespace Invocation

variable {c : Controller}

/-- **One line or nothing.** The process of a hook succeeds and writes what the hook responds, one
line with one document in it, or it fails and writes nothing, since the hook faults. -/
theorem run_writes_one_line (registered : c ∈ Controller.all) (hook : Hook) (request : Bytes) :
    (∃ response, c.invoke hook request = .ok response ∧
      run ⟨some c.name, .hook hook⟩ request = ⟨0, response⟩ ∧ response.IsLine) ∨
    ∃ fault, c.invoke hook request = .error fault ∧
      run ⟨some c.name, .hook hook⟩ request = ⟨1, []⟩ := by
  have ran : run ⟨some c.name, .hook hook⟩ request = .ofResult (c.invoke hook request) := by
    simp [run, Controller.find?_name registered]
  cases answer : c.invoke hook request with
  | ok response =>
    refine .inl ⟨response, rfl, ?_, Controller.isLine_of_invoke registered answer⟩
    rw [ran, answer]
    rfl
  | error fault =>
    refine .inr ⟨fault, rfl, ?_⟩
    rw [ran, answer]
    rfl

/-- A container set whose names and annotations hold what must not be written as it is. -/
def unruly : State :=
  { Controller.admitted with
    object := { Controller.admitted.object with
      metadata := some { Metadata.blank with
        name := some "we\"b\\\x01é😀"
        inNamespace := some "a\r\nb"
        annotations := some (SortedMap.empty.insert "\x1f\t" "\n") } } }

theorem unruly_portable : unruly.Portable 120 := by
  obtain ⟨⟨_, spec, status, extra⟩, dependents, references⟩ := Controller.admitted_portable
  refine ⟨⟨?_, spec, status, extra⟩, dependents, references⟩
  rintro m ⟨⟩
  exact ⟨by simp [Metadata.blank], by simp [Metadata.blank], by simp [Metadata.blank]⟩

/-- Its Deployment is created in one line, and a text that is no request is not answered. -/
theorem run_writes_one_line_of_unruly_request :
    let request : Bytes := (Json.object unruly.members).bytes
    let process : Invocation := ⟨some ContainerSet.controller.name, .hook .reconcile⟩
    (∃ out : State, out.dependents.objects ContainerSet.deployments.key =
        [ContainerSet.deployment ⟨"we\"b\\\x01é😀", "a\r\nb", 2, "nginx"⟩] ∧
      run process request = ⟨0, Payload.encode out⟩ ∧ (Payload.encode out).IsLine) ∧
    run process (Json.string "\n").bytes = ⟨1, []⟩ := by
  intro request process
  have registered : ContainerSet.controller ∈ Controller.all := Controller.mem_all_iff.2 (.inl rfl)
  constructor
  · have read : Payload.decode request = .ok unruly.wholeSeconds :=
      State.decode_encode unruly_portable
    obtain ⟨out, pass, created⟩ : ∃ out,
        ContainerSet.reconciler.reconcile unruly.wholeSeconds = .ok out ∧
        out.dependents.objects ContainerSet.deployments.key =
          [ContainerSet.deployment ⟨"we\"b\\\x01é😀", "a\r\nb", 2, "nginx"⟩] :=
      ⟨_, rfl, rfl⟩
    have completed : ContainerSet.controller.invoke .reconcile request = .ok (Payload.encode out) :=
      Controller.invoke_reconcile_eq_ok_iff.2 ⟨_, out, read, pass, rfl⟩
    rcases run_writes_one_line registered .reconcile request with
      ⟨response, answered, ran, line⟩ | ⟨fault, failed, _⟩
    · obtain rfl := Except.ok.inj (completed.symm.trans answered)
      exact ⟨out, created, ran, line⟩
    · rw [completed] at failed
      cases failed
  · have unread : ∃ e, ContainerSet.controller.invoke .reconcile (Json.string "\n").bytes =
        .error (.decode e) := by
      have fits : (Json.string "\n").Fits Document.depthLimit := .string _
      have read : (Payload.decode (Json.string "\n").bytes : Except DecodeError State) =
          Payload.read (Doc.ofJson .text (.string "\n")) := Payload.decode_bytes fits
      simp only [Controller.invoke, Payload.request, read]
      exact ⟨_, rfl⟩
    obtain ⟨e, faulted⟩ := unread
    rcases run_writes_one_line registered .reconcile (Json.string "\n").bytes with
      ⟨response, answered, _⟩ | ⟨_, _, ran⟩
    · rw [faulted] at answered
      cases answered
    · exact ran

end Invocation

end ControllerHooks
