import ControllerHooks.Proofs.Reconcile.Idempotence

/-!
# Passes have no memory

The specification of a container set changes from time to time, with a pass after each change.

* `ContainerSet.passes_forget`: what the passes leave is what one pass leaves that sees only the
  last specification, whether the Deployment is there at the start or is created on the way.
-/

namespace ControllerHooks

/-- The state after its parent's specification was replaced. -/
def State.withSpec (s : State) (spec : Json) : State :=
  { s with object := { s.object with spec := some spec } }

/-- Passes one after another, each on what the one before it left, with its own specification. -/
def Reconciler.passes (r : Reconciler) (s : State) (specs : List Json) : Except Fault State :=
  specs.foldlM (fun t spec => r.reconcile (t.withSpec spec)) s

namespace ContainerSet

variable {s t u : State} {v w : Json}

/-- A status that is set twice is as if it was set once, whatever the specification is then. -/
theorem insertStatus_over {field : String} {x y : Json} {o first second : Object}
    (h₁ : Object.insertStatus field x { o with spec := some v } = .ok first)
    (h₂ : Object.insertStatus field y { first with spec := some w } = .ok second) :
    Object.insertStatus field y { o with spec := some w } = .ok second := by
  obtain ⟨members, opened, rfl⟩ := Object.insertStatus_eq_ok_iff.1 h₁
  obtain ⟨_, opened', rfl⟩ := Object.insertStatus_eq_ok_iff.1 h₂
  cases opened'
  exact Object.insertStatus_eq_ok_iff.2 ⟨members, opened, by rw [Entries.insert_over]⟩

/-- The parent that a pass leaves asks for the same as before under another specification. -/
theorem desired_withSpec {field : String} {x : Json} {o first : Object}
    (h : Object.insertStatus field x { o with spec := some v } = .ok first) :
    desired { o with spec := some w } = desired { first with spec := some w } := by
  obtain ⟨_, _, rfl⟩ := Object.insertStatus_eq_ok_iff.1 h
  exact desired_congr rfl rfl

/-- Two specifications of one parent ask for a Deployment under the same name. -/
theorem identity_of_specs {o : Object} {d e : Desired}
    (h₁ : desired { o with spec := some v } = .ok d)
    (h₂ : desired { o with spec := some w } = .ok e) :
    d.name = e.name ∧ d.inNamespace = e.inNamespace := by
  obtain ⟨name, inNamespace⟩ := identity_of_desired h₁
  obtain ⟨name', inNamespace'⟩ := identity_of_desired h₂
  exact ⟨Option.some.inj (name.symm.trans name'),
    Option.some.inj (inNamespace.symm.trans inNamespace')⟩

/-- The work of two passes is done by the second alone, events apart. -/
theorem Pass.absorbed (first : Pass { s.withSpec v with events := [] } t)
    (second : Pass { t.withSpec w with events := [] } u) :
    ∃ once, Pass { s.withSpec w with events := [] } once ∧
      { once with events := [] } = { u with events := [] } := by
  cases first with
  | @created d object asked none inserted =>
    cases second with
    | created _ none' => simp [State.withSpec, Dependents.objects_insert] at none'
    | @updated e observed deployed last asked' one updated inserted' =>
      -- What was created for the first specification is updated to the one of the second.
      obtain rfl : deployment d = observed := by
        simpa [State.withSpec, Dependents.objects_insert] using one
      have asks := (desired_withSpec inserted).trans asked'
      obtain ⟨name, inNamespace⟩ := identity_of_specs asked asks
      obtain rfl := Except.ok.inj ((update_deployment name inNamespace).symm.trans updated)
      have status := insertStatus_over inserted inserted'
      refine ⟨_, .created asks none status, ?_⟩
      simp [State.withSpec, SortedMap.insert_over]
  | @updated d observed deployed object asked one updated inserted =>
    cases second with
    | created _ none => simp [State.withSpec, Dependents.objects_insert] at none
    | @updated e seen last final asked' one' updated' inserted' =>
      obtain rfl : deployed = seen := by
        simpa [State.withSpec, Dependents.objects_insert] using one'
      have asks := (desired_withSpec inserted).trans asked'
      rw [available_update updated] at inserted'
      have status := insertStatus_over inserted inserted'
      refine ⟨_, .updated asks one (update_over updated updated') status, ?_⟩
      simp [State.withSpec, SortedMap.insert_over]

/-- One pass does what two do, events apart. -/
theorem reconcile_over (first : reconciler.reconcile (s.withSpec v) = .ok t)
    (second : reconciler.reconcile (t.withSpec w) = .ok u) :
    ∃ once, reconciler.reconcile (s.withSpec w) = .ok once ∧
      { once with events := [] } = { u with events := [] } := by
  obtain ⟨permitted, after, ran, allowed, rfl⟩ := Reconciler.reconcile_eq_ok_iff.1 first
  obtain ⟨_, last, ran', allowed', rfl⟩ := Reconciler.reconcile_eq_ok_iff.1 second
  have pass : Pass { after.withSpec w with events := [] } last := body_eq_ok_iff.1 ran'
  obtain ⟨once, alone, same⟩ := (body_eq_ok_iff.1 ran).absorbed pass
  obtain ⟨object, dependents, _⟩ := State.mk.inj same
  have identity : Object.SameIdentity (s.withSpec w).object (after.withSpec w).object :=
    ⟨allowed.identity.apiVersion, allowed.identity.kind, allowed.identity.name,
      allowed.identity.inNamespace⟩
  have still : State.Allows reconciler.dependents (s.withSpec w) once := by
    refine ⟨?_, dependents ▸ allowed'.permitted, ?_⟩
    · rw [object]
      exact identity.trans allowed'.identity
    · rw [object, dependents]
      exact allowed'.belong
  refine ⟨_, Reconciler.reconcile_eq_ok_iff.2 ⟨permitted, once, body_eq_ok_iff.2 alone, still, rfl⟩,
    same⟩

/-- The pass with the last specification, alone, does what all passes do, events apart. -/
theorem passes_over {earlier : List Json} (ran : reconciler.passes s (earlier ++ [v]) = .ok t) :
    ∃ once, reconciler.reconcile (s.withSpec v) = .ok once ∧
      { once with events := [] } = { t with events := [] } := by
  -- Passes are taken off the front: the pass that stands for the later ones absorbs the first.
  induction earlier generalizing s with
  | nil =>
    simp only [Reconciler.passes, List.nil_append, List.foldlM_cons, List.foldlM_nil,
      bind_pure] at ran
    exact ⟨t, ran, rfl⟩
  | cons w rest ih =>
    obtain ⟨next, first, later⟩ := bind_eq_ok.1 ran
    obtain ⟨second, pass, same⟩ := ih later
    obtain ⟨once, alone, same'⟩ := reconcile_over first pass
    exact ⟨once, alone, same'.trans same⟩

/-- Where no Deployment was, a pass leaves the one that its parent asks for. -/
theorem deployment_of_reconcile {out : State} (absent : s.dependents.objects deployments.key = [])
    (ran : reconciler.reconcile s = .ok out) :
    ∃ d, desired s.object = .ok d ∧
      out.dependents.objects deployments.key = [deployment d] := by
  obtain ⟨_, after, body, _, rfl⟩ := Reconciler.reconcile_eq_ok_iff.1 ran
  cases body_eq_ok_iff.1 body with
  | created asked _ _ => exact ⟨_, asked, Dependents.objects_insert _ _ _⟩
  | updated _ one _ _ =>
    rw [absent] at one
    cases one

/-- **No memory.** Passes over any specifications leave what one pass with the last of them leaves,
events apart. So earlier specifications make no difference, and a Deployment that was created on
the way is the one that is built for the last specification. -/
theorem passes_forget {earlier : List Json} (ran : reconciler.passes s (earlier ++ [v]) = .ok t) :
    (∃ once, reconciler.reconcile (s.withSpec v) = .ok once ∧
      { t with events := [] } = { once with events := [] }) ∧
    (s.dependents.objects deployments.key = [] → ∃ d, desired (s.withSpec v).object = .ok d ∧
      t.dependents.objects deployments.key = [deployment d]) ∧
    ∀ others u, reconciler.passes s (others ++ [v]) = .ok u →
      { u with events := [] } = { t with events := [] } := by
  obtain ⟨once, alone, same⟩ := passes_over ran
  refine ⟨⟨once, alone, same.symm⟩, ?_, ?_⟩
  · intro absent
    obtain ⟨d, asked, built⟩ := deployment_of_reconcile (s := s.withSpec v) absent alone
    obtain ⟨_, dependents, _⟩ := State.mk.inj same
    exact ⟨d, asked, dependents ▸ built⟩
  · intro others u ran'
    obtain ⟨once', alone', same'⟩ := passes_over ran'
    obtain rfl := Except.ok.inj (alone.symm.trans alone')
    exact same'.symm.trans same

/-- The Deployment is created for one specification, and brought in line with another one. -/
theorem passes_forget_creation :
    let first : Json := .object [("image", .string "nginx"), ("replicas", .ofInt 2)]
    let last : Json := .object [("image", .string "httpd"), ("replicas", .ofInt 5)]
    ∃ t, reconciler.passes Controller.admitted ([first] ++ [last]) = .ok t ∧
      t.dependents.objects deployments.key = [deployment ⟨"web", "default", 5, "httpd"⟩] := by
  intro first last
  obtain ⟨t, ran⟩ : ∃ t, reconciler.passes Controller.admitted ([first] ++ [last]) = .ok t :=
    ⟨_, rfl⟩
  obtain ⟨_, created, _⟩ := passes_forget ran
  obtain ⟨d, asked, built⟩ := created rfl
  have asks : desired (Controller.admitted.withSpec last).object =
      .ok ⟨"web", "default", 5, "httpd"⟩ := rfl
  obtain rfl := Except.ok.inj (asks.symm.trans asked)
  exact ⟨t, ran, built⟩

end ContainerSet

end ControllerHooks
