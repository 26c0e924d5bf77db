import ControllerHooks.Patch.Apply
import ControllerHooks.Proofs.Outcome

/-!
# One operation after another

A patch is applied operation by operation, each to what the ones before it have made, and what
takes them back is collected on the way.

* `Patch.Applied` is such a run; `Patch.apply_eq_ok_iff`: a patch that goes through is one.
* `Patch.apply_cons` and `Patch.apply_append`: a patch may be applied in parts.
* `Patch.applyFrom_eq_error`: a patch that fails is a run up to the operation that fails.
-/

namespace ControllerHooks.Patch

/-- Operations that go through one after another, with all that undoes them, in the order in which
it is to be done. -/
inductive Applied : Patch → Json → Json → List Undo → Prop
  | done (d : Json) : Applied [] d d []
  | step {op : Operation} {rest : Patch} {d mid last : Json} {first later : List Undo} :
    op.run d = .ok (mid, first) → Applied rest mid last later →
    Applied (op :: rest) d last (later ++ first)

theorem applyFrom_eq_ok_iff {p : Patch} {d last : Json} {i : Nat} {undos : List Undo} :
    applyFrom i undos p d = .ok last ↔ ∃ more, Applied p d last more := by
  induction p generalizing i undos d with
  | nil =>
    constructor
    · intro h
      obtain rfl := Except.ok.inj h
      exact ⟨[], .done d⟩
    · rintro ⟨_, ⟨⟩⟩
      rfl
  | cons op rest ih =>
    simp only [applyFrom]
    cases ran : op.run d with
    | error e =>
      simp only [reduceCtorEq, false_iff]
      rintro ⟨_, _ | ⟨went, _⟩⟩
      cases ran.symm.trans went
    | ok result =>
      rw [ih]
      constructor
      · rintro ⟨later, run⟩
        exact ⟨_, .step ran run⟩
      · rintro ⟨_, _ | ⟨went, run⟩⟩
        obtain rfl := Except.ok.inj (ran.symm.trans went)
        exact ⟨_, run⟩

theorem apply_eq_ok_iff {p : Patch} {d last : Json} :
    apply p d = .ok last ↔ ∃ undos, Applied p d last undos := applyFrom_eq_ok_iff

theorem apply_singleton {op : Operation} {d last : Json} :
    apply [op] d = .ok last ↔ ∃ undos, op.run d = .ok (last, undos) := by
  simp only [apply, applyFrom]
  cases op.run d with
  | error e => simp
  | ok result => simp [Prod.ext_iff]

theorem apply_cons {op : Operation} {rest : Patch} {v w : Json} :
    apply (op :: rest) v = .ok w ↔ ∃ mid, apply [op] v = .ok mid ∧ apply rest mid = .ok w := by
  constructor
  · intro h
    obtain ⟨_, _ | ⟨ran, run⟩⟩ := apply_eq_ok_iff.1 h
    exact ⟨_, apply_singleton.2 ⟨_, ran⟩, apply_eq_ok_iff.2 ⟨_, run⟩⟩
  · rintro ⟨mid, first, later⟩
    obtain ⟨_, ran⟩ := apply_singleton.1 first
    obtain ⟨_, run⟩ := apply_eq_ok_iff.1 later
    exact apply_eq_ok_iff.2 ⟨_, .step ran run⟩

theorem apply_append {p q : Patch} {v w : Json} :
    apply (p ++ q) v = .ok w ↔ ∃ mid, apply p v = .ok mid ∧ apply q mid = .ok w := by
  induction p generalizing v with
  | nil =>
    constructor
    · exact fun h => ⟨v, rfl, h⟩
    · rintro ⟨_, same, h⟩
      obtain rfl := Except.ok.inj same
      exact h
  | cons op rest ih =>
    constructor
    · intro h
      obtain ⟨first, ran, later⟩ := apply_cons.1 h
      obtain ⟨mid, left, right⟩ := ih.1 later
      exact ⟨mid, apply_cons.2 ⟨first, ran, left⟩, right⟩
    · rintro ⟨mid, h, right⟩
      obtain ⟨first, ran, left⟩ := apply_cons.1 h
      exact apply_cons.2 ⟨first, ran, ih.2 ⟨mid, left, right⟩⟩

/-- A patch that fails is a run up to the operation that fails, and then all of the run is taken
back, whatever has been left by that operation. -/
theorem applyFrom_eq_error {p : Patch} {d : Json} {i : Nat} {undos : List Undo}
    {failure : Failure} (h : applyFrom i undos p d = .error failure) :
    ∃ done op rest mid more left, p = done ++ op :: rest ∧ Applied done d mid more ∧
      op.run mid = .error (failure.reason, left) ∧ failure.index = i + done.length ∧
      failure.path = op.path ∧ failure.document = undoAll left (more ++ undos) := by
  induction p generalizing i undos d with
  | nil => cases h
  | cons op rest ih =>
    simp only [applyFrom] at h
    cases ran : op.run d with
    | error e =>
      rw [ran] at h
      obtain rfl := Except.error.inj h
      exact ⟨[], op, rest, d, [], e.2, rfl, .done d, ran, rfl, rfl, rfl⟩
    | ok result =>
      rw [ran] at h
      obtain ⟨done, bad, after, mid, more, left, rfl, went, failed, index, path, document⟩ := ih h
      refine ⟨op :: done, bad, after, mid, more ++ result.2, left, rfl, .step ran went, failed, ?_,
        path, ?_⟩
      · rw [index, List.length_cons]
        omega
      · rw [document, List.append_assoc]

end ControllerHooks.Patch
