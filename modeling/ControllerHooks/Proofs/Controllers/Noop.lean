import ControllerHooks.Controllers.Noop
import ControllerHooks.Proofs.Entries
import ControllerHooks.Proofs.Outcome

/-!
# What a noop object does in a pass

* `PhaseTracker.apply_eq_ok_iff`: a tracker sets an unset phase, or does nothing.
* `Noop.body_again`: once completed, an object stays as it is.
-/

namespace ControllerHooks

namespace PhaseTracker

variable {t : PhaseTracker} {s : State}

theorem apply_of_set (h : isUnset (s.object.statusField "phase") = false) :
    t.apply s = .ok (s, false) := by
  simp [apply, h]

theorem apply_eq_ok_iff {result : State × Bool} :
    t.apply s = .ok result ↔
      (isUnset (s.object.statusField "phase") = false ∧ result = (s, false)) ∨
      (isUnset (s.object.statusField "phase") = true ∧ ∃ members,
        Object.openPart "status" s.object.status = .ok members ∧
        result = ({ s with
          object := { s.object with
            status := some (.object (Entries.insert "phase" (.string t.phase) members)) }
          events := s.events ++ t.event.toList }, true)) := by
  cases unset : isUnset (s.object.statusField "phase") with
  | false => simp [apply, unset, eq_comm]
  | true =>
    simp only [apply, unset, Object.insertStatus, bind_eq_ok, pure_eq_ok_value, if_true]
    cases Object.openPart "status" s.object.status <;> simp [eq_comm]

/-- A phase that is not empty stays set. -/
theorem isUnset_of_phase {o : Object} {members : List (String × Json)} {phase : String}
    (some_phase : phase ≠ "")
    (status : o.status = some (.object (Entries.insert "phase" (.string phase) members))) :
    isUnset (o.statusField "phase") = false := by
  simp [Object.statusField, status, Json.get?, Entries.find?_insert_self, isUnset, some_phase]

end PhaseTracker

namespace Noop

theorem body_eq_ok_iff {s t : State} :
    body s = .ok t ↔ ∃ set, tracker.apply s = .ok (t, set) := by
  simp [body, bind_eq_ok, Prod.exists]

/-- Seeing its own result, the pass finds the phase set. -/
theorem body_again {s t : State} (h : body s = .ok t) :
    body { t with events := [] } = .ok { t with events := [] } := by
  obtain ⟨set, applied⟩ := body_eq_ok_iff.1 h
  refine body_eq_ok_iff.2 ⟨false, PhaseTracker.apply_of_set ?_⟩
  rcases PhaseTracker.apply_eq_ok_iff.1 applied with ⟨unset, result⟩ | ⟨_, members, _, result⟩
  · obtain rfl : t = s := congrArg Prod.fst result
    exact unset
  · obtain rfl : t = _ := congrArg Prod.fst result
    exact PhaseTracker.isUnset_of_phase (by decide) rfl

end Noop

end ControllerHooks
