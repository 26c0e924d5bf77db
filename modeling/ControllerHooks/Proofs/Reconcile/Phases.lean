import ControllerHooks.Proofs.Controllers.Noop
import ControllerHooks.Proofs.Json.Frames
import ControllerHooks.Proofs.Reconcile.Checks

/-!
# Phases over a run

A tracker looks for a phase in whatever the status is, and writes it into an object. Over any run
of trackers the first one sets a missing phase, and from then on nothing happens.

* `PhaseTracker.applyInPlace` writes into the state step by step;
  `PhaseTracker.applyInPlace_eq`: when it fails, nothing was written.
* `PhaseTracker.phases_are_one_way`: what each application of a run does, and in which pass a noop
  object is completed.
-/

namespace ControllerHooks

open Json (SameBut)

namespace Object

/-- A phase is set: the status has one, and it is neither null nor an empty text. -/
def HasPhase (o : Object) : Prop :=
  ∃ members phase, o.status = some (.object members) ∧
    Entries.find? "phase" members = some phase ∧ phase ≠ .null ∧ phase ≠ .string ""

/-- The status can be written to. -/
def TakesStatus (o : Object) : Prop :=
  o.status = none ∨ ∃ members, o.status = some (.object members)

/-- The object with a status, made when absent, and the members of that. -/
def openStatus (o : Object) : Object × Except Fault (List (String × Json)) :=
  let status := o.status.getD (.object [])
  ({ o with status := some status }, openPart "status" (some status))

theorem openStatus_of_takes {o : Object} (h : o.TakesStatus) :
    ∃ members, o.status.getD (.object []) = .object members ∧
      openPart "status" o.status = .ok members ∧
      o.openStatus = ({ o with status := some (.object members) }, .ok members) := by
  rcases h with absent | ⟨members, stands⟩
  · exact ⟨[], by rw [absent]; rfl, by rw [absent]; rfl, by rw [openStatus, absent]; rfl⟩
  · exact ⟨members, by rw [stands]; rfl, by rw [stands]; rfl, by rw [openStatus, stands]; rfl⟩

theorem openStatus_of_not_takes {o : Object} (h : ¬ o.TakesStatus) :
    openPart "status" o.status = .error (.invalidField "status" "not an object") ∧
      o.openStatus = (o, .error (.invalidField "status" "not an object")) := by
  cases status : o.status with
  | none => exact absurd (.inl status) h
  | some v =>
    have whole : { o with status := some v } = o := by rw [← status]
    cases v with
    | object members => exact absurd (.inr ⟨members, status⟩) h
    | null | bool | number | string | array =>
      exact ⟨rfl, by rw [openStatus, status, Option.getD_some, whole]; rfl⟩

end Object

namespace PhaseTracker

/-! ## One application -/

theorem isUnset_eq_false_iff {o : Object} :
    isUnset (o.statusField "phase") = false ↔ o.HasPhase := by
  unfold Object.statusField Object.HasPhase
  constructor
  · intro set
    cases status : o.status with
    | none => simp [status, isUnset] at set
    | some v =>
      cases v with
      | object members =>
        cases phase : Entries.find? "phase" members with
        | none => simp [status, Json.get?, phase, isUnset] at set
        | some value =>
          refine ⟨members, value, rfl, phase, ?_, ?_⟩
          · rintro rfl
            simp [status, Json.get?, phase, isUnset] at set
          · rintro rfl
            simp [status, Json.get?, phase, isUnset] at set
      | null | bool | number | string | array => simp [status, Json.get?, isUnset] at set
  · rintro ⟨members, phase, status, found, notNull, notEmpty⟩
    rw [status, Option.bind_some, Json.get?, found]
    cases phase with
    | null => exact absurd rfl notNull
    | string text => simpa [isUnset] using notEmpty
    | bool | number | array | object => rfl

/-- Apply a tracker to a state that is written to on the way. A fault leaves it as far as it got. -/
def applyInPlace (t : PhaseTracker) (s : State) : State × Except Fault Bool :=
  if isUnset (s.object.statusField "phase") then
    match s.object.openStatus with
    | (object, .ok members) =>
      let status := Json.object (Entries.insert "phase" (.string t.phase) members)
      let written := { s with object := { object with status := some status } }
      (t.event.elim written written.emit, .ok true)
    | (object, .error fault) => ({ s with object }, .error fault)
  else (s, .ok false)

variable {t : PhaseTracker} {s : State}

theorem applyInPlace_of_set (h : s.object.HasPhase) : t.applyInPlace s = (s, .ok false) := by
  simp [applyInPlace, isUnset_eq_false_iff.2 h]

theorem isUnset_of_not_hasPhase (h : ¬ s.object.HasPhase) :
    isUnset (s.object.statusField "phase") = true :=
  eq_true_of_ne_false (mt isUnset_eq_false_iff.1 h)

theorem applyInPlace_of_takes (unset : ¬ s.object.HasPhase) (takes : s.object.TakesStatus) :
    ∃ members, s.object.status.getD (.object []) = .object members ∧
      Object.openPart "status" s.object.status = .ok members ∧
      t.applyInPlace s = ({ s with
        object := { s.object with
          status := some (.object (Entries.insert "phase" (.string t.phase) members)) }
        events := s.events ++ t.event.toList }, .ok true) := by
  obtain ⟨members, whole, opened, written⟩ := Object.openStatus_of_takes takes
  refine ⟨members, whole, opened, ?_⟩
  rw [applyInPlace, if_pos (isUnset_of_not_hasPhase unset), written]
  cases t.event <;> simp [State.emit]

theorem applyInPlace_of_not_takes (unset : ¬ s.object.HasPhase) (h : ¬ s.object.TakesStatus) :
    t.applyInPlace s = (s, .error (.invalidField "status" "not an object")) := by
  rw [applyInPlace, if_pos (isUnset_of_not_hasPhase unset), (Object.openStatus_of_not_takes h).2]

/-- What becomes of a state when a tracker is applied to it as a whole. A fault leaves it alone. -/
def outcome (t : PhaseTracker) (s : State) : State × Except Fault Bool :=
  match t.apply s with
  | .ok (next, set) => (next, .ok set)
  | .error fault => (s, .error fault)

/-- Writing on the way comes to the same: nothing is written before a fault. -/
theorem applyInPlace_eq (t : PhaseTracker) (s : State) : t.applyInPlace s = t.outcome s := by
  unfold outcome
  by_cases set : s.object.HasPhase
  · rw [applyInPlace_of_set set, apply_of_set (isUnset_eq_false_iff.2 set)]
  · have unset := isUnset_of_not_hasPhase set
    by_cases takes : s.object.TakesStatus
    · obtain ⟨members, _, opened, written⟩ := applyInPlace_of_takes (t := t) set takes
      rw [written, apply_eq_ok_iff.2 (.inr ⟨unset, members, opened, rfl⟩)]
    · obtain ⟨refused, _⟩ := Object.openStatus_of_not_takes takes
      have failed : t.apply s = .error (.invalidField "status" "not an object") := by
        simp [apply, unset, Object.insertStatus, refused]
      rw [applyInPlace_of_not_takes set takes, failed]

/-! ## Runs -/

/-- One application of a tracker within a run. -/
structure Application where
  tracker : PhaseTracker
  before : State
  after : State
  answer : Except Fault Bool

/-- Trackers that are applied to a state one after another. After some of them the events are
cleared. -/
def applications : State → List (PhaseTracker × Bool) → List Application
  | _, [] => []
  | s, (t, cleared) :: later =>
    let (after, answer) := t.applyInPlace s
    ⟨t, s, after, answer⟩ ::
      applications (if cleared then { after with events := [] } else after) later

namespace Application

/-- Nothing was to do. -/
def Idle (a : Application) : Prop := a.answer = .ok false ∧ a.after = a.before

/-- The status cannot be written to, and was not. -/
def Refused (a : Application) : Prop :=
  a.answer = .error (.invalidField "status" "not an object") ∧ a.after = a.before

/-- The phase was set in a status with these members, the tracker's event told, and nothing else
done. -/
structure Sets (a : Application) (members : List (String × Json)) : Prop where
  answer : a.answer = .ok true
  status : a.before.object.status.getD (.object []) = .object members
  after : a.after = { a.before with
    object := { a.before.object with
      status := some (.object (Entries.insert "phase" (.string a.tracker.phase) members)) }
    events := a.before.events ++ a.tracker.event.toList }
  beside : SameBut [["phase"]] (.object members)
    (.object (Entries.insert "phase" (.string a.tracker.phase) members))

end Application

/-- Each application in a run is an application to a state as a whole. -/
theorem outcome_of_mem {steps : List (PhaseTracker × Bool)} {a : Application}
    (h : a ∈ applications s steps) : a.tracker.outcome a.before = (a.after, a.answer) := by
  induction steps generalizing s with
  | nil => cases h
  | cons step later ih =>
    rcases List.mem_cons.1 h with rfl | h
    · exact (applyInPlace_eq _ _).symm
    · exact ih h

theorem clear_object (cleared : Bool) (s : State) :
    (if cleared then { s with events := [] } else s).object = s.object := by
  cases cleared <;> rfl

theorem idle_of_hasPhase {steps : List (PhaseTracker × Bool)} (set : s.object.HasPhase) :
    ∀ a ∈ applications s steps, a.Idle := by
  induction steps generalizing s with
  | nil => exact List.forall_mem_nil _
  | cons step later ih =>
    obtain ⟨t, cleared⟩ := step
    rw [applications, applyInPlace_of_set set]
    refine List.forall_mem_cons.2 ⟨⟨rfl, rfl⟩, ih ?_⟩
    rw [clear_object]
    exact set

theorem refused_of_not_takes {steps : List (PhaseTracker × Bool)} (unset : ¬ s.object.HasPhase)
    (closed : ¬ s.object.TakesStatus) : ∀ a ∈ applications s steps, a.Refused := by
  induction steps generalizing s with
  | nil => exact List.forall_mem_nil _
  | cons step later ih =>
    obtain ⟨t, cleared⟩ := step
    rw [applications, applyInPlace_of_not_takes unset closed]
    refine List.forall_mem_cons.2 ⟨⟨rfl, rfl⟩, ih ?_ ?_⟩
    · rw [clear_object]
      exact unset
    · rw [clear_object]
      exact closed

theorem hasPhase_insert {o : Object} {phase : String} (nonempty : phase ≠ "")
    {members : List (String × Json)}
    (status : o.status = some (.object (Entries.insert "phase" (.string phase) members))) :
    o.HasPhase :=
  isUnset_eq_false_iff.1 (isUnset_of_phase nonempty status)

theorem sets_then_idle {steps : List (PhaseTracker × Bool)}
    (nonempty : ∀ step ∈ steps, step.1.phase ≠ "") (unset : ¬ s.object.HasPhase)
    (takes : s.object.TakesStatus) {first : Application} {later : List Application}
    (run : applications s steps = first :: later) :
    (∃ members, first.Sets members) ∧ ∀ a ∈ later, a.Idle := by
  cases steps with
  | nil => cases run
  | cons step rest =>
    obtain ⟨t, cleared⟩ := step
    obtain ⟨members, whole, _, written⟩ := applyInPlace_of_takes (t := t) unset takes
    rw [applications, written] at run
    obtain ⟨rfl, rfl⟩ := List.cons.inj run
    have beside := SameBut.insert "phase" (.string t.phase) members
    refine ⟨⟨members, rfl, whole, rfl, beside⟩, idle_of_hasPhase ?_⟩
    rw [clear_object]
    exact hasPhase_insert (nonempty _ List.mem_cons_self) rfl

end PhaseTracker

/-! ## Passes over a noop object -/

/-- A number of passes, each with its answer. A pass that faults leaves what was observed. -/
def Reconciler.attempts (r : Reconciler) : Nat → State → List (State × Except Fault State)
  | 0, _ => []
  | n + 1, s => (s, r.reconcile s) :: r.attempts n ((r.reconcile s).toOption.getD s)

namespace Noop

def completed : Event := .normal "Completed" "reconciliation completed"

/-- The event is told in this pass. -/
def tells : State × Except Fault State → Bool
  | (_, .ok out) => out.events.contains completed
  | (_, .error _) => false

/-- The phase is another one after the pass. -/
def changesPhase : State × Except Fault State → Bool
  | (s, .ok out) => out.object.statusField "phase" ≠ s.object.statusField "phase"
  | (_, .error _) => false

theorem reconcile_of_hasPhase {s out : State} (set : s.object.HasPhase)
    (pass : reconciler.reconcile s = .ok out) : out = { s with events := [] } := by
  obtain ⟨_, after, ran, _, rfl⟩ := Reconciler.reconcile_eq_ok_iff.1 pass
  obtain ⟨answer, applied⟩ := body_eq_ok_iff.1 ran
  have still := PhaseTracker.apply_of_set (t := tracker) (s := { s with events := [] })
    (PhaseTracker.isUnset_eq_false_iff.2 set)
  obtain ⟨rfl, _⟩ := Prod.mk.inj (Except.ok.inj (applied.symm.trans still))
  rfl

theorem reconcile_of_not_hasPhase {s out : State} (unset : ¬ s.object.HasPhase)
    (pass : reconciler.reconcile s = .ok out) :
    out.events = [completed] ∧ out.object.statusField "phase" = some (.string completedPhase) ∧
      out.object.HasPhase := by
  obtain ⟨_, after, ran, _, rfl⟩ := Reconciler.reconcile_eq_ok_iff.1 pass
  obtain ⟨answer, applied⟩ := body_eq_ok_iff.1 ran
  rcases PhaseTracker.apply_eq_ok_iff.1 applied with ⟨set, _⟩ | ⟨_, members, _, result⟩
  · exact absurd (PhaseTracker.isUnset_eq_false_iff.1 set) unset
  · obtain ⟨rfl, _⟩ := Prod.mk.inj result
    refine ⟨rfl, ?_, PhaseTracker.hasPhase_insert (by decide) rfl⟩
    exact Entries.find?_insert_self "phase" _ members

/-- A pass tells of the completion exactly when it changes the phase. -/
theorem tells_eq_changesPhase (s : State) :
    tells (s, reconciler.reconcile s) = changesPhase (s, reconciler.reconcile s) := by
  cases pass : reconciler.reconcile s with
  | error fault => rfl
  | ok out =>
    by_cases set : s.object.HasPhase
    · obtain rfl := reconcile_of_hasPhase set pass
      simp [tells, changesPhase]
    · obtain ⟨events, phase, _⟩ := reconcile_of_not_hasPhase set pass
      have other : s.object.statusField "phase" ≠ some (.string completedPhase) := by
        intro same
        have := PhaseTracker.isUnset_of_not_hasPhase set
        rw [same] at this
        cases this
      simp [tells, changesPhase, events, phase, other.symm]

theorem count_of_hasPhase {s : State} (set : s.object.HasPhase) (n : Nat) :
    (reconciler.attempts n s).countP tells = 0 := by
  induction n generalizing s with
  | zero => rfl
  | succ n ih =>
    rw [Reconciler.attempts, List.countP_cons]
    cases pass : reconciler.reconcile s with
    | error fault => simpa [tells, Except.toOption] using ih set
    | ok out =>
      obtain rfl := reconcile_of_hasPhase set pass
      simpa [tells, Except.toOption] using ih (s := { s with events := [] }) set

/-- The first pass that tells of the completion is the last one to do so. -/
theorem count_le_one (n : Nat) (s : State) : (reconciler.attempts n s).countP tells ≤ 1 := by
  induction n generalizing s with
  | zero => exact Nat.zero_le 1
  | succ n ih =>
    rw [Reconciler.attempts, List.countP_cons]
    cases pass : reconciler.reconcile s with
    | error fault => simpa [tells, Except.toOption] using ih s
    | ok out =>
      by_cases set : s.object.HasPhase
      · obtain rfl := reconcile_of_hasPhase set pass
        simpa [tells, Except.toOption] using ih { s with events := [] }
      · obtain ⟨_, _, phase⟩ := reconcile_of_not_hasPhase set pass
        rw [Except.toOption, Option.getD_some, count_of_hasPhase phase n, Nat.zero_add]
        split <;> omega

theorem mem_attempts {r : Reconciler} {n : Nat} {s : State} {p : State × Except Fault State}
    (h : p ∈ r.attempts n s) : p.2 = r.reconcile p.1 := by
  induction n generalizing s with
  | zero => cases h
  | succ n ih =>
    rcases List.mem_cons.1 h with rfl | h
    · rfl
    · exact ih h

end Noop

namespace PhaseTracker

/-- **Phases go one way.** Over any run of trackers with phases of their own: where the status has
a phase, nothing happens; otherwise, where the status can be written to, the first tracker sets its
phase, tells its event and changes nothing else, and nothing happens after that; and where it
cannot, every tracker fails and the state stays. So over any number of passes a noop object tells
of its completion once at most, in the pass that changes its phase. -/
theorem phases_are_one_way (s : State) (steps : List (PhaseTracker × Bool))
    (nonempty : ∀ step ∈ steps, step.1.phase ≠ "") :
    (∀ a ∈ applications s steps, a.tracker.outcome a.before = (a.after, a.answer)) ∧
    (s.object.HasPhase → ∀ a ∈ applications s steps, a.Idle) ∧
    (¬ s.object.HasPhase → s.object.TakesStatus → ∀ first later,
      applications s steps = first :: later →
        (∃ members, first.Sets members) ∧ ∀ a ∈ later, a.Idle) ∧
    (¬ s.object.HasPhase → ¬ s.object.TakesStatus → ∀ a ∈ applications s steps, a.Refused) ∧
    ∀ n, (∀ p ∈ Noop.reconciler.attempts n s, Noop.tells p = Noop.changesPhase p) ∧
      (Noop.reconciler.attempts n s).countP Noop.tells ≤ 1 := by
  refine ⟨fun _ => outcome_of_mem, idle_of_hasPhase, ?_, refused_of_not_takes, fun n => ⟨?_, ?_⟩⟩
  · intro unset takes first later run
    exact sets_then_idle nonempty unset takes run
  · intro p member
    have answered : p = (p.1, Noop.reconciler.reconcile p.1) := by rw [← Noop.mem_attempts member]
    rw [answered]
    exact Noop.tells_eq_changesPhase p.1
  · exact Noop.count_le_one n s

/-- A noop object whose phase is an empty text. -/
def started : State :=
  { State.blank with
    object := { Object.blank with
      status := some (.object [("message", .string "ready"), ("phase", .string "")]) } }

/-- The first of two trackers sets the phase and leaves the message alone. -/
theorem phases_are_one_way_from_empty_phase :
    let steps : List (PhaseTracker × Bool) := [(Noop.tracker, true), (⟨"failed", none⟩, false)]
    (∀ step ∈ steps, step.1.phase ≠ "") ∧ ∃ first second,
      applications started steps = [first, second] ∧
      first.after.object.status =
        some (.object [("message", .string "ready"), ("phase", .string "completed")]) ∧
      first.after.events = [Noop.completed] ∧ second.Idle := by
  intro steps
  have nonempty : ∀ step ∈ steps, step.1.phase ≠ "" := by decide
  have unset : ¬ started.object.HasPhase := by
    rintro ⟨_, _, status, phase, _, notEmpty⟩
    cases status
    cases phase
    exact notEmpty rfl
  obtain ⟨_, _, sets, _⟩ := phases_are_one_way started steps nonempty
  obtain ⟨⟨members, first⟩, later⟩ := sets unset (.inr ⟨_, rfl⟩) _ _ rfl
  obtain ⟨rfl⟩ := Json.object.inj first.status
  refine ⟨nonempty, _, _, rfl, ?_, ?_, later _ List.mem_cons_self⟩
  · rw [first.after]
    rfl
  · rw [first.after]
    rfl

end PhaseTracker

end ControllerHooks
