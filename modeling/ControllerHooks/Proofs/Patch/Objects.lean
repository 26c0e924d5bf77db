import ControllerHooks.Proofs.Admission.Documents
import ControllerHooks.Proofs.Codec.Ordered
import ControllerHooks.Proofs.Controllers.ContainerSet
import ControllerHooks.Proofs.Patch.Difference
import ControllerHooks.Reconcile.Plan

/-!
# Differences of objects

An object that differs from another in its specification or in its status only, has a difference
below that member only.

* `Object.Replaces`: one member of an object's document is another one.
* `Object.Replaces.summary`: how such a change is counted.
* `Object.summary_insertStatus`: setting a status member is one operation, or none.
-/

namespace ControllerHooks

open Json (memberDiff)

namespace DiffSummary

/-- The summary counts some operations, at most so many, and each puts a value. -/
structure Counts (n : Nat) (s : DiffSummary) : Prop where
  removes : s.removes = 0
  some : 1 ≤ s.adds + s.updates
  few : s.adds + s.updates ≤ n

/-- Setting a member to something else is what is counted. -/
theorem counts_insert {members : List (String × Json)} (ordered : (Json.object members).Ordered)
    {k : String} {x : Json} (value : x.Ordered) {n : Nat}
    (writes : (memberDiff [] members (k, x)).Writes n)
    (differs : ∀ old, Entries.find? k members = some old → old.same x = false) :
    (between (.object members) (.object (Entries.insert k x members))).Counts n := by
  have same := Json.diffAt_insert ordered k x []
  have whole := writes.perm same
  obtain ⟨removes, counted⟩ := ofPatch_of_writes whole
  refine ⟨removes, ?_, counted ▸ whole.few⟩
  have something : memberDiff [] members (k, x) ≠ [] := by
    cases found : Entries.find? k members with
    | none => simp [memberDiff, found]
    | some old =>
      simp only [memberDiff, found]
      rw [Ne, Json.diffAt_eq_nil_iff _ old x (ordered.of_find? found) value, differs old found]
      exact Bool.false_ne_true
  have length := List.length_pos_iff.2 something
  rw [← same.length_eq, ← counted] at length
  exact length

end DiffSummary

namespace Object

theorem same_iff {a b : Object} : a.same b = true ↔ a.settled = b.settled := decide_eq_true_iff

theorem Ordered.unknown {o : Object} (h : o.Ordered) :
    ∀ e ∈ o.extra.entries, Record.field? fields e.1 = none :=
  fun e he => (h.extra e he).1

/-- The second object is the first with another value under one key of its document. -/
structure Replaces (key : String) (x : Json) (o o' : Object) : Prop where
  here : Entries.find? key (Entries.ofList o'.members) = some x
  beside : ∀ k, k ≠ key →
    Entries.find? k (Entries.ofList o'.members) = Entries.find? k (Entries.ofList o.members)
  same : ∀ old, Entries.find? key (Entries.ofList o.members) = some old → old.same x = true →
    o.same o' = true

theorem Replaces.toValue {key : String} {x : Json} {o o' : Object} (h : Replaces key x o o') :
    o'.toValue = .object (Entries.insert key x (Entries.ofList o.members)) := by
  refine congrArg Json.object
    ((Entries.sorted_ofList _).ext ((Entries.sorted_ofList _).insert _ _) fun k => ?_)
  rw [Entries.find?_insert]
  split
  · rename_i same
    rw [same, h.here]
  · rename_i other
    exact h.beside k other

theorem Replaces.summary {key : String} {x : Json} {o o' : Object} {n : Nat}
    (h : Replaces key x o o') (ordered : o.Ordered) (value : x.Ordered)
    (writes : (memberDiff [] (Entries.ofList o.members) (key, x)).Writes n)
    (differs : o.same o' = false) : (Plan.summary o o').Counts n := by
  rw [Plan.summary, h.toValue]
  refine DiffSummary.counts_insert (toValue_ordered ordered) value writes ?_
  intro old stands
  rw [Bool.eq_false_iff] at differs ⊢
  exact fun same => differs (h.same old stands same)

section
variable {o : Object} (unknown : ∀ e ∈ o.extra.entries, Record.field? fields e.1 = none)
include unknown

theorem replaces_spec (x : Json) : Replaces "spec" x o { o with spec := some x } where
  here := find?_spec (o := { o with spec := some x }) unknown
  beside k other := by simp [find?_members, other.symm]
  same old stands same := by
    rw [find?_spec unknown] at stands
    rw [same_iff, settled, settled, stands]
    simp [Json.same_iff.1 same]

theorem replaces_status (x : Json) : Replaces "status" x o { o with status := some x } where
  here := find?_status (o := { o with status := some x }) unknown
  beside k other := by simp [find?_members, other.symm]
  same old stands same := by
    rw [find?_status unknown] at stands
    rw [same_iff, settled, settled, stands]
    simp [Json.same_iff.1 same]

end

theorem openPart_eq_ok {field : String} {part : Option Json} {members : List (String × Json)}
    (h : openPart field part = .ok members) :
    part = none ∧ members = [] ∨ part = some (.object members) := by
  cases part with
  | none => exact .inl ⟨rfl, (Except.ok.inj h).symm⟩
  | some v =>
    cases v with
    | object inside => exact .inr (by rw [Except.ok.inj h])
    | null | bool | number | string | array => cases h

/-- A status member with nothing inside is set in one operation, if it is something else. -/
theorem summary_insertStatus {field : String} {x : Json} {o result : Object}
    (ordered : o.Ordered) (value : x.Ordered) (notArray : ∀ items, x ≠ .array items)
    (notObject : ∀ inside, x ≠ .object inside) (inserted : o.insertStatus field x = .ok result)
    (differs : o.same result = false) : (Plan.summary o result).Counts 1 := by
  obtain ⟨members, opened, rfl⟩ := insertStatus_eq_ok_iff.1 inserted
  have found := find?_status ordered.unknown
  have replaces := replaces_status ordered.unknown (.object (Entries.insert field x members))
  rcases openPart_eq_ok opened with ⟨none, rfl⟩ | some
  · rw [none] at found
    have alone : (Json.object (Entries.insert field x [])).Ordered :=
      Json.ordered_insert (.object .nil (by simp)) value
    exact replaces.summary ordered alone (Json.writes_of_missing found _ _) differs
  · have inside := ordered.status _ some
    have whole : (memberDiff [] (Entries.ofList o.members)
        ("status", .object (Entries.insert field x members))).Writes 1 := by
      simp only [memberDiff, found, some]
      exact (Json.writes_of_scalar notArray notObject members field _).perm
        (Json.diffAt_insert inside field x _)
    exact replaces.summary ordered (Json.ordered_insert inside value) whole differs

end Object

end ControllerHooks
