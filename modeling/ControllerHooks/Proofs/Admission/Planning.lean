import ControllerHooks.Proofs.Admission.FieldRules
import ControllerHooks.Proofs.Patch.Applying

/-!
# Planning a list of rules

Rules are planned one after another, each on the document that the ones before it have made.

* `Defaults.Runs` is a run of rules over a document, with the operations they asked for;
  `Defaults.evaluate_eq_ok_iff`: evaluation is such a run over the document of the object.
* `Defaults.Runs.apply`: the operations, applied in one go, make the document of the run.
* `Defaults.Runs.lift`: what each operation carries over to another document, a run carries over.
-/

namespace ControllerHooks

namespace Defaults

/-! ## Runs -/

/-- Rules planned on a document one after another, with the document that this makes and the
operations that were asked for. -/
inductive Runs : List FieldRule → Json → Json → Patch → Prop
  | done (d : Json) : Runs [] d d []
  | quiet {rule : FieldRule} {rules : List FieldRule} {d last : Json} {p : Patch} :
    rule.step d = .ok none → Runs rules d last p → Runs (rule :: rules) d last p
  | asked {rule : FieldRule} {rules : List FieldRule} {d next last : Json} {op : Operation}
    {p : Patch} :
    rule.step d = .ok (some op) → Patch.apply [op] d = .ok next → Runs rules next last p →
    Runs (rule :: rules) d last (op :: p)

theorem advance_eq_ok_iff {rule : FieldRule} {d next : Json} {soFar p : Patch} :
    advance (d, soFar) rule = .ok (next, p) ↔
      rule.step d = .ok none ∧ next = d ∧ p = soFar ∨
      ∃ op, rule.step d = .ok (some op) ∧ Patch.apply [op] d = .ok next ∧ p = soFar ++ [op] := by
  cases step : rule.step d with
  | error e => simp [advance, step]
  | ok found =>
    cases found with
    | none => simp [advance, step, eq_comm]
    | some op =>
      cases applied : Patch.apply [op] d with
      | error failure => simp [advance, step, applied]
      | ok w => simp [advance, step, applied, eq_comm]

theorem foldlM_advance_eq_ok_iff {rules : List FieldRule} {d last : Json} {soFar p : Patch} :
    rules.foldlM advance (d, soFar) = .ok (last, p) ↔
      ∃ added, Runs rules d last added ∧ p = soFar ++ added := by
  induction rules generalizing d soFar with
  | nil =>
    simp only [List.foldlM_nil, pure_eq_ok_value, Except.ok.injEq, Prod.mk.injEq]
    constructor
    · rintro ⟨rfl, rfl⟩
      exact ⟨[], .done d, (List.append_nil soFar).symm⟩
    · rintro ⟨_, ⟨⟩, rfl⟩
      exact ⟨rfl, (List.append_nil soFar).symm⟩
  | cons rule rules ih =>
    simp only [List.foldlM_cons, bind_eq_ok, Prod.exists, advance_eq_ok_iff]
    constructor
    · rintro ⟨next, mid, ⟨quiet, rfl, rfl⟩ | ⟨op, step, applied, rfl⟩, later⟩
      · obtain ⟨added, run, rfl⟩ := ih.1 later
        exact ⟨added, .quiet quiet run, rfl⟩
      · obtain ⟨added, run, rfl⟩ := ih.1 later
        exact ⟨op :: added, .asked step applied run, by simp⟩
    · rintro ⟨added, run, rfl⟩
      cases run with
      | quiet quiet run => exact ⟨d, soFar, .inl ⟨quiet, rfl, rfl⟩, ih.2 ⟨_, run, rfl⟩⟩
      | asked step applied run =>
        exact ⟨_, _, .inr ⟨_, step, applied, rfl⟩, ih.2 ⟨_, run, by simp⟩⟩

theorem evaluate_eq_ok_iff {rules : List FieldRule} {o : Object} {mutation : Mutation} :
    evaluate rules o = .ok mutation ↔ ∃ last p, Runs rules o.toValue last p ∧
      mutation = if p = [] then .unchanged else .patch p := by
  simp only [evaluate, bind_eq_ok, Prod.exists, foldlM_advance_eq_ok_iff, List.nil_append,
    exists_eq_right', pure_eq_ok_value, Except.ok.injEq]
  refine exists_congr fun last => exists_congr fun p => and_congr_right fun _ => ?_
  split <;> exact eq_comm

/-- The run behind a patch. -/
theorem runs_of_patch {rules : List FieldRule} {o : Object} {p : Patch}
    (h : evaluate rules o = .ok (.patch p)) : ∃ last, Runs rules o.toValue last p := by
  obtain ⟨last, added, run, same⟩ := evaluate_eq_ok_iff.1 h
  split at same
  · cases same
  · obtain rfl := Mutation.patch.inj same
    exact ⟨last, run⟩

/-- Where no rule asks for anything, nothing is changed. -/
theorem evaluate_of_quiet {rules : List FieldRule} {o : Object}
    (quiet : ∀ rule ∈ rules, rule.step o.toValue = .ok none) :
    evaluate rules o = .ok .unchanged := by
  refine evaluate_eq_ok_iff.2 ⟨o.toValue, [], ?_, rfl⟩
  induction rules with
  | nil => exact .done _
  | cons rule rules ih =>
    obtain ⟨head, tail⟩ := List.forall_mem_cons.1 quiet
    exact .quiet head (ih tail)

namespace Runs

variable {rules : List FieldRule} {d last : Json} {p : Patch}

/-- In one go, the operations make what the rules have made one by one. -/
theorem apply (run : Runs rules d last p) : p.apply d = .ok last := by
  induction run with
  | done d => rfl
  | quiet _ _ ih => exact ih
  | asked _ applied _ ih => exact Patch.apply_cons.2 ⟨_, applied, ih⟩

/-- A relation between another document, the one that is planned on and the operations so far is
kept by a run, if every operation applies to both documents and keeps it. -/
theorem lift (Rel : Patch → Json → Json → Prop)
    (step : ∀ rule ∈ rules, ∀ soFar c d op, Rel soFar c d → rule.step d = .ok (some op) →
      ∃ c' d', Patch.apply [op] c = .ok c' ∧ Patch.apply [op] d = .ok d' ∧
        Rel (soFar ++ [op]) c' d')
    (run : Runs rules d last p) (soFar : Patch) {c : Json} (start : Rel soFar c d) :
    ∃ after, p.apply c = .ok after ∧ Rel (soFar ++ p) after last := by
  induction run generalizing soFar c with
  | done d => exact ⟨c, rfl, by rwa [List.append_nil]⟩
  | quiet _ _ ih => exact ih (fun rule h => step rule (List.mem_cons_of_mem _ h)) soFar start
  | @asked rule rules d next last op p asked applied _ ih =>
    obtain ⟨c', d', client, planned, kept⟩ := step rule List.mem_cons_self soFar c d op start asked
    obtain rfl : next = d' := Except.ok.inj (applied.symm.trans planned)
    obtain ⟨after, rest, related⟩ :=
      ih (fun rule h => step rule (List.mem_cons_of_mem _ h)) (soFar ++ [op]) kept
    refine ⟨after, Patch.apply_cons.2 ⟨c', client, rest⟩, ?_⟩
    rwa [List.append_assoc] at related

end Runs

end Defaults

end ControllerHooks
