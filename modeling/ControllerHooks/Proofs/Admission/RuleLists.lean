import ControllerHooks.Proofs.Admission.Simulation

/-!
# Lists of rules reach a fixed point

Rules whose places lie apart may still share what is around these places, and one rule may make
what another one found missing. Even so, what a list of rules has made is left alone by all of them.

* `FieldRule.stepFrom_beside`: a rule that asks for nothing asks for nothing after a place beside
  its own was filled.
* `Defaults.Runs.quiet_after`: after a run none of its rules asks for anything.
* `Defaults.Mirrors`: how the client's document follows the one that is planned on.
* `Defaults.rules_reach_fixed_point`: a patched document is read as an object that is unchanged.
-/

namespace ControllerHooks

open Record (Fills)
open Json (memberOrNull fillAt Opens Covers)

namespace FieldRule

/-- What a rule puts into a document is there, and is not replaced by that rule. -/
structure Settles (rule : FieldRule) : Prop where
  ordered : ∀ x, rule.Offers x → x.Ordered
  notNull : ∀ x, rule.Offers x → x ≠ .null
  accepts : ∀ x, rule.Offers x →
    ∀ rejects better, rule.correction = some (rejects, better) → rejects x = false

/-- Neither place is inside the other, or the same. -/
def Apart (a b : FieldRule) : Prop := ¬ a.path <+: b.path ∧ ¬ b.path <+: a.path

/-- The place is below a member of a document that is kept as the client has it. -/
def IsFree (rule : FieldRule) : Prop :=
  ∃ token rest, rule.path = token :: rest ∧ token ∉ Object.envelope

/-- With more of its path to go, a rule that asks for nothing looks at an object. Where it has no
default, null passes for an empty one. -/
theorem members_of_quiet {rule : FieldRule} {walked rest : List String} {token : String} {d : Json}
    (quiet : d = .null ∧ rule.default = none ∨ stepFrom rule walked (token :: rest) d = .ok none) :
    ∃ members, (d = .object members ∨ d = .null ∧ members = []) ∧
      stepFrom rule walked (token :: rest) (.object members) = .ok none := by
  rcases quiet with ⟨rfl, none⟩ | quiet
  · refine ⟨[], .inr ⟨rfl, rfl⟩, ?_⟩
    simp [stepFrom_cons, memberOrNull, Entries.find?, Json.isNull, none]
  · cases d with
    | object members => exact ⟨members, .inl rfl, quiet⟩
    | null | bool | number | string | array => cases quiet

/-- A rule that asks for nothing, or would ask for nothing where nothing is, asks for nothing after
a place beside its path was filled. -/
theorem stepFrom_beside {rule : FieldRule} {filler : Json} {walked rest other : List String}
    {d : Json} (opens : Opens other d) (notAbove : ¬ rest <+: other) (notBelow : ¬ other <+: rest)
    (quiet : d = .null ∧ rule.default = none ∨ stepFrom rule walked rest d = .ok none) :
    stepFrom rule walked rest (fillAt filler other d) = .ok none := by
  induction rest generalizing walked other d with
  | nil => exact absurd List.nil_prefix notAbove
  | cons token rest ih =>
    cases other with
    | nil => exact absurd List.nil_prefix notBelow
    | cons first more =>
      obtain ⟨members, object, quiet⟩ := members_of_quiet quiet
      have filled : fillAt filler (first :: more) d = .object (Entries.insert first
          (fillAt filler more (memberOrNull first members)) members) := by
        rcases object with rfl | ⟨rfl, rfl⟩ <;> rfl
      have inside : Opens more (memberOrNull first members) := by
        rcases object with rfl | ⟨rfl, rfl⟩
        · exact opens
        · exact Json.opens_null more
      rw [stepFrom_cons] at quiet
      rw [filled, stepFrom_cons]
      by_cases here : token = first
      · subst here
        rw [List.prefix_cons_inj] at notAbove notBelow
        obtain ⟨next, later, rfl⟩ : ∃ next later, more = next :: later :=
          List.exists_cons_of_ne_nil fun none => notBelow (none ▸ List.nil_prefix)
        have made : (fillAt filler (next :: later) (memberOrNull token members)).isNull = false :=
          Bool.eq_false_iff.2 (mt isNull_eq_true.1 (Json.fillAt_cons_ne_null _ _ _ _))
        rw [memberOrNull, Entries.find?_insert_self, Option.getD_some, made, if_neg (by simp)]
        refine ih inside notAbove notBelow ?_
        -- Where the rule stopped at null it has no default, so what is made there is no matter.
        split at quiet
        · rename_i null
          exact .inl ⟨isNull_eq_true.1 null, by simpa using quiet⟩
        · exact .inr quiet
      · rw [memberOrNull, Entries.find?_insert_of_ne here]
        exact quiet

end FieldRule

namespace Defaults

/-! ## After a run -/

namespace Runs

variable {rules : List FieldRule} {d last : Json} {p : Patch}

/-- A rule that asks for nothing still does so after a run of rules apart from it. -/
theorem keeps_quiet (run : Runs rules d last p) {rule : FieldRule}
    (apart : ∀ other ∈ rules, rule.Apart other) (quiet : rule.step d = .ok none) :
    rule.step last = .ok none := by
  induction run with
  | done => exact quiet
  | quiet _ _ ih => exact ih (fun other h => apart other (List.mem_cons_of_mem _ h)) quiet
  | asked asked applied _ ih =>
    obtain ⟨opens, value, _, put, _⟩ := (FieldRule.asks_of_stepFrom asked).puts
    obtain rfl := Except.ok.inj (applied.symm.trans put.apply)
    obtain ⟨notAbove, notBelow⟩ := apart _ List.mem_cons_self
    exact ih (fun other h => apart other (List.mem_cons_of_mem _ h))
      (FieldRule.stepFrom_beside opens notAbove notBelow (.inr quiet))

/-- After a run of rules apart from each other none of them asks for anything. -/
theorem quiet_after (run : Runs rules d last p) (settles : ∀ rule ∈ rules, rule.Settles)
    (apart : rules.Pairwise FieldRule.Apart) : ∀ rule ∈ rules, rule.step last = .ok none := by
  induction run with
  | done => exact List.forall_mem_nil _
  | quiet quiet run ih =>
    obtain ⟨_, tail⟩ := List.forall_mem_cons.1 settles
    obtain ⟨beside, apart⟩ := List.pairwise_cons.1 apart
    exact List.forall_mem_cons.2 ⟨run.keeps_quiet beside quiet, ih tail apart⟩
  | @asked rule rules d next last op p asked applied run ih =>
    obtain ⟨head, tail⟩ := List.forall_mem_cons.1 settles
    obtain ⟨beside, apart⟩ := List.pairwise_cons.1 apart
    obtain ⟨_, value, offers, put, _⟩ := (FieldRule.asks_of_stepFrom asked).puts
    obtain rfl := Except.ok.inj (applied.symm.trans put.apply)
    have quiet := FieldRule.stepFrom_fillAt (head.notNull value offers) (head.accepts value offers)
      [] rule.path d
    exact List.forall_mem_cons.2 ⟨run.keeps_quiet beside quiet, ih tail apart⟩

end Runs

/-! ## The client's document -/

/-- How a client's document follows the one that is planned on: beside the envelope they hold the
same, and the envelope is the one that was given. -/
inductive Mirrors (given : List (String × Json)) : Json → Json → Prop
  | members {client planned : List (String × Json)}
    (covers : Covers (.object client) (.object planned)) (ordered : (Json.object client).Ordered)
    (free : ∀ token, token ∉ Object.envelope →
      memberOrNull token client = memberOrNull token planned)
    (kept : ∀ token ∈ Object.envelope, Entries.find? token client = Entries.find? token given) :
    Mirrors given (.object client) (.object planned)

theorem mirrors_step {rule : FieldRule} {given : List (String × Json)} {c d : Json}
    {op : Operation} (settles : rule.Settles) (isFree : rule.IsFree) (h : Mirrors given c d)
    (asked : rule.step d = .ok (some op)) :
    ∃ c' d', Patch.apply [op] c = .ok c' ∧ Patch.apply [op] d = .ok d' ∧ Mirrors given c' d' := by
  obtain ⟨token, rest, path, outside⟩ := isFree
  cases h with
  | @members client planned covers ordered free kept =>
    obtain ⟨below, more, value, whole, inside, offers, both⟩ :=
      (FieldRule.asks_of_stepFrom asked).covers covers
    rw [path] at whole inside
    obtain ⟨first, below, rfl⟩ := List.exists_cons_of_ne_nil (inside (by simp))
    obtain ⟨rfl, _⟩ := List.cons.inj whole
    have filler := FieldRule.ordered_nest (settles.ordered value offers) more
    have filled : (fillAt (FieldRule.nest more value) (token :: below) (.object client)).Ordered :=
      Json.ordered_fillAt filler ordered
    refine ⟨_, _, both.client.apply, both.planned.apply,
      .members (covers.fillAt both.opens_client both.opens_planned) filled ?_ ?_⟩
    · intro other unenveloped
      by_cases here : other = token
      · simp only [here, memberOrNull, Entries.find?_insert_self]
        rw [← memberOrNull, ← memberOrNull, free token outside]
      · simp only [memberOrNull, Entries.find?_insert_of_ne here]
        exact free other unenveloped
    · intro other enveloped
      have beside : other ≠ token := by
        rintro rfl
        exact outside enveloped
      rw [Entries.find?_insert_of_ne beside]
      exact kept other enveloped

/-- **Lists of rules reach a fixed point.** Take any list of rules at places apart from each other,
none of them in the envelope, where no rule rejects what it offers, and a document that is read as
an object. When evaluation answers with a patch, the patch applies to the document, the result is
read as an object, and evaluation leaves that one unchanged. -/
theorem rules_reach_fixed_point {rules : List FieldRule} {v : Json} {o : Object} {p : Patch}
    (settles : ∀ rule ∈ rules, rule.Settles) (free : ∀ rule ∈ rules, rule.IsFree)
    (apart : rules.Pairwise FieldRule.Apart) (ordered : v.Ordered)
    (read : Object.ofValue v = .ok o) (planned : evaluate rules o = .ok (.patch p)) :
    ∃ after next, p.apply v = .ok after ∧ Object.ofValue after = .ok next ∧
      evaluate rules next = .ok .unchanged := by
  obtain ⟨last, run⟩ := runs_of_patch planned
  have covers := Object.covers ordered read
  obtain ⟨given, rfl⟩ := Object.object_of_ofValue read
  have fills := (Object.ofValue_eq_ok_iff ordered.sorted).1 read
  have start : Mirrors given (.object given) o.toValue :=
    .members covers ordered
      (fun _ outside => (Object.memberOrNull_kept ordered fills outside).symm) fun _ _ => rfl
  obtain ⟨after, applied, mirrors⟩ := run.lift (fun _ => Mirrors given)
    (fun rule member _ _ _ _ h => mirrors_step (settles rule member) (free rule member) h) [] start
  cases mirrors with
  | @members client last _ patched same kept =>
    obtain ⟨next, again⟩ := Object.ofValue_of_envelope fills patched kept
    refine ⟨_, next, applied, again, evaluate_of_quiet fun rule member => ?_⟩
    -- The object that is read from the patched document looks to the rules like the last document.
    obtain ⟨token, rest, path, outside⟩ := free rule member
    have refilled := (Object.ofValue_eq_ok_iff patched.sorted).1 again
    have agree : FieldRule.Agree rule.path next.toValue (.object last) := by
      rw [path]
      refine .member ?_
      rw [Object.memberOrNull_kept patched refilled outside, same token outside]
      exact .same _ _
    exact (FieldRule.stepFrom_congr agree).trans (run.quiet_after settles apart rule member)

def isBlank (v : Json) : Bool := v = .string ""

/-- Three rules, of which the first one has no default and the second one shares what is around. -/
def limits : List FieldRule :=
  [⟨["spec", "limits", "cpu"], none, some (isBlank, .string "1")⟩,
    ⟨["spec", "limits", "memory"], some (.string "1Gi"), some (isBlank, .string "2Gi")⟩,
    ⟨["data", "mode"], some (.string "rw"), none⟩]

/-- A document with nulls in the places of the rules. -/
def sparse : Json :=
  .object [("data", .null), ("metadata", .object [("color", .string "red")]),
    ("spec", .object [("limits", .null)])]

theorem sparse_ordered : sparse.Ordered := by
  have metadata : (Json.object [("color", .string "red")]).Ordered :=
    .object (by decide) (by simpa using .string _)
  have spec : (Json.object [("limits", .null)]).Ordered :=
    .object (by decide) (by simpa using .null)
  exact .object (by decide) (by simpa using ⟨.null, metadata, spec⟩)

theorem limits_settle : ∀ rule ∈ limits, rule.Settles := by
  have offers : ∀ rule ∈ limits, ∀ x, rule.Offers x → ∃ s, x = .string s ∧ s ≠ "" := by
    simp [limits, FieldRule.Offers, or_imp, forall_and]
  have rejects : ∀ rule ∈ limits, ∀ rejects better, rule.correction = some (rejects, better) →
      rejects = isBlank := by
    simp [limits]
  intro rule member
  refine ⟨fun x h => ?_, fun x h => ?_, fun x h rejected better correction => ?_⟩
  · obtain ⟨s, rfl, _⟩ := offers rule member x h
    exact .string s
  · obtain ⟨s, rfl, _⟩ := offers rule member x h
    simp
  · obtain ⟨s, rfl, notEmpty⟩ := offers rule member x h
    rw [rejects rule member rejected better correction]
    simp [isBlank, notEmpty]

/-- The second rule makes what the first one had found missing. -/
theorem rules_reach_fixed_point_of_limits :
    (∀ rule ∈ limits, rule.Settles) ∧ (∀ rule ∈ limits, rule.IsFree) ∧
      limits.Pairwise FieldRule.Apart ∧ sparse.Ordered ∧ ∃ o p after next,
        Object.ofValue sparse = .ok o ∧ evaluate limits o = .ok (.patch p) ∧ p.length = 2 ∧
        p.apply sparse = .ok after ∧ Object.ofValue after = .ok next ∧
        evaluate limits next = .ok .unchanged := by
  have free : ∀ rule ∈ limits, rule.IsFree := by
    simp [limits, FieldRule.IsFree, Object.envelope]
  have apart : limits.Pairwise FieldRule.Apart := by
    simp [limits, FieldRule.Apart]
  let o : Object :=
    { Object.blank with
      metadata := some .blank
      spec := some (.object [("limits", .null)])
      extra := SortedMap.empty.insert "data" .null }
  have read : Object.ofValue sparse = .ok o := rfl
  obtain ⟨p, planned, two⟩ : ∃ p, evaluate limits o = .ok (.patch p) ∧ p.length = 2 :=
    ⟨_, rfl, rfl⟩
  obtain ⟨after, next, applied, again, unchanged⟩ :=
    rules_reach_fixed_point limits_settle free apart sparse_ordered read planned
  exact ⟨limits_settle, free, apart, sparse_ordered, o, p, after, next, read, planned, two, applied,
    again, unchanged⟩

end Defaults

end ControllerHooks
