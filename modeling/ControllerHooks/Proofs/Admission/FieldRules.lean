import ControllerHooks.Admission.Defaults
import ControllerHooks.Proofs.Json.Ordered
import ControllerHooks.Proofs.Patch.Wire

/-!
# What a field rule does to a document

* `Json.fillAt` puts a value at the end of a path of members and makes what is missing on the way;
  `FieldRule.filledAt_of_step` says what it leaves alone.
* `FieldRule.Asks`: what a rule can ask for.
* `FieldRule.apply_step`: the operation that a rule asks for does that, and nothing else.
* `FieldRule.step_fillAt`: a rule that finds its own value asks for nothing.
* `FieldRule.step_congr`: a rule looks at nothing beside its path.
-/

namespace ControllerHooks

namespace Json

/-- A member of an object. Nothing and null are alike. -/
def memberOrNull (token : String) (members : List (String × Json)) : Json :=
  (Entries.find? token members).getD .null

/-- The value with another one at the end of a path of members. What is missing on the way, or is
no object, is made. -/
def fillAt (filler : Json) : (path : List String) → (value : Json) → Json
  | [], _ => filler
  | token :: rest, .object members =>
    .object (Entries.insert token (fillAt filler rest (memberOrNull token members)) members)
  | token :: rest, _ => .object [(token, fillAt filler rest .null)]

theorem fillAt_null (filler : Json) (path : List String) :
    fillAt filler path .null = FieldRule.nest path filler := by
  induction path with
  | nil => rfl
  | cons token rest ih => simp [fillAt, ih, FieldRule.nest]

theorem fillAt_cons_ne_null (filler : Json) (token : String) (rest : List String) (value : Json) :
    fillAt filler (token :: rest) value ≠ .null := by
  cases value <;> simp [fillAt]

theorem ordered_memberOrNull {members : List (String × Json)} (h : (object members).Ordered)
    (token : String) : (memberOrNull token members).Ordered := by
  cases found : Entries.find? token members with
  | none => simpa [memberOrNull, found] using Ordered.null
  | some value => simpa [memberOrNull, found] using h.of_find? found

theorem ordered_fillAt {filler : Json} (filler_ordered : filler.Ordered) {path : List String}
    {value : Json} (h : value.Ordered) : (fillAt filler path value).Ordered := by
  induction path generalizing value with
  | nil => exact filler_ordered
  | cons token rest ih =>
    have made : (object [(token, fillAt filler rest .null)]).Ordered :=
      .object (by simp [Entries.Sorted]) (by simpa using ih .null)
    cases value with
    | object members => exact ordered_insert h (ih (ordered_memberOrNull h token))
    | _ => exact made

/-! ## The frame -/

/-- `after` is `before` with `filler` at the end of `path`. No other place is changed; where
nothing or null stood on the way there is now nothing but the rest of the path. -/
structure FilledAt (path : List String) (filler before after : Json) : Prop where
  filled : after.at? path = some filler
  kept : ∀ q, ¬ q <+: path → ¬ path <+: q → after.at? q = before.at? q
  made : ∀ above token below, path = above ++ token :: below →
    (before.at? (above ++ [token])).getD .null = .null →
    after.at? (above ++ [token]) = some (FieldRule.nest below filler)

/-- Objects lead along the path, as far as anything but null does. -/
def Opens : (path : List String) → (value : Json) → Prop
  | [], _ => True
  | token :: rest, .object members => Opens rest (memberOrNull token members)
  | _ :: _, value => value = .null

theorem opens_null (path : List String) : Opens path .null := by
  cases path <;> simp [Opens]

theorem opens_object {token : String} {rest : List String} {members : List (String × Json)} :
    Opens (token :: rest) (.object members) ↔ Opens rest (memberOrNull token members) := .rfl

theorem at?_null {path : List String} (h : path ≠ []) : at? path .null = none := by
  cases path with
  | nil => exact absurd rfl h
  | cons token rest => rfl

theorem at?_object (token : String) (rest : List String) (members : List (String × Json)) :
    at? (token :: rest) (.object members) = (Entries.find? token members).bind (at? rest) := rfl

/-- Below a member it makes no difference whether it is missing or null. -/
theorem bind_at? {path : List String} (h : path ≠ []) (token : String)
    (members : List (String × Json)) :
    (Entries.find? token members).bind (at? path) = at? path (memberOrNull token members) := by
  cases found : Entries.find? token members with
  | none => simp [memberOrNull, found, at?_null h]
  | some value => simp [memberOrNull, found]

theorem at?_fillAt (filler : Json) (path : List String) (value : Json) :
    (fillAt filler path value).at? path = some filler := by
  induction path generalizing value with
  | nil => rfl
  | cons token rest ih =>
    cases value with
    | object members => simpa [fillAt, at?_object, Entries.find?_insert_self] using ih _
    | _ => simpa [fillAt, at?_object, Entries.find?] using ih .null

/-- What is about to be filled is an object, or counts as an empty one. -/
theorem opens_cons {token : String} {rest : List String} {value : Json}
    (opens : Opens (token :: rest) value) (filler : Json) :
    ∃ members, Opens rest (memberOrNull token members) ∧
      fillAt filler (token :: rest) value =
        .object (Entries.insert token (fillAt filler rest (memberOrNull token members)) members) ∧
      ∀ other more, value.at? (other :: more) = at? (other :: more) (.object members) := by
  cases value with
  | object members => exact ⟨members, opens, rfl, fun _ _ => rfl⟩
  | null => exact ⟨[], opens_null rest, rfl, fun _ _ => rfl⟩
  | bool | number | string | array => simp [Opens] at opens

theorem fillAt_kept {filler value : Json} {path q : List String} (opens : Opens path value)
    (notAbove : ¬ q <+: path) (notBelow : ¬ path <+: q) :
    (fillAt filler path value).at? q = value.at? q := by
  induction path generalizing q value with
  | nil => exact absurd List.nil_prefix notBelow
  | cons token rest ih =>
    cases q with
    | nil => exact absurd List.nil_prefix notAbove
    | cons other more =>
      obtain ⟨members, opens, filled, same⟩ := opens_cons opens filler
      rw [filled, same, at?_object, at?_object]
      by_cases here : other = token
      · subst here
        rw [List.prefix_cons_inj] at notAbove notBelow
        have below : more ≠ [] := by
          rintro rfl
          exact notAbove List.nil_prefix
        rw [Entries.find?_insert_self, Option.bind_some, bind_at? below]
        exact ih opens notAbove notBelow
      · rw [Entries.find?_insert_of_ne here]

theorem fillAt_made {filler value : Json} {above below : List String} {token : String}
    (opens : Opens (above ++ token :: below) value)
    (missing : (value.at? (above ++ [token])).getD .null = .null) :
    (fillAt filler (above ++ token :: below) value).at? (above ++ [token]) =
      some (FieldRule.nest below filler) := by
  induction above generalizing value with
  | nil =>
    obtain ⟨members, _, filled, same⟩ := opens_cons opens filler
    have absent : memberOrNull token members = .null := by
      simpa [same, at?_object, at?, memberOrNull, child?] using missing
    simp [filled, at?_object, Entries.find?_insert_self, at?, absent, fillAt_null]
  | cons first above ih =>
    have inside : above ++ [token] ≠ [] := by simp
    rw [List.cons_append] at missing opens ⊢
    obtain ⟨members, opens, filled, same⟩ := opens_cons opens filler
    rw [same, at?_object, bind_at? inside] at missing
    rw [List.cons_append, filled, at?_object, Entries.find?_insert_self, Option.bind_some]
    exact ih opens missing

theorem filledAt_fillAt {filler value : Json} {path : List String} (opens : Opens path value) :
    FilledAt path filler value (fillAt filler path value) where
  filled := at?_fillAt filler path value
  kept _ notAbove notBelow := fillAt_kept opens notAbove notBelow
  made above token below whole missing := by
    subst whole
    exact fillAt_made opens missing

end Json

namespace FieldRule

open Json (fillAt memberOrNull Opens)

/-! ## What is asked for -/

/-- What a rule puts into a document: its default, or its better value. -/
def Offers (rule : FieldRule) (value : Json) : Prop :=
  rule.default = some value ∨ ∃ rejects, rule.correction = some (rejects, value)

theorem offers_eq {rule : FieldRule} {value : Json} {rejects : Json → Bool}
    (default : rule.default = some value) (correction : rule.correction = some (rejects, value)) :
    ∀ v, rule.Offers v → v = value := by
  rintro v (offered | ⟨_, offered⟩)
  · rw [default] at offered
    exact (Option.some.inj offered).symm
  · rw [correction] at offered
    exact (Prod.mk.inj (Option.some.inj offered)).2.symm

theorem accepts_of_correction {rule : FieldRule} {value : Json} {rejects : Json → Bool}
    (correction : rule.correction = some (rejects, value)) (accepted : rejects value = false) :
    ∀ rejects better, rule.correction = some (rejects, better) → rejects value = false := by
  intro rejects better same
  rw [correction] at same
  obtain ⟨rfl, rfl⟩ := Prod.mk.inj (Option.some.inj same)
  exact accepted

/-- An operation below `walked` that turns the value there into another one. -/
inductive Puts (walked : List String) : Operation → Json → Json → Prop
  | add (below : List String) {token : String} {x v w : Json} {old : Option Json} :
    v.modifyAt? (Json.insertChild? token x) below = some (old, w) →
    Puts walked (.add ⟨walked ++ below ++ [token]⟩ x) v w
  | replace (below : List String) {x v w old : Json} :
    v.modifyAt? (fun old => some (old, x)) below = some (old, w) →
    Puts walked (.replace ⟨walked ++ below⟩ x) v w

theorem Puts.lift {walked : List String} {token : String} {op : Operation} {v w : Json}
    (h : Puts (walked ++ [token]) op v w) {members : List (String × Json)}
    (found : Entries.find? token members = some v) :
    Puts walked op (.object members) (.object (Entries.insert token w members)) := by
  have child : (Json.object members).child? token = some v := found
  cases h with
  | add below changed =>
    have inside := Json.modifyAt?_cons.2 ⟨v, w, child, changed, rfl⟩
    have put : Puts walked _ _ _ := .add _ inside
    simpa [Json.setChild] using put
  | replace below changed =>
    have inside := Json.modifyAt?_cons.2 ⟨v, w, child, changed, rfl⟩
    have put : Puts walked _ _ _ := .replace _ inside
    simpa [Json.setChild] using put

theorem Puts.apply {op : Operation} {v w : Json} (h : Puts [] op v w) :
    Patch.apply [op] v = .ok w := by
  cases h with
  | add below changed =>
    simp [Patch.apply, Patch.applyFrom, Operation.run, Json.insertAt?, Pointer.split?, changed]
  | replace below changed =>
    simp [Patch.apply, Patch.applyFrom, Operation.run, Json.replaceAt?, changed]

theorem stepFrom_cons {rule : FieldRule} {walked rest : List String} {token : String}
    {members : List (String × Json)} :
    stepFrom rule walked (token :: rest) (.object members) =
      if (memberOrNull token members).isNull then
        .ok (rule.default.map fun value => .add ⟨walked ++ [token]⟩ (nest rest value))
      else stepFrom rule (walked ++ [token]) rest (memberOrNull token members) := rfl

theorem isNull_eq_true {v : Json} : v.isNull = true ↔ v = .null := by
  cases v <;> simp [Json.isNull]

theorem find?_of_memberOrNull {token : String} {members : List (String × Json)} {v : Json}
    (h : memberOrNull token members = v) (notNull : v ≠ .null) :
    Entries.find? token members = some v := by
  cases found : Entries.find? token members with
  | none => exact absurd (by simpa [memberOrNull, found] using h.symm) notNull
  | some value => simpa [memberOrNull, found] using h

theorem puts_replace (walked : List String) (x v : Json) :
    Puts walked (.replace ⟨walked⟩ x) v x := by
  have put : Puts walked (.replace ⟨walked ++ []⟩ x) v x := .replace [] rfl
  rwa [List.append_nil] at put

theorem puts_add (walked : List String) (token : String) (x : Json)
    (members : List (String × Json)) :
    Puts walked (.add ⟨walked ++ [token]⟩ x) (.object members)
      (.object (Entries.insert token x members)) := by
  have put : Puts walked (.add ⟨walked ++ [] ++ [token]⟩ x) (.object members)
      (.object (Entries.insert token x members)) := .add [] rfl
  rwa [List.append_nil] at put

/-- What a rule asks for: to replace what it rejects, to add its default where nothing stands or
null, or the same further down. -/
inductive Asks (rule : FieldRule) :
    (walked rest : List String) → (value : Json) → Operation → Prop
  | replace {walked : List String} {v better : Json} {rejects : Json → Bool} :
    rule.correction = some (rejects, better) → rejects v = true →
    Asks rule walked [] v (.replace ⟨walked⟩ better)
  | add {walked rest : List String} {token : String} {members : List (String × Json)}
    {value : Json} : rule.default = some value → memberOrNull token members = .null →
    Asks rule walked (token :: rest) (.object members) (.add ⟨walked ++ [token]⟩ (nest rest value))
  | further {walked rest : List String} {token : String} {members : List (String × Json)}
    {v : Json} {op : Operation} : Entries.find? token members = some v → v ≠ .null →
    Asks rule (walked ++ [token]) rest v op → Asks rule walked (token :: rest) (.object members) op

theorem asks_of_stepFrom {rule : FieldRule} {walked rest : List String} {v : Json} {op : Operation}
    (h : stepFrom rule walked rest v = .ok (some op)) : rule.Asks walked rest v op := by
  induction rest generalizing walked v with
  | nil =>
    simp only [stepFrom] at h
    split at h
    · rename_i rejects better correction
      split at h
      · rename_i rejected
        obtain rfl : .replace ⟨walked⟩ better = op := by simpa using h
        exact .replace correction rejected
      · simp at h
    · simp at h
  | cons token rest ih =>
    cases v with
    | object members =>
      rw [stepFrom_cons] at h
      split at h
      · rename_i null
        obtain ⟨value, default, rfl⟩ : ∃ value, rule.default = some value ∧
            .add ⟨walked ++ [token]⟩ (nest rest value) = op := by simpa using h
        exact .add default (isNull_eq_true.1 null)
      · rename_i notNull
        have present := mt isNull_eq_true.2 notNull
        exact .further (find?_of_memberOrNull rfl present) present (ih h)
    | null | bool | number | string | array => simp [stepFrom, Json.members?] at h

/-- What a rule asks for fills its path with what it offers. -/
theorem Asks.puts {rule : FieldRule} {walked rest : List String} {v : Json} {op : Operation}
    (h : rule.Asks walked rest v op) :
    Opens rest v ∧ ∃ value, rule.Offers value ∧ Puts walked op v (fillAt value rest v) ∧
      op.ValueIs fun x => ∃ below, below <:+ rest ∧ x = nest below value := by
  induction h with
  | @replace walked v better rejects correction _ =>
    exact ⟨trivial, better, .inr ⟨rejects, correction⟩, puts_replace walked better v, [],
      List.nil_suffix, rfl⟩
  | @add walked rest token members value default absent =>
    refine ⟨by simpa [Opens, absent] using Json.opens_null rest, value, .inl default, ?_,
      rest, List.suffix_cons token rest, rfl⟩
    rw [fillAt, absent, Json.fillAt_null]
    exact puts_add walked token (nest rest value) members
  | @further walked rest token members v op found _ _ ih =>
    obtain ⟨opens, value, offers, put, made⟩ := ih
    have inside : memberOrNull token members = v := by rw [memberOrNull, found, Option.getD_some]
    refine ⟨by rwa [Json.opens_object, inside], value, offers, ?_, made.imp ?_⟩
    · rw [fillAt, inside]
      exact put.lift found
    · rintro x ⟨below, part, rfl⟩
      exact ⟨below, part.trans (List.suffix_cons token rest), rfl⟩

/-- **Patches of rules.** The operation that a rule asks for applies to the document, fills the
path of the rule, and changes nothing else. -/
theorem apply_step {rule : FieldRule} {d : Json} {op : Operation}
    (h : rule.step d = .ok (some op)) :
    ∃ value, rule.Offers value ∧ Patch.apply [op] d = .ok (fillAt value rule.path d) ∧
      Json.FilledAt rule.path value d (fillAt value rule.path d) ∧
      op.ValueIs fun x => ∃ below, below <:+ rule.path ∧ x = nest below value := by
  obtain ⟨opens, value, offers, put, made⟩ := (asks_of_stepFrom h).puts
  exact ⟨value, offers, put.apply, Json.filledAt_fillAt opens, made⟩

theorem ordered_nest {value : Json} (h : value.Ordered) (path : List String) :
    (nest path value).Ordered := by
  rw [← Json.fillAt_null]
  exact Json.ordered_fillAt h .null

theorem fits_nest {value : Json} (h : ∀ room, value.Fits room) {path : List String} {room : Nat}
    (short : path.length ≤ room) : (nest path value).Fits room := by
  induction path generalizing room with
  | nil => exact h room
  | cons token rest ih =>
    cases room with
    | zero => simp at short
    | succ room =>
      have inside := ih (Nat.le_of_succ_le_succ short)
      exact .object (by simpa [nest] using inside)

/-! ## What is not asked for -/

/-- A rule that finds its own value asks for nothing, if it does not reject that value. -/
theorem stepFrom_fillAt {rule : FieldRule} {value : Json} (notNull : value ≠ .null)
    (accepts : ∀ rejects better, rule.correction = some (rejects, better) → rejects value = false)
    (walked rest : List String) (v : Json) :
    stepFrom rule walked rest (fillAt value rest v) = .ok none := by
  have filled_ne_null (path : List String) (v : Json) : (fillAt value path v).isNull = false := by
    rw [Bool.eq_false_iff]
    intro null
    cases path with
    | nil => exact notNull (isNull_eq_true.1 null)
    | cons token path => exact Json.fillAt_cons_ne_null _ _ _ _ (isNull_eq_true.1 null)
  induction rest generalizing walked v with
  | nil =>
    simp only [stepFrom, fillAt]
    split
    · rename_i rejects better correction
      simp [accepts rejects better correction]
    · rfl
  | cons token rest ih =>
    cases v with
    | object members =>
      rw [fillAt, stepFrom_cons, memberOrNull, Entries.find?_insert_self, Option.getD_some,
        filled_ne_null, if_neg Bool.false_ne_true]
      exact ih _ _
    | null | bool | number | string | array =>
      simp only [fillAt, stepFrom_cons, memberOrNull, Entries.find?, if_true, Option.getD_some,
        filled_ne_null, if_neg Bool.false_ne_true]
      exact ih _ _

/-! ## What is looked at -/

/-- Two values hold the same along a path, of which nothing and null are alike. -/
inductive Agree : List String → Json → Json → Prop
  | same (path : List String) (v : Json) : Agree path v v
  | member {token : String} {rest : List String} {first second : List (String × Json)} :
    Agree rest (memberOrNull token first) (memberOrNull token second) →
    Agree (token :: rest) (.object first) (.object second)

theorem Agree.isNull_eq {path : List String} {v w : Json} (h : Agree path v w) :
    v.isNull = w.isNull := by
  cases h <;> rfl

/-- A rule looks at nothing beside its path. -/
theorem stepFrom_congr {rule : FieldRule} {walked rest : List String} {v w : Json}
    (h : Agree rest v w) : stepFrom rule walked rest v = stepFrom rule walked rest w := by
  induction h generalizing walked with
  | same => rfl
  | member inside ih =>
    have null := inside.isNull_eq
    rw [stepFrom_cons, stepFrom_cons, null, ih]

end FieldRule

end ControllerHooks
