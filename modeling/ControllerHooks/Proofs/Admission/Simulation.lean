import ControllerHooks.Proofs.Admission.Documents
import ControllerHooks.Proofs.Admission.Planning
import ControllerHooks.Proofs.Json.Frames

/-!
# A patch for the client's document

A patch is planned on the document of an object, where nulls, empty texts and unknown metadata are
gone, and applied to the document that the client sent.

* `Json.Covers`: what stands in one document has something of its kind in another one.
* `Object.covers`: a client's document covers the document of its object.
* `FieldRule.Asks.covers`: what is asked for on the one document does the same to both.
* `Defaults.patch_applies_to_client`: so does a whole patch.
-/

namespace ControllerHooks

open Record (Fills)
open Json (memberOrNull fillAt Opens)

namespace Json

/-! ## Covering -/

/-- Where there is an object in the second document there is one in the first, and where there is
anything else but null there is something. -/
inductive Covers : Json → Json → Prop
  | null (v : Json) : Covers v .null
  | leaf {v w : Json} : v ≠ .null → w.isObject = false → Covers v w
  | object {first second : List (String × Json)} :
    (∀ token, Covers (memberOrNull token first) (memberOrNull token second)) →
    Covers (.object first) (.object second)

theorem Covers.refl (v : Json) : Covers v v := by
  cases v with
  | null => exact .null _
  | bool | number | string | array => exact .leaf (by simp) rfl
  | object members =>
    refine .object fun token => ?_
    cases found : Entries.find? token members with
    | none =>
      rw [memberOrNull, found]
      exact .null _
    | some child =>
      have smaller := List.sizeOf_lt_of_mem (Entries.mem_of_find? found)
      rw [memberOrNull, found]
      exact Covers.refl child
termination_by sizeOf v
decreasing_by
  simp only [Prod.mk.sizeOf_spec] at smaller
  simp only [Json.object.sizeOf_spec]
  omega

theorem Covers.object_of {v : Json} {second : List (String × Json)}
    (h : Covers v (.object second)) : ∃ first, v = .object first ∧
      ∀ token, Covers (memberOrNull token first) (memberOrNull token second) := by
  cases h with
  | leaf _ other => cases other
  | object inside => exact ⟨_, rfl, inside⟩

theorem Covers.notNull {v w : Json} (h : Covers v w) (notNull : w ≠ .null) : v ≠ .null := by
  cases h with
  | null => exact absurd rfl notNull
  | leaf present => exact present
  | object => simp

/-! ## One value in two documents -/

/-- What stands above a place that is filled. -/
theorem at?_fillAt_above {filler v : Json} {above below : List String}
    (opens : Opens (above ++ below) v) :
    (fillAt filler (above ++ below) v).at? above =
      some (fillAt filler below ((v.at? above).getD .null)) := by
  induction above generalizing v with
  | nil => rfl
  | cons token rest ih =>
    rw [List.cons_append] at opens ⊢
    obtain ⟨members, opens, filled, same⟩ := opens_cons opens filler
    rw [filled, same, at?_object, Entries.find?_insert_self, Option.bind_some, ih opens, at?_object]
    cases found : Entries.find? token members with
    | none => cases rest <;> simp [memberOrNull, found, at?, child?]
    | some child => simp [memberOrNull, found]

/-- What two documents agree on, they agree on after the same value was put at the same place. -/
theorem at?_fillAt_congr {filler v w : Json} {path q : List String} (opens_v : Opens path v)
    (opens_w : Opens path w) (same : v.at? q = w.at? q) :
    (fillAt filler path v).at? q = (fillAt filler path w).at? q := by
  by_cases above : q <+: path
  · obtain ⟨below, rfl⟩ := above
    rw [at?_fillAt_above opens_v, at?_fillAt_above opens_w, same]
  by_cases below : path <+: q
  · obtain ⟨more, rfl⟩ := below
    rw [at?_append, at?_append, at?_fillAt, at?_fillAt]
  · rw [fillAt_kept opens_v above below, fillAt_kept opens_w above below, same]

theorem Covers.insert {first second : List (String × Json)}
    (h : ∀ token, Covers (memberOrNull token first) (memberOrNull token second)) {token : String}
    {v w : Json} (covers : Covers v w) :
    Covers (.object (Entries.insert token v first)) (.object (Entries.insert token w second)) := by
  refine .object fun other => ?_
  by_cases here : other = token
  · rw [here, memberOrNull, memberOrNull, Entries.find?_insert_self, Entries.find?_insert_self]
    exact covers
  · simp only [memberOrNull, Entries.find?_insert_of_ne here]
    exact h other

/-- A document that covers another one covers it after both were filled. -/
theorem Covers.fillAt {filler v w : Json} {path : List String} (covers : Covers v w)
    (opens_v : Opens path v) (opens_w : Opens path w) :
    Covers (fillAt filler path v) (fillAt filler path w) := by
  induction path generalizing v w with
  | nil => exact .refl filler
  | cons token rest ih =>
    cases w with
    | object second =>
      obtain ⟨first, rfl, inside⟩ := covers.object_of
      exact .insert inside (ih (inside token) opens_v opens_w)
    | null =>
      obtain ⟨first, opens, filled, _⟩ := opens_cons opens_v filler
      have inside (other : String) : Covers (memberOrNull other first) (memberOrNull other []) :=
        .null _
      rw [filled]
      exact .insert inside (ih (inside token) opens (opens_null rest))
    | bool | number | string | array => cases opens_w

end Json

open Json (Covers)

/-! ## The document of an object -/

theorem Json.Restated.covers {v w : Json} (h : v.Restated w) : Covers v w := by
  cases h with
  | same => exact .refl v
  | text | items => exact .leaf (by simp) rfl

theorem Metadata.covers {members : List (String × Json)} {m : Metadata}
    (ordered : (Json.object members).Ordered)
    (h : Fills fields Record.ignore blank (Doc.ofMembers .memory members) m) :
    Covers (.object members) (.object m.members) := by
  refine .object fun token => ?_
  cases known : Record.field? fields token with
  | none =>
    rw [memberOrNull_unknown known]
    exact .null _
  | some f =>
    obtain ⟨member, rfl⟩ := Record.field?_mem known
    exact (restated ordered h f member).covers

/-- A client's document covers the document of its object. -/
theorem Object.covers {v : Json} {o : Object} (ordered : v.Ordered) (read : ofValue v = .ok o) :
    Covers v o.toValue := by
  obtain ⟨members, rfl⟩ := object_of_ofValue read
  have fills := (ofValue_eq_ok_iff ordered.sorted).1 read
  have unknown := extra_unknown fills
  refine .object fun token => ?_
  by_cases enveloped : token ∈ envelope
  · obtain text | rfl : (token = "apiVersion" ∨ token = "kind") ∨ token = "metadata" := by
      simpa [envelope, or_assoc] using enveloped
    · rcases text_kept ordered fills text with ⟨_, null⟩ | ⟨s, stands, written⟩
      · rw [null]
        exact .null _
      · rw [stands, written]
        split
        · exact .null _
        · exact .refl _
    · rw [memberOrNull_metadata unknown]
      rcases metadata_inside ordered fills with
        ⟨_, none⟩ | ⟨inside, m, value, inner, read, some⟩
      · rw [none]
        exact .null _
      · rw [some, value]
        exact Metadata.covers inner read
  · rw [memberOrNull_kept ordered fills enveloped]
    exact .refl _

namespace FieldRule

/-! ## One rule -/

/-- An operation below `walked` that puts the same value at the same place of two others. -/
structure PutsBoth (walked : List String) (op : Operation) (x : Json) (below : List String)
    (c d : Json) : Prop where
  path : op.path.tokens = walked ++ below
  opens_client : Opens below c
  opens_planned : Opens below d
  client : Puts walked op c (fillAt x below c)
  planned : Puts walked op d (fillAt x below d)

/-- What a rule asks for on a document does the same to a document that covers it. -/
theorem Asks.covers {rule : FieldRule} {walked rest : List String} {c d : Json} {op : Operation}
    (h : rule.Asks walked rest d op) (covers : Covers c d) :
    ∃ below more value, rest = below ++ more ∧ (rest ≠ [] → below ≠ []) ∧ rule.Offers value ∧
      PutsBoth walked op (nest more value) below c d := by
  induction h generalizing c with
  | @replace walked d better rejects correction _ =>
    exact ⟨[], [], better, rfl, id, .inr ⟨rejects, correction⟩, (List.append_nil walked).symm,
      trivial, trivial, puts_replace walked better c, puts_replace walked better d⟩
  | @add walked rest token second value default _ =>
    obtain ⟨first, rfl, _⟩ := covers.object_of
    exact ⟨[token], rest, value, rfl, by simp, .inl default, rfl, trivial, trivial,
      puts_add walked token _ first, puts_add walked token _ second⟩
  | @further walked rest token second d op found present _ ih =>
    obtain ⟨first, rfl, inside⟩ := covers.object_of
    have here : memberOrNull token second = d := by rw [memberOrNull, found, Option.getD_some]
    have covered : Covers (memberOrNull token first) d := by
      rw [← here]
      exact inside token
    obtain ⟨below, more, value, rfl, _, offers, both⟩ := ih covered
    refine ⟨token :: below, more, value, rfl, by simp, offers, ?_, both.opens_client, ?_, ?_, ?_⟩
    · rw [both.path, List.append_assoc, List.singleton_append]
    · rw [Json.opens_object, here]
      exact both.opens_planned
    · exact both.client.lift (find?_of_memberOrNull rfl (covered.notNull present))
    · rw [fillAt, here]
      exact both.planned.lift found

end FieldRule

namespace Defaults

/-! ## A list of rules -/

/-- One document covers another one, and they hold the same at the places of some operations. -/
structure Follows (p : Patch) (c d : Json) : Prop where
  covers : Covers c d
  agrees : ∀ op ∈ p, c.at? op.path.tokens = d.at? op.path.tokens

theorem follows_step {rule : FieldRule} {soFar : Patch} {c d : Json} {op : Operation}
    (h : Follows soFar c d) (asked : rule.step d = .ok (some op)) :
    ∃ c' d', Patch.apply [op] c = .ok c' ∧ Patch.apply [op] d = .ok d' ∧
      Follows (soFar ++ [op]) c' d' := by
  obtain ⟨below, more, value, _, _, _, both⟩ := (FieldRule.asks_of_stepFrom asked).covers h.covers
  refine ⟨_, _, both.client.apply, both.planned.apply,
    h.covers.fillAt both.opens_client both.opens_planned, List.forall_mem_append.2 ⟨?_, ?_⟩⟩
  · intro earlier member
    exact Json.at?_fillAt_congr both.opens_client both.opens_planned (h.agrees earlier member)
  · refine List.forall_mem_singleton.2 ?_
    rw [both.path, List.nil_append, Json.at?_fillAt, Json.at?_fillAt]

/-- **A planned patch is for the client's document.** For every list of rules and every document
that is read as an object: when evaluation answers with a patch, the patch makes of the object's
document, in one go, what the rules have made of it one by one; it applies to the client's document;
and there the place of each of its operations holds what it holds in the document of the rules. -/
theorem patch_applies_to_client {rules : List FieldRule} {v : Json} {o : Object} {p : Patch}
    (ordered : v.Ordered) (read : Object.ofValue v = .ok o)
    (planned : evaluate rules o = .ok (.patch p)) :
    ∃ document patched, rules.foldlM advance (o.toValue, []) = .ok (document, p) ∧
      p.apply o.toValue = .ok document ∧ p.apply v = .ok patched ∧
      ∀ op ∈ p, patched.at? op.path.tokens = document.at? op.path.tokens := by
  obtain ⟨document, run⟩ := runs_of_patch planned
  have start : Follows [] v o.toValue := ⟨Object.covers ordered read, List.forall_mem_nil _⟩
  obtain ⟨patched, applied, follows⟩ :=
    run.lift Follows (fun _ _ _ _ _ _ follows asked => follows_step follows asked) [] start
  exact ⟨document, patched, foldlM_advance_eq_ok_iff.2 ⟨p, run, rfl⟩, run.apply, applied,
    follows.agrees⟩

/-- A client's document with an empty kind, nulls, and a member that is not known in its metadata. -/
def untidy : Json :=
  .object [("kind", .string ""),
    ("metadata", .object [("color", .object [("old", .bool true)]), ("name", .string "web"),
      ("uid", .null)]),
    ("spec", .null)]

/-- Three rules, of which the last one makes up for the first one. -/
def paint : List FieldRule :=
  [⟨["metadata", "color", "shade"], some (.string "dark"), none⟩,
    ⟨["spec", "replicas"], some (.ofInt 1), none⟩,
    ⟨["metadata", "color"], none, some (Json.isObject, .string "red")⟩]

theorem untidy_ordered : untidy.Ordered := by
  have color : (Json.object [("old", .bool true)]).Ordered :=
    .object (by simp [Entries.Sorted]) (by simpa using .bool true)
  have metadata : (Json.object [("color", .object [("old", .bool true)]), ("name", .string "web"),
      ("uid", .null)]).Ordered :=
    .object (by decide) (by simpa using ⟨color, .string _, .null⟩)
  exact .object (by decide) (by simpa using ⟨.string _, metadata, .null⟩)

/-- What the object has dropped is overwritten. -/
theorem patch_applies_to_client_of_untidy :
    untidy.Ordered ∧ ∃ o p patched, Object.ofValue untidy = .ok o ∧
      evaluate paint o = .ok (.patch p) ∧ p.length = 3 ∧ p.apply untidy = .ok patched ∧
      patched.at? ["metadata", "color"] = some (.string "red") := by
  let o : Object :=
    { Object.blank with metadata := some { Metadata.blank with name := some "web" } }
  let p : Patch := [.add ⟨["metadata", "color"]⟩ (.object [("shade", .string "dark")]),
    .add ⟨["spec"]⟩ (.object [("replicas", .ofInt 1)]),
    .replace ⟨["metadata", "color"]⟩ (.string "red")]
  have read : Object.ofValue untidy = .ok o := rfl
  have planned : evaluate paint o = .ok (.patch p) := rfl
  obtain ⟨document, patched, _, made, applied, agree⟩ :=
    patch_applies_to_client untidy_ordered read planned
  have stands : document.at? ["metadata", "color"] = some (.string "red") := by
    cases made
    rfl
  have last : .replace ⟨["metadata", "color"]⟩ (.string "red") ∈ p := by simp [p]
  exact ⟨untidy_ordered, o, p, patched, read, planned, rfl, applied, (agree _ last).trans stands⟩

end Defaults

end ControllerHooks
