import ControllerHooks.Proofs.Admission.Simulation

/-!
# Defaults keep what the client has sent

Rules look at the document of the object to find out what is missing. What the object has dropped
looks missing to them, although the client has sent it.

* `Json.Leaf`: a value of the client's that is neither null nor an object.
* `Object.Drops`: which of them do not stand in the document of the object.
* `FieldRule.Corrects`: a rule has rejected what it found, and replaced it.
* `Defaults.leaves_are_kept`: a patch leaves all others alone.
-/

namespace ControllerHooks

open Record (Fills)
open Json (memberOrNull fillAt Opens)

namespace Json

/-! ## Leaves -/

/-- At the end of a path of members stands a value that is neither null nor an object. -/
inductive Leaf : (document : Json) → (path : List String) → (value : Json) → Prop
  | here {x : Json} : x ≠ .null → x.isObject = false → Leaf x [] x
  | member {token : String} {rest : List String} {members : List (String × Json)} {x : Json} :
    Leaf (memberOrNull token members) rest x → Leaf (.object members) (token :: rest) x

variable {v w x : Json} {path q : List String}

theorem leaf_string (s : String) : (string s).Leaf [] (string s) := .here (by simp) rfl

theorem Leaf.notNull (h : v.Leaf q x) : v ≠ .null := by
  cases h with
  | here notNull => exact notNull
  | member => simp

/-- In a value that is no object there are no leaves but itself. -/
theorem Leaf.of_scalar (h : v.Leaf q x) (scalar : v.isObject = false) : q = [] ∧ v = x := by
  cases h with
  | here => exact ⟨rfl, rfl⟩
  | member => cases scalar

theorem Leaf.at? (h : v.Leaf q x) : v.at? q = some x := by
  induction h with
  | here => rfl
  | member inside ih =>
    rw [at?_object, FieldRule.find?_of_memberOrNull rfl inside.notNull]
    exact ih

/-- Where nothing stands, or null, there is no leaf further down. -/
theorem Leaf.not_prefix (h : v.Leaf q x) (absent : (v.at? path).getD .null = .null) :
    ¬ path <+: q := by
  induction h generalizing path with
  | here notNull =>
    intro above
    obtain rfl := List.prefix_nil.1 above
    exact notNull absent
  | @member token rest members x inside ih =>
    cases path with
    | nil => cases absent
    | cons first more =>
      intro above
      obtain ⟨rfl, deeper⟩ := List.cons_prefix_cons.1 above
      rw [at?_object, FieldRule.find?_of_memberOrNull rfl inside.notNull] at absent
      exact ih absent deeper

/-- A leaf stays where it is when another place is filled. -/
theorem Leaf.fillAt {filler : Json} (h : v.Leaf q x) (opens : Opens path v)
    (beside : ¬ path <+: q) : (fillAt filler path v).Leaf q x := by
  induction h generalizing path with
  | @here x notNull scalar =>
    cases path with
    | nil => exact absurd List.nil_prefix beside
    | cons token rest =>
      cases x with
      | object => cases scalar
      | null => exact absurd rfl notNull
      | bool | number | string | array => cases opens
  | @member token rest members x inside ih =>
    cases path with
    | nil => exact absurd List.nil_prefix beside
    | cons first more =>
      refine .member ?_
      by_cases here : token = first
      · subst here
        rw [memberOrNull, Entries.find?_insert_self]
        exact ih opens fun above => beside ((List.prefix_cons_inj token).2 above)
      · rw [memberOrNull, Entries.find?_insert_of_ne here]
        exact inside

end Json

/-! ## What an object keeps -/

/-- Where a value is restated its leaves are where they were. -/
theorem Json.Restated.leaf {v w x : Json} {q : List String} (h : v.Restated w)
    (leaf : v.Leaf q x) : ∃ y, w.Leaf q y := by
  cases h with
  | same => exact ⟨x, leaf⟩
  | text | items =>
    obtain ⟨rfl, _⟩ := leaf.of_scalar rfl
    exact ⟨_, .here (by simp) rfl⟩

namespace Object

/-- The leaves of a client's document that the document of its object does not have: empty texts of
the envelope, and whatever is not known in the metadata. -/
inductive Drops : List String → Json → Prop
  | text {token : String} : token = "apiVersion" ∨ token = "kind" → Drops [token] (.string "")
  | metadata {key : String} (below : List String) (x : Json) :
    Record.field? Metadata.fields key = none → Drops ("metadata" :: key :: below) x

variable {v x : Json} {o : Object} {q : List String}

section
variable {members : List (String × Json)} (ordered : (Json.object members).Ordered)
  (h : Fills fields keepExtra blank (Doc.ofMembers .memory members) o)
include ordered h

theorem leaf_of_text {token : String} (text : token = "apiVersion" ∨ token = "kind")
    (leaf : (memberOrNull token members).Leaf q x) :
    Drops (token :: q) x ∨ ∃ y, (memberOrNull token (Entries.ofList o.members)).Leaf q y := by
  rcases text_kept ordered h text with ⟨null, _⟩ | ⟨s, stands, written⟩
  · exact absurd null leaf.notNull
  · rw [stands] at leaf
    obtain ⟨rfl, rfl⟩ := leaf.of_scalar rfl
    by_cases empty : s = ""
    · subst empty
      exact .inl (.text text)
    · rw [written, if_neg empty]
      exact .inr ⟨_, Json.leaf_string s⟩

theorem leaf_of_metadata (leaf : (memberOrNull "metadata" members).Leaf q x) :
    Drops ("metadata" :: q) x ∨
      ∃ y, (memberOrNull "metadata" (Entries.ofList o.members)).Leaf q y := by
  rcases metadata_inside ordered h with ⟨null, _⟩ | ⟨given, m, value, inner, read, some⟩
  · exact absurd null leaf.notNull
  · rw [value] at leaf
    cases leaf with
    | here _ scalar => cases scalar
    | @member key below _ _ inside =>
      cases known : Record.field? Metadata.fields key with
      | none => exact .inl (.metadata below x known)
      | some f =>
        obtain ⟨member, rfl⟩ := Record.field?_mem known
        obtain ⟨y, leaf⟩ := (Metadata.restated inner read f member).leaf inside
        rw [memberOrNull_metadata (extra_unknown h), some]
        exact .inr ⟨y, .member leaf⟩

end

/-- Every leaf of a client's document that is not dropped is a leaf of the document of its object,
if not always in the same words. -/
theorem leaf_kept (ordered : v.Ordered) (read : ofValue v = .ok o) (leaf : v.Leaf q x) :
    Drops q x ∨ ∃ y, o.toValue.Leaf q y := by
  obtain ⟨members, rfl⟩ := object_of_ofValue read
  have fills := (ofValue_eq_ok_iff ordered.sorted).1 read
  cases leaf with
  | here _ scalar => cases scalar
  | @member token rest _ _ inside =>
    have kept : Drops (token :: rest) x ∨
        ∃ y, (memberOrNull token (Entries.ofList o.members)).Leaf rest y := by
      by_cases enveloped : token ∈ envelope
      · obtain text | rfl : (token = "apiVersion" ∨ token = "kind") ∨ token = "metadata" := by
          simpa [envelope, or_assoc] using enveloped
        · exact leaf_of_text ordered fills text inside
        · exact leaf_of_metadata ordered fills inside
      · rw [memberOrNull_kept ordered fills enveloped]
        exact .inr ⟨x, inside⟩
    refine kept.imp_right ?_
    rintro ⟨y, leaf⟩
    exact ⟨y, .member leaf⟩

end Object

namespace FieldRule

/-! ## What a rule asks for -/

/-- What a rule asks for replaces what it rejects, or adds something where nothing stands or
null. -/
theorem Asks.kind {rule : FieldRule} {walked rest : List String} {d : Json} {op : Operation}
    (h : rule.Asks walked rest d op) :
    (∃ rejects better found, rule.correction = some (rejects, better) ∧
      d.at? rest = some found ∧ rejects found = true ∧ op = .replace ⟨walked ++ rest⟩ better) ∨
    ∃ below x, op = .add ⟨walked ++ below⟩ x ∧ (d.at? below).getD .null = .null := by
  induction h with
  | @replace walked d better rejects correction rejected =>
    exact .inl ⟨rejects, better, d, correction, rfl, rejected, by rw [List.append_nil]⟩
  | @add walked rest token members value _ absent =>
    refine .inr ⟨[token], _, rfl, ?_⟩
    rwa [Json.at?_member]
  | @further walked rest token members d op found _ _ ih =>
    have inside (path : List String) : (Json.object members).at? (token :: path) = d.at? path := by
      rw [Json.at?_object, found, Option.bind_some]
    rcases ih with ⟨rejects, better, old, correction, stands, rejected, rfl⟩ |
      ⟨below, x, rfl, absent⟩
    · refine .inl ⟨rejects, better, old, correction, (inside rest).trans stands, rejected, ?_⟩
      rw [List.append_assoc, List.singleton_append]
    · refine .inr ⟨token :: below, x, ?_, by rwa [inside]⟩
      rw [List.append_assoc, List.singleton_append]

/-- Among the operations of a patch is one of the rule's that replaces what it has rejected: that
stood at its place when the operations before had been applied. -/
inductive Corrects (rule : FieldRule) (document : Json) : Patch → Prop
  | replaced {earlier later : Patch} {mid found better : Json} {rejects : Json → Bool} :
    rule.correction = some (rejects, better) → earlier.apply document = .ok mid →
    mid.at? rule.path = some found → rejects found = true →
    Corrects rule document (earlier ++ .replace ⟨rule.path⟩ better :: later)

theorem Corrects.append {rule : FieldRule} {document : Json} {p : Patch}
    (h : rule.Corrects document p) (q : Patch) : rule.Corrects document (p ++ q) := by
  obtain ⟨correction, made, found, rejected⟩ := h
  rw [List.append_assoc, List.cons_append]
  exact .replaced correction made found rejected

end FieldRule

namespace Defaults

/-! ## A list of rules -/

/-- How a leaf of the client's document fares. Unless a rule has corrected it, it is there, and the
rules see a leaf there too, or the object has dropped it. Then it may have been filled over. -/
inductive Fares (rules : List FieldRule) (document : Json) (q : List String) (x : Json) (p : Patch)
    (c d : Json) : Prop
  | kept : c.Leaf q x → (Object.Drops q x ∨ ∃ y, d.Leaf q y) → Fares rules document q x p c d
  | corrected {rule : FieldRule} : rule ∈ rules → rule.Corrects document p → rule.path <+: q →
    Fares rules document q x p c d
  | filled {path : List String} {value : Json} : Object.Drops q x → .add ⟨path⟩ value ∈ p →
    path <+: q → Fares rules document q x p c d

/-- How a client's document follows the one that is planned on, which starts as `document`. -/
structure Spares (rules : List FieldRule) (client document : Json) (p : Patch) (c d : Json) :
    Prop where
  made : p.apply document = .ok d
  covers : Json.Covers c d
  fares : ∀ q x, client.Leaf q x → Fares rules document q x p c d

theorem fares_step {rules : List FieldRule} {rule : FieldRule} (member : rule ∈ rules)
    {document c d x value : Json} {q below : List String} {soFar : Patch} {op : Operation}
    (made : soFar.apply document = .ok d) (asked : rule.step d = .ok (some op))
    (both : FieldRule.PutsBoth [] op value below c d) (h : Fares rules document q x soFar c d) :
    Fares rules document q x (soFar ++ [op]) (fillAt value below c) (fillAt value below d) := by
  cases h with
  | corrected inside corrects above => exact .corrected inside (corrects.append [op]) above
  | filled dropped added above => exact .filled dropped (List.mem_append_left [op] added) above
  | kept leaf shown =>
    by_cases above : below <+: q
    · have place : op.path.tokens = below := both.path
      rcases (FieldRule.asks_of_stepFrom asked).kind with
        ⟨rejects, better, found, correction, stands, rejected, rfl⟩ | ⟨path, y, rfl, absent⟩
      · obtain rfl : rule.path = below := place
        exact .corrected member (.replaced correction made stands rejected) above
      · obtain rfl : path = below := place
        rcases shown with dropped | ⟨_, leaf⟩
        · have added : .add ⟨path⟩ y ∈ soFar ++ [.add ⟨[] ++ path⟩ y] := by simp
          exact .filled dropped added above
        · exact absurd above (leaf.not_prefix absent)
    · refine .kept (leaf.fillAt both.opens_client above) (shown.imp_right ?_)
      rintro ⟨y, leaf⟩
      exact ⟨y, leaf.fillAt both.opens_planned above⟩

theorem spares_step {rules : List FieldRule} {rule : FieldRule} (member : rule ∈ rules)
    {client document c d : Json} {soFar : Patch} {op : Operation}
    (h : Spares rules client document soFar c d) (asked : rule.step d = .ok (some op)) :
    ∃ c' d', Patch.apply [op] c = .ok c' ∧ Patch.apply [op] d = .ok d' ∧
      Spares rules client document (soFar ++ [op]) c' d' := by
  obtain ⟨below, more, value, _, _, _, both⟩ := (FieldRule.asks_of_stepFrom asked).covers h.covers
  refine ⟨_, _, both.client.apply, both.planned.apply, ?_,
    h.covers.fillAt both.opens_client both.opens_planned, ?_⟩
  · exact Patch.apply_append.2 ⟨d, h.made, both.planned.apply⟩
  · exact fun q x leaf => fares_step member h.made asked both (h.fares q x leaf)

/-- **Defaults keep what the client has sent.** For every list of rules and every document that is
read as an object: when evaluation answers with a patch, it applies to the document, and every
value there that is neither null nor an object is still the same, unless it lies at or below the
place of a rule that has rejected what stood there. Only what the object has dropped may be filled
over. -/
theorem leaves_are_kept {rules : List FieldRule} {v : Json} {o : Object} {p : Patch}
    (ordered : v.Ordered) (read : Object.ofValue v = .ok o)
    (planned : evaluate rules o = .ok (.patch p)) :
    ∃ after, p.apply v = .ok after ∧ ∀ q x, v.Leaf q x → after.Leaf q x ∨
      (∃ rule ∈ rules, rule.Corrects o.toValue p ∧ rule.path <+: q) ∨
      Object.Drops q x ∧ ∃ path value, .add ⟨path⟩ value ∈ p ∧ path <+: q := by
  obtain ⟨last, run⟩ := runs_of_patch planned
  have start : Spares rules v o.toValue [] v o.toValue :=
    ⟨rfl, Object.covers ordered read, fun q x leaf =>
      .kept leaf (Object.leaf_kept ordered read leaf)⟩
  obtain ⟨after, applied, spares⟩ :=
    run.lift (Spares rules v o.toValue) (fun _ member _ _ _ _ => spares_step member) [] start
  refine ⟨after, applied, fun q x leaf => ?_⟩
  cases spares.fares q x leaf with
  | kept leaf => exact .inl leaf
  | corrected member corrects above => exact .inr (.inl ⟨_, member, corrects, above⟩)
  | filled dropped added above => exact .inr (.inr ⟨dropped, _, _, added, above⟩)

/-- Under the rules that overwrite an unknown member of the metadata the name is kept. -/
theorem leaves_are_kept_of_untidy :
    untidy.Ordered ∧ ∃ o p after, Object.ofValue untidy = .ok o ∧
      evaluate paint o = .ok (.patch p) ∧ p.apply untidy = .ok after ∧
      untidy.Leaf ["metadata", "name"] (.string "web") ∧
      ∀ q x, untidy.Leaf q x → after.Leaf q x ∨
        (∃ rule ∈ paint, rule.Corrects o.toValue p ∧ rule.path <+: q) ∨
        Object.Drops q x ∧ ∃ path value, .add ⟨path⟩ value ∈ p ∧ path <+: q := by
  let o : Object :=
    { Object.blank with metadata := some { Metadata.blank with name := some "web" } }
  have read : Object.ofValue untidy = .ok o := rfl
  obtain ⟨p, planned⟩ : ∃ p, evaluate paint o = .ok (.patch p) := ⟨_, rfl⟩
  obtain ⟨after, applied, kept⟩ := leaves_are_kept untidy_ordered read planned
  have name : untidy.Leaf ["metadata", "name"] (.string "web") :=
    .member (.member (Json.leaf_string _))
  exact ⟨untidy_ordered, o, p, after, read, planned, applied, name, kept⟩

/-- A color in the metadata, which is no metadata that is known. -/
def colored : Json := .object [("metadata", .object [("color", .string "blue")])]

/-- A default for the color, with no correction. -/
def red : FieldRule := ⟨["metadata", "color"], some (.string "red"), none⟩

/-- A default overwrites what the client has sent, where the object has dropped it. -/
theorem dropped_color_is_overwritten :
    colored.Leaf ["metadata", "color"] (.string "blue") ∧ red.correction = none ∧
      ∃ o p after, Object.ofValue colored = .ok o ∧ evaluate [red] o = .ok (.patch p) ∧
        p.apply colored = .ok after ∧ after.Leaf ["metadata", "color"] (.string "red") ∧
        ¬ after.Leaf ["metadata", "color"] (.string "blue") := by
  let o : Object := { Object.blank with metadata := some .blank }
  let p : Patch := [.add ⟨["metadata", "color"]⟩ (.string "red")]
  let after : Json := .object [("metadata", .object [("color", .string "red")])]
  have blue : colored.Leaf ["metadata", "color"] (.string "blue") :=
    .member (.member (Json.leaf_string _))
  have other : after.Leaf ["metadata", "color"] (.string "red") :=
    .member (.member (Json.leaf_string _))
  refine ⟨blue, rfl, o, p, after, rfl, rfl, rfl, other, fun same => ?_⟩
  have both := same.at?.symm.trans other.at?
  simp at both

end Defaults

end ControllerHooks
