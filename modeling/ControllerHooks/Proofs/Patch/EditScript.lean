import ControllerHooks.Proofs.Json.Frames
import ControllerHooks.Proofs.Patch.Applying
import ControllerHooks.Proofs.Patch.Places
import ControllerHooks.Proofs.Patch.Reversal

/-!
# Differences are edit scripts

The operations of a difference are taken down with the paths that both documents suggest, and are
applied to a document that changes under them.

* `Patch.Turns`: a patch that puts one value in the place of another, wherever this stands. Such
  patches follow each other (`Patch.Turns.append`) and work further down (`Patch.Turns.inside`).
* `Json.diffMembers_turns`, `Json.diffItems_turns`: what the members and the items become, one after
  another.
* `Json.apply_diff`: the difference turns a value into one that is the same as the target.
* `DiffSummary.counts_edit_script`: so a summary counts the operations of an edit script.
-/

namespace ControllerHooks

namespace Patch

/-- Applied to an ordered document in which `v` stands at the path, the patch puts `w` there, and
does nothing else. -/
def Turns (path : List String) (p : Patch) (v w : Json) : Prop :=
  ∀ d result : Json, d.Ordered → d.replaceAt? ⟨path⟩ w = some (v, result) → p.apply d = .ok result

namespace Turns

variable {path : List String} {p q : Patch} {u v w : Json}

theorem nothing (path : List String) (v : Json) : Turns path [] v v := by
  intro d result ordered put
  rw [ordered.put_self put]
  rfl

theorem append (first : Turns path p v u) (second : Turns path q u w) (ordered : u.Ordered) :
    Turns path (p ++ q) v w := by
  intro d result whole put
  obtain ⟨mid, before, after⟩ := Json.exists_put_between u put
  have keeps {old a new : Json} (step : some (old, u) = some (a, new)) (_ : old.Ordered) :
      new.Ordered := by
    obtain ⟨_, rfl⟩ := Prod.mk.inj (Option.some.inj step)
    exact ordered
  have between : mid.Ordered := whole.modifyAt? keeps before
  exact apply_append.2 ⟨mid, first d mid whole before, second mid result between after⟩

/-- A patch that turns a child turns the value around it. -/
theorem inside {token : String} {old new : Json} (h : Turns (path ++ [token]) p old new)
    (found : v.child? token = some old) : Turns path p v (v.setChild token new) := by
  intro d result ordered put
  have below : Json.modifyAt? (fun old => some (old, new)) [token] v =
      some (old, v.setChild token new) := Json.modifyAt?_cons.2 ⟨old, new, found, rfl, rfl⟩
  have deeper := Json.modifyAt?_of_put below put
  rw [← Json.modifyAt?_append] at deeper
  exact h d result ordered deeper

theorem replace (path : List String) (v w : Json) : Turns path [.replace ⟨path⟩ w] v w := by
  intro d result _ put
  exact apply_singleton.2 ⟨[.replace ⟨path⟩ v], by simp [Operation.run, put]⟩

theorem add {token : String} {x : Json} {old : Option Json}
    (put : Json.insertChild? token x v = some (old, w)) :
    Turns path [.add ⟨path ++ [token]⟩ x] v w := by
  intro d result _ whole
  have inserted : d.insertAt? ⟨path ++ [token]⟩ x = some (old, result) := by
    simpa [Json.insertAt?, Pointer.split?] using Json.modifyAt?_of_put put whole
  have ran : (Operation.add ⟨path ++ [token]⟩ x).run d =
      .ok (result, [Operation.undoInsert ⟨path ++ [token]⟩ old]) := by
    simp only [Operation.run, inserted]
  exact apply_singleton.2 ⟨_, ran⟩

theorem remove {token : String} {x : Json}
    (taken : Json.removeChild? false token v = some (x, w)) :
    Turns path [.remove ⟨path ++ [token]⟩] v w := by
  intro d result _ whole
  have removed : d.removeAt? false ⟨path ++ [token]⟩ = some (x, result) := by
    simpa [Json.removeAt?, Pointer.split?] using Json.modifyAt?_of_put taken whole
  have ran : (Operation.remove ⟨path ++ [token]⟩).run d =
      .ok (result, [.add ⟨path ++ [token]⟩ x]) := by
    simp only [Operation.run, removed]
  exact apply_singleton.2 ⟨_, ran⟩

/-- At the root there is nothing else. -/
theorem apply (h : Turns [] p v w) (ordered : v.Ordered) : p.apply v = .ok w :=
  h v w ordered rfl

end Turns

end Patch

namespace Json

open Patch (Turns)

/-! ## Members -/

/-- Members that a patch takes out one after another. -/
theorem removals_turn (path : List String) {gone : List String} (distinct : gone.Nodup)
    {members : List (String × Json)} (ordered : (object members).Ordered)
    (present : ∀ k ∈ gone, ∃ v, Entries.find? k members = some v) :
    ∃ after, (object after).Ordered ∧
      Turns path (gone.map fun k => .remove ⟨path ++ [k]⟩) (object members) (object after) ∧
      ∀ l, Entries.find? l after = if l ∈ gone then none else Entries.find? l members := by
  induction gone generalizing members with
  | nil => exact ⟨members, ordered, .nothing path _, by simp⟩
  | cons k rest ih =>
    obtain ⟨fresh, distinct⟩ := List.nodup_cons.1 distinct
    obtain ⟨here, present⟩ := List.forall_mem_cons.1 present
    obtain ⟨v, found⟩ := here
    have taken : removeChild? false k (object members) =
        some (v, object (Entries.erase k members)) := by
      simp [removeChild?, found]
    have less : (object (Entries.erase k members)).Ordered := removeChild?_ordered taken ordered
    have still : ∀ l ∈ rest, ∃ v, Entries.find? l (Entries.erase k members) = some v := by
      intro l hl
      have other : l ≠ k := by
        rintro rfl
        exact fresh hl
      rw [Entries.find?_erase, if_neg other]
      exact present l hl
    obtain ⟨after, after_ordered, turns, found_after⟩ := ih distinct less still
    refine ⟨after, after_ordered, (Turns.remove taken).append turns less, fun l => ?_⟩
    rw [found_after, Entries.find?_erase]
    by_cases first : l = k <;> simp [first]

/-- Its difference to any other value puts a value there that is the same. -/
def Attained (target : Json) : Prop :=
  ∀ path base, base.Ordered →
    ∃ r : Json, r.Ordered ∧ r.same target = true ∧ Turns path (diffAt path base target) base r

/-- What it takes to have one member of the target, wherever the other members stand by then. -/
theorem memberDiff_turns {path : List String} {base members : List (String × Json)}
    {m : String × Json} (attained : m.2.Attained) (value : m.2.Ordered)
    (ordered : (object members).Ordered)
    (agree : Entries.find? m.1 members = Entries.find? m.1 base) :
    ∃ r, r.Ordered ∧ r.same m.2 = true ∧ Turns path (memberDiff path base m) (object members)
      (object (Entries.insert m.1 r members)) := by
  rw [memberDiff, ← agree]
  cases found : Entries.find? m.1 members with
  | some old =>
    obtain ⟨r, r_ordered, same, inner⟩ := attained (path ++ [m.1]) old (ordered.of_find? found)
    exact ⟨r, r_ordered, same, inner.inside (v := object members) found⟩
  | none => exact ⟨m.2, value, same_iff.2 rfl, .add rfl⟩

/-- The members of the target are put one after another. The members that are not its own stay. -/
theorem diffMembers_turns (path : List String) (base : List (String × Json))
    {target : List (String × Json)}
    (attained : ∀ m ∈ target, m.2.Attained) (values : ∀ m ∈ target, m.2.Ordered)
    (distinct : (target.map Prod.fst).Nodup)
    {members : List (String × Json)} (ordered : (object members).Ordered)
    (agree : ∀ m ∈ target, Entries.find? m.1 members = Entries.find? m.1 base) :
    ∃ after, (object after).Ordered ∧
      Turns path (diffMembers path base target) (object members) (object after) ∧
      (∀ m ∈ target, ∃ r, Entries.find? m.1 after = some r ∧ r.same m.2 = true) ∧
      ∀ k, k ∉ target.map Prod.fst → Entries.find? k after = Entries.find? k members := by
  rw [diffMembers_eq_flatMap]
  induction target generalizing members with
  | nil => exact ⟨members, ordered, .nothing path _, by simp, fun _ _ => rfl⟩
  | cons m rest ih =>
    obtain ⟨fresh, distinct⟩ := List.nodup_cons.1 distinct
    obtain ⟨turn, attained⟩ := List.forall_mem_cons.1 attained
    obtain ⟨value, values⟩ := List.forall_mem_cons.1 values
    obtain ⟨here, agree⟩ := List.forall_mem_cons.1 agree
    obtain ⟨r, r_ordered, same, first⟩ := memberDiff_turns turn value ordered here
    have next : (object (Entries.insert m.1 r members)).Ordered := ordered_insert ordered r_ordered
    -- The members to come are others, so they stand as they do in the base.
    have still : ∀ n ∈ rest, Entries.find? n.1 (Entries.insert m.1 r members) =
        Entries.find? n.1 base := by
      intro n hn
      have other : n.1 ≠ m.1 := fun same => fresh (same ▸ List.mem_map_of_mem hn)
      rw [Entries.find?_insert_of_ne other]
      exact agree n hn
    obtain ⟨after, after_ordered, later, puts, kept⟩ := ih attained values distinct next still
    refine ⟨after, after_ordered, first.append later next, ?_, fun k notOurs => ?_⟩
    · refine List.forall_mem_cons.2 ⟨⟨r, ?_, same⟩, puts⟩
      rw [kept m.1 fresh, Entries.find?_insert_self]
    · obtain ⟨other, notLater⟩ := not_or.1 (mt List.mem_cons.2 notOurs)
      rw [kept k notLater, Entries.find?_insert_of_ne other]

/-! ## Items -/

/-- The items that are too many are taken out at the place of the first one. -/
theorem surplus_turns (path : List String) {kept surplus : List Json}
    (ordered : ∀ x ∈ kept ++ surplus, x.Ordered) :
    Turns path (surplus.map fun _ => .remove ⟨path ++ [toString kept.length]⟩)
      (array (kept ++ surplus)) (array kept) := by
  induction surplus with
  | nil =>
    rw [List.append_nil]
    exact .nothing path _
  | cons x rest ih =>
    have place : index? (toString kept.length) (kept ++ x :: rest).length = some kept.length :=
      index?_toString (by simp)
    have without : (kept ++ x :: rest).eraseIdx kept.length = kept ++ rest := by
      simp [List.eraseIdx_append_of_length_le]
    have taken : removeChild? false (toString kept.length) (array (kept ++ x :: rest)) =
        some (x, array (kept ++ rest)) := by
      simp only [removeChild?, place]
      simp [without]
    -- The next surplus item has moved to the place of the one that is gone.
    have less : (array (kept ++ rest)).Ordered := removeChild?_ordered taken (.array ordered)
    exact (Turns.remove taken).append (ih less.items) less

/-- The next item of the target is put behind those that are done. -/
theorem item_turns {path : List String} {x : Json} (attained : x.Attained) (value : x.Ordered)
    {done base : List Json} (ordered : ∀ y ∈ done ++ base, y.Ordered) (rest : List Json) :
    ∃ r more q, r.same x = true ∧ (∀ y ∈ (done ++ [r]) ++ more, y.Ordered) ∧
      diffItems path done.length base (x :: rest) =
        q ++ diffItems path (done ++ [r]).length more rest ∧
      Turns path q (array (done ++ base)) (array ((done ++ [r]) ++ more)) := by
  obtain ⟨before, behind⟩ := List.forall_mem_append.1 ordered
  cases base with
  | nil =>
    have put : insertChild? (toString done.length) x (array done) =
        some (none, array (done ++ [x])) := by
      have place : index? (toString done.length) (done.length + 1) = some done.length :=
        index?_toString (Nat.lt_succ_self _)
      have dash : toString done.length ≠ "-" := by
        intro same
        rw [same] at place
        cases place
      simp only [insertChild?, place, if_neg dash]
      simp
    refine ⟨x, [], [.add ⟨path ++ [toString done.length]⟩ x], same_iff.2 rfl, ?_, ?_, ?_⟩
    · simpa [or_imp, forall_and] using ⟨before, value⟩
    · simp [diffItems]
    · rw [List.append_nil, List.append_nil]
      exact .add put
  | cons old more =>
    obtain ⟨here, behind⟩ := List.forall_mem_cons.1 behind
    obtain ⟨r, r_ordered, same, inner⟩ := attained (path ++ [toString done.length]) old here
    have place : index? (toString done.length) (done ++ old :: more).length = some done.length :=
      index?_toString (by simp)
    have found : (array (done ++ old :: more)).child? (toString done.length) = some old := by
      simp only [child?, place]
      simp
    have put : (array (done ++ old :: more)).setChild (toString done.length) r =
        array ((done ++ [r]) ++ more) := by
      simp only [setChild, place]
      simp
    refine ⟨r, more, diffAt (path ++ [toString done.length]) old x, same, ?_, ?_, ?_⟩
    · simpa [or_imp, forall_and] using ⟨before, r_ordered, behind⟩
    · simp [diffItems]
    · rw [← put]
      exact inner.inside found

/-- The items of the target are put one after another, behind those that are done. -/
theorem diffItems_turns {path : List String} {base target : List Json}
    (attained : ∀ x ∈ target, x.Attained) (values : ∀ x ∈ target, x.Ordered) {done : List Json}
    (ordered : ∀ x ∈ done ++ base, x.Ordered) :
    ∃ after, (∀ x ∈ done ++ after, x.Ordered) ∧ settledItems after = settledItems target ∧
      Turns path (diffItems path done.length base target) (array (done ++ base))
        (array (done ++ after)) := by
  induction target generalizing done base with
  | nil =>
    refine ⟨[], ?_, rfl, ?_⟩
    · rw [List.append_nil]
      exact fun x hx => ordered x (List.mem_append_left _ hx)
    · rw [diffItems, List.append_nil]
      exact surplus_turns path ordered
  | cons x rest ih =>
    obtain ⟨turn, attained⟩ := List.forall_mem_cons.1 attained
    obtain ⟨value, values⟩ := List.forall_mem_cons.1 values
    obtain ⟨r, more, q, same, next, script, first⟩ := item_turns turn value ordered rest
    obtain ⟨after, after_ordered, settles, later⟩ := ih attained values next
    refine ⟨r :: after, by simpa using after_ordered, ?_, ?_⟩
    · simp only [settledItems, settles, same_iff.1 same]
    · rw [script]
      rw [List.append_assoc done [r] after] at later
      exact first.append later (.array next)

/-! ## Values -/

/-- What has no parts in common with the target is replaced as a whole, unless it is the same. -/
theorem turns_of_apart {base target : Json}
    (objects : ∀ b t, ¬ (base = .object b ∧ target = .object t))
    (arrays : ∀ b t, ¬ (base = .array b ∧ target = .array t)) (path : List String)
    (ordered_base : base.Ordered) (ordered_target : target.Ordered) :
    ∃ r : Json, r.Ordered ∧ r.same target = true ∧ Turns path (diffAt path base target) base r := by
  rw [diffAt_of_apart objects arrays]
  split
  · rename_i same
    exact ⟨base, ordered_base, same, .nothing path base⟩
  · exact ⟨target, ordered_target, same_iff.2 rfl, .replace path base target⟩

theorem mem_keys_newMembers_iff {base target : List (String × Json)} {k : String} :
    k ∈ (newMembers base target).map Prod.fst ↔
      k ∈ target.map Prod.fst ∧ Entries.find? k base = none := by
  simp only [newMembers, Entries.contains, List.mem_map, List.mem_filter, Bool.not_eq_true',
    Option.isSome_eq_false_iff, Option.isNone_iff_eq_none]
  constructor
  · rintro ⟨m, ⟨member, missing⟩, rfl⟩
    exact ⟨⟨m, member, rfl⟩, missing⟩
  · rintro ⟨⟨m, member, rfl⟩, missing⟩
    exact ⟨m, ⟨member, missing⟩, rfl⟩

/-- The members of one object become those of another one. -/
theorem object_turns (path : List String) {base target : List (String × Json)}
    (ordered_base : (object base).Ordered) (ordered_target : (object target).Ordered)
    (attained : ∀ m ∈ target, m.2.Attained) :
    ∃ r : Json, r.Ordered ∧ r.same (object target) = true ∧
      Turns path (diffAt path (object base) (object target)) (object base) r := by
  obtain ⟨mid, mid_ordered, first, puts, kept⟩ := diffMembers_turns path base
    attained ordered_target.members ordered_target.sorted.keys_nodup ordered_base fun _ _ => rfl
  have stays {k : String} (missing : Entries.find? k target = none) :
      Entries.find? k mid = Entries.find? k base := by
    refine kept k fun member => ?_
    obtain ⟨m, hm, rfl⟩ := List.mem_map.1 member
    exact Entries.find?_eq_none_iff.1 missing m hm rfl
  have distinct : ((newMembers target base).map Prod.fst).Nodup :=
    ordered_base.sorted.keys_nodup.sublist (List.filter_sublist.map Prod.fst)
  have present : ∀ k ∈ (newMembers target base).map Prod.fst,
      ∃ v, Entries.find? k mid = some v := by
    intro k hk
    obtain ⟨member, missing⟩ := mem_keys_newMembers_iff.1 hk
    obtain ⟨m, hm, rfl⟩ := List.mem_map.1 member
    exact ⟨m.2, (stays missing).trans (ordered_base.sorted.find?_eq hm)⟩
  obtain ⟨after, after_ordered, second, found⟩ :=
    removals_turn path distinct mid_ordered present
  have removals : missingMembers path base target =
      ((newMembers target base).map Prod.fst).map fun k => .remove ⟨path ++ [k]⟩ := by
    simp [missingMembers, newMembers, Function.comp_def]
  refine ⟨object after, after_ordered, ?_, ?_⟩
  · refine (same_object_iff after_ordered.sorted ordered_target.sorted).2 ⟨?_, ?_⟩
    · intro m hm
      obtain ⟨r, here, same⟩ := puts m hm
      refine ⟨r, ?_, same⟩
      rw [found, if_neg, here]
      intro gone
      have missing := (mem_keys_newMembers_iff.1 gone).2
      exact Entries.find?_eq_none_iff.1 missing m hm rfl
    · intro m hm
      have here := after_ordered.sorted.find?_eq hm
      rw [found] at here
      split at here
      · cases here
      · rename_i notGone
        apply Option.ne_none_iff_exists'.1
        intro missing
        rw [stays missing] at here
        exact notGone (mem_keys_newMembers_iff.2
          ⟨List.mem_map_of_mem (Entries.mem_of_find? here), missing⟩)
  · rw [diffAt, removals]
    exact first.append second mid_ordered

/-- **Differences.** The difference turns a value into one that is the same as the target. -/
theorem Ordered.attained {target : Json} (h : target.Ordered) : target.Attained := by
  induction h with
  | null | bool | number | string =>
    intro path base ordered
    exact turns_of_apart (by simp) (by simp) path ordered (by constructor)
  | @array target inner ih =>
    intro path base ordered
    cases base with
    | array base =>
      obtain ⟨after, after_ordered, settles, turns⟩ :=
        @diffItems_turns path base target ih inner [] ordered.items
      exact ⟨.array after, .array after_ordered, same_iff.2 (congrArg Json.array settles), turns⟩
    | null | bool | number | string | object =>
      exact turns_of_apart (by simp) (by simp) path ordered (.array inner)
  | @object target sorted inner ih =>
    intro path base ordered
    cases base with
    | object base => exact object_turns path ordered (.object sorted inner) ih
    | null | bool | number | string | array =>
      exact turns_of_apart (by simp) (by simp) path ordered (.object sorted inner)

theorem apply_diff {base target : Json} (ordered_base : base.Ordered)
    (ordered_target : target.Ordered) :
    ∃ result : Json, (base.diff target).apply base = .ok result ∧ result.Ordered ∧
      result.same target = true := by
  obtain ⟨result, ordered, same, turns⟩ := ordered_target.attained [] base ordered_base
  exact ⟨result, turns.apply ordered_base, ordered, same⟩

end Json

namespace DiffSummary

/-- Each operation is counted once. -/
theorem ofPatch_total (p : Patch) :
    (ofPatch p).adds + (ofPatch p).updates + (ofPatch p).removes = p.length := by
  have counted (s : DiffSummary) : (p.foldl count s).adds + (p.foldl count s).updates +
      (p.foldl count s).removes = s.adds + s.updates + s.removes + p.length := by
    induction p generalizing s with
    | nil => rfl
    | cons op rest ih =>
      rw [List.foldl_cons, ih, List.length_cons]
      cases op <;> simp only [count] <;> omega
  simpa [ofPatch, empty] using counted empty

theorem isEmpty_ofPatch_iff {p : Patch} : (ofPatch p).isEmpty = true ↔ p = [] := by
  have total := ofPatch_total p
  constructor
  · intro h
    have none : ofPatch p = empty := of_decide_eq_true h
    rw [none] at total
    exact List.length_eq_zero_iff.1 total.symm
  · rintro rfl
    rfl

/-- **Edit scripts.** A summary counts the operations of a patch that goes through from the base
and makes it the same as the target: those that add, those that remove, and all together. There
are none exactly when both are the same before. -/
theorem counts_edit_script {base target : Json} (ordered_base : base.Ordered)
    (ordered_target : target.Ordered) :
    (∃ result, (base.diff target).apply base = .ok result ∧ result.same target = true) ∧
    (between base target).adds = (base.diff target).countP (fun op => op.kind = .add) ∧
    (between base target).removes = (base.diff target).countP (fun op => op.kind = .remove) ∧
    (between base target).adds + (between base target).updates + (between base target).removes =
      (base.diff target).length ∧
    ((between base target).isEmpty = true ↔ base.same target = true) := by
  obtain ⟨result, applied, _, same⟩ := Json.apply_diff ordered_base ordered_target
  refine ⟨⟨result, applied, same⟩, ?_, ?_, ofPatch_total _, ?_⟩
  · simp only [between, ofPatch_eq, List.countP_map, Function.comp_def]
  · simp only [between, ofPatch_eq, List.countP_map, Function.comp_def]
  · rw [between, isEmpty_ofPatch_iff, Json.diff,
      Json.diffAt_eq_nil_iff [] base target ordered_base ordered_target]

/-- Two items and a member are taken out, a member is added, and one is replaced. -/
theorem counts_edit_script_of_shortened_list :
    let base := Json.object [("a/b", .array [.ofInt 1, .ofInt 2, .ofInt 3]), ("gone", .bool true),
      ("~", .object [("x", .ofInt 1)])]
    let target := Json.object [("a/b", .array [.ofInt 1]),
      ("~", .object [("-", .null), ("x", .ofInt 2)])]
    base.Ordered ∧ target.Ordered ∧ between base target = ⟨1, 1, 3⟩ ∧
      (base.diff target).length = 5 ∧
      ∃ result, (base.diff target).apply base = .ok result ∧ result.same target = true := by
  intro base target
  have items : (Json.array [.ofInt 1, .ofInt 2, .ofInt 3]).Ordered :=
    .array (by simpa using ⟨.number _, .number _, .number _⟩)
  have item : (Json.array [.ofInt 1]).Ordered := .array (by simpa using .number _)
  have before : (Json.object [("x", .ofInt 1)]).Ordered :=
    .object (by decide) (by simpa using .number _)
  have after : (Json.object [("-", .null), ("x", .ofInt 2)]).Ordered :=
    .object (by decide) (by simpa using ⟨.null, .number _⟩)
  have ordered_base : base.Ordered :=
    .object (by decide) (by simpa using ⟨items, .bool true, before⟩)
  have ordered_target : target.Ordered := .object (by decide) (by simpa using ⟨item, after⟩)
  have counted : between base target = ⟨1, 1, 3⟩ := rfl
  obtain ⟨applied, _, _, total, _⟩ := counts_edit_script ordered_base ordered_target
  rw [counted] at total
  exact ⟨ordered_base, ordered_target, counted, total.symm, applied⟩

end DiffSummary

end ControllerHooks
