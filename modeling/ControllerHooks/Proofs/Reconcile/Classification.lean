import ControllerHooks.Proofs.Reconcile.References

/-!
# What a plan lists

A plan is told by the two states alone: by the references that only the one of them or only the
other has, and by those that are to different objects.

* `Plan.Classifies`: what a plan says of two states.
* `Plan.Classifies.unique`: nothing more can be said.
* `Plan.between_classifies`: the plan between two states, and when there is none.
-/

namespace ControllerHooks

theorem SortedMap.mem_entries_iff {κ α : Type} [DecidableEq κ] [Ord κ] [Std.LawfulEqOrd κ]
    {m : SortedMap κ α} {k : κ} {v : α} : (k, v) ∈ m.entries ↔ m.get? k = some v :=
  ⟨fun h => m.sorted.find?_eq h, Entries.mem_of_find?⟩

theorem SortedMap.mem_keys_iff {κ α : Type} [DecidableEq κ] [Ord κ] [Std.LawfulEqOrd κ]
    {m : SortedMap κ α} {k : κ} : k ∈ m.keys ↔ ∃ v, m.get? k = some v := by
  simp [keys, ← mem_entries_iff]

namespace ObjectRef

theorem Before.irrefl (a : ObjectRef) : ¬ Before a a := by
  have equal : compare a a = .eq := Std.ReflCmp.compare_self
  rw [← before_iff, equal]
  simp

theorem Before.asymm {a b : ObjectRef} (h : Before a b) : ¬ Before b a := by
  rw [← before_iff] at h ⊢
  rw [Std.OrientedCmp.gt_of_lt h]
  simp

/-- What comes in the order of its references is told by what there is. -/
theorem eq_of_increasing {α : Type} {xs ys : List α} (ref : α → ObjectRef)
    (first : (xs.map ref).Pairwise Before) (second : (ys.map ref).Pairwise Before)
    (same : ∀ x, x ∈ xs ↔ x ∈ ys) : xs = ys := by
  rw [List.pairwise_map] at first second
  have once {zs : List α} (h : zs.Pairwise fun x y => Before (ref x) (ref y)) : zs.Nodup := by
    apply h.imp
    rintro x _ before rfl
    exact before.irrefl
  have perm := (List.perm_ext_iff_of_nodup (once first) (once second)).2 same
  refine perm.eq_of_pairwise ?_ first second
  intro x y _ _ before after
  exact absurd after before.asymm

end ObjectRef

namespace Plan

open ObjectRef (Before)

/-- What a plan says of two states. A reference stands for the dependents that it is to. -/
structure Classifies (observed desired : State) (p : Plan) : Prop where
  /-- The parent is there exactly when it changes. -/
  parent : ∀ counts, p.parent = some counts ↔
    observed.object.same desired.object = false ∧
      counts = .between observed.object.toValue desired.object.toValue
  created : ∀ ref, ref ∈ p.created ↔
    observed.dependents.referred ref = none ∧ ∃ new, desired.dependents.referred ref = some new
  updated : ∀ change, change ∈ p.updated ↔ ∃ old new,
    observed.dependents.referred change.target = some old ∧
      desired.dependents.referred change.target = some new ∧ old.same new = false ∧
      change.summary = .between old.toValue new.toValue
  deleted : ∀ ref, ref ∈ p.deleted ↔
    desired.dependents.referred ref = none ∧ ∃ old, observed.dependents.referred ref = some old
  created_increasing : p.created.Pairwise Before
  updated_increasing : (p.updated.map Change.target).Pairwise Before
  deleted_increasing : p.deleted.Pairwise Before

namespace Classifies

variable {observed desired : State} {p q : Plan}

/-- Two states have one plan. -/
theorem unique (hp : p.Classifies observed desired) (hq : q.Classifies observed desired) :
    p = q := by
  have parent : p.parent = q.parent :=
    Option.ext fun counts => (hp.parent counts).trans (hq.parent counts).symm
  have created : p.created = q.created := by
    refine ObjectRef.eq_of_increasing id ?_ ?_ fun ref =>
      (hp.created ref).trans (hq.created ref).symm
    · simpa using hp.created_increasing
    · simpa using hq.created_increasing
  have updated : p.updated = q.updated :=
    ObjectRef.eq_of_increasing Change.target hp.updated_increasing hq.updated_increasing
      fun change => (hp.updated change).trans (hq.updated change).symm
  have deleted : p.deleted = q.deleted := by
    refine ObjectRef.eq_of_increasing id ?_ ?_ fun ref =>
      (hp.deleted ref).trans (hq.deleted ref).symm
    · simpa using hp.deleted_increasing
    · simpa using hq.deleted_increasing
  cases p
  cases q
  simp_all

/-- No reference is listed twice. -/
theorem nodup (h : p.Classifies observed desired) :
    (p.created ++ p.updated.map Change.target ++ p.deleted).Nodup := by
  have once {refs : List ObjectRef} (increasing : refs.Pairwise Before) : refs.Nodup := by
    apply increasing.imp
    rintro ref _ before rfl
    exact before.irrefl
  have both {ref : ObjectRef} (listed : ref ∈ p.updated.map Change.target) :
      (∃ old, observed.dependents.referred ref = some old) ∧
        ∃ new, desired.dependents.referred ref = some new := by
    obtain ⟨change, member, rfl⟩ := List.mem_map.1 listed
    obtain ⟨old, new, before, after, _⟩ := (h.updated change).1 member
    exact ⟨⟨old, before⟩, new, after⟩
  refine List.nodup_append.2 ⟨List.nodup_append.2 ⟨once h.created_increasing,
    once h.updated_increasing, ?_⟩, once h.deleted_increasing, ?_⟩
  · rintro ref created _ updated rfl
    obtain ⟨none, _⟩ := (h.created ref).1 created
    obtain ⟨⟨old, before⟩, _⟩ := both updated
    cases none.symm.trans before
  · rintro ref listed _ deleted rfl
    obtain ⟨none, old, before⟩ := (h.deleted ref).1 deleted
    rcases List.mem_append.1 listed with created | updated
    · obtain ⟨absent, _⟩ := (h.created ref).1 created
      cases absent.symm.trans before
    · obtain ⟨_, new, after⟩ := both updated
      cases none.symm.trans after

end Classifies

/-! ## The plan between two states -/

variable {these others before after : SortedMap ObjectRef Object}

theorem mem_without_iff {ref : ObjectRef} :
    ref ∈ without these others ↔ others.get? ref = none ∧ ∃ o, these.get? ref = some o := by
  rw [without, List.mem_filter, SortedMap.mem_keys_iff, Option.isNone_iff_eq_none]
  exact and_comm

theorem keys_increasing : these.keys.Pairwise Before :=
  List.pairwise_map.2 (these.sorted.imp ObjectRef.before_iff.1)

theorem without_increasing : (without these others).Pairwise Before :=
  keys_increasing.filter _

theorem changeOf_eq_some_iff {e : ObjectRef × Object} {change : Change} :
    changeOf before e = some change ↔ ∃ old, before.get? e.1 = some old ∧
      old.same e.2 = false ∧ change = ⟨e.1, summary old e.2⟩ := by
  cases found : before.get? e.1 with
  | none => simp [changeOf, found]
  | some old =>
    have whole : changeOf before e = if old.same e.2 then none else some ⟨e.1, summary old e.2⟩ := by
      simp only [changeOf, found]
    rw [whole]
    split
    · rename_i same
      simp [same]
    · rename_i differs
      constructor
      · intro changed
        exact ⟨old, rfl, eq_false_of_ne_true differs, (Option.some.inj changed).symm⟩
      · rintro ⟨_, ⟨⟩, _, rfl⟩
        rfl

theorem mem_changes_iff {change : Change} :
    change ∈ after.entries.filterMap (changeOf before) ↔ ∃ old new,
      before.get? change.target = some old ∧ after.get? change.target = some new ∧
        old.same new = false ∧ change.summary = summary old new := by
  simp only [List.mem_filterMap, changeOf_eq_some_iff]
  constructor
  · rintro ⟨⟨ref, new⟩, member, old, found, differs, rfl⟩
    exact ⟨old, new, found, SortedMap.mem_entries_iff.1 member, differs, rfl⟩
  · rintro ⟨old, new, found, stands, differs, counts⟩
    refine ⟨(change.target, new), SortedMap.mem_entries_iff.2 stands, old, found, differs, ?_⟩
    rw [← counts]

theorem changes_increasing :
    ((after.entries.filterMap (changeOf before)).map Change.target).Pairwise Before := by
  rw [List.pairwise_map, List.pairwise_filterMap]
  apply after.sorted.imp
  intro e f below change changed other altered
  obtain ⟨_, _, _, rfl⟩ := changeOf_eq_some_iff.1 changed
  obtain ⟨_, _, _, rfl⟩ := changeOf_eq_some_iff.1 altered
  exact ObjectRef.before_iff.1 below

variable {observed desired : State} {p : Plan}

/-- There is a plan where every dependent of both states has a name. -/
theorem exists_between_iff :
    (∃ p, between observed desired = .ok p) ↔
      observed.dependents.Named ∧ desired.dependents.Named := by
  simp only [between, bind_eq_ok, index_eq_ok_iff, pure_eq_ok_value, Except.ok.injEq]
  constructor
  · rintro ⟨_, _, ⟨before, rfl⟩, _, ⟨after, rfl⟩, rfl⟩
    exact ⟨before, after⟩
  · rintro ⟨before, after⟩
    exact ⟨_, _, ⟨before, rfl⟩, _, ⟨after, rfl⟩, rfl⟩

theorem classifies_of_between (planned : between observed desired = .ok p) :
    p.Classifies observed desired := by
  simp only [between, bind_eq_ok, pure_eq_ok_value, Except.ok.injEq] at planned
  obtain ⟨before, indexed, after, reindexed, rfl⟩ := planned
  have old := get?_index indexed
  have new := get?_index reindexed
  constructor
  · intro counts
    cases observed.object.same desired.object <;> simp [summary, eq_comm]
  · intro ref
    rw [mem_without_iff, old, new]
  · intro change
    simp only [mem_changes_iff, old, new, summary]
  · intro ref
    rw [mem_without_iff, old, new]
  · exact without_increasing
  · exact changes_increasing
  · exact without_increasing

/-- Where there is no plan, a dependent without a name is reported, an observed one first. -/
theorem nameless_of_between {fault : Fault} (failed : between observed desired = .error fault) :
    Nameless observed.dependents fault ∨
      observed.dependents.Named ∧ Nameless desired.dependents fault := by
  cases before : index observed.dependents with
  | error other =>
    obtain rfl : other = fault := by simpa [between, before] using failed
    exact .inl (nameless_of_index before)
  | ok indexed =>
    cases after : index desired.dependents with
    | error other =>
      obtain rfl : other = fault := by simpa [between, before, after] using failed
      exact .inr ⟨(index_eq_ok_iff.1 before).1, nameless_of_index after⟩
    | ok reindexed => simp [between, before, after] at failed

/-- **Classification.** There is no plan exactly when a dependent of one of the states has no name,
and such a one is reported. Otherwise the plan says what there is to say of the two states, with no
reference listed twice. -/
theorem between_classifies (observed desired : State) :
    ((∃ fault, between observed desired = .error fault) ↔
      ∃ s ∈ [observed, desired], ∃ e ∈ s.dependents.entries, ∃ o ∈ e.2, o.name = none) ∧
    (∀ fault, between observed desired = .error fault → Nameless observed.dependents fault ∨
      observed.dependents.Named ∧ Nameless desired.dependents fault) ∧
    ∀ p, between observed desired = .ok p → p.Classifies observed desired ∧
      (p.created ++ p.updated.map Change.target ++ p.deleted).Nodup := by
  refine ⟨?_, fun _ => nameless_of_between, fun p planned => ?_⟩
  · have fails : (∃ fault, between observed desired = .error fault) ↔
        ¬ ∃ p, between observed desired = .ok p := by
      cases between observed desired <;> simp
    have nameless (deps : Dependents) :
        ¬ deps.Named ↔ ∃ e ∈ deps.entries, ∃ o ∈ e.2, o.name = none := by
      simp [Dependents.Named, ← Option.ne_none_iff_exists']
    rw [fails, exists_between_iff, Classical.not_and_iff_not_or_not, nameless, nameless]
    simp only [List.mem_cons, List.not_mem_nil, or_false, exists_eq_or_imp, exists_eq_left]
  · have classifies := classifies_of_between planned
    exact ⟨classifies, classifies.nodup⟩

end Plan

/-! ## ConfigMaps -/

/-- A ConfigMap with a text in it. -/
def Object.configMap (inNamespace : Option String) (name text : String) : Object :=
  { Object.blank with
    apiVersion := "v1"
    kind := "ConfigMap"
    metadata := some { Metadata.blank with name := some name, inNamespace := inNamespace }
    extra := SortedMap.empty.insert "data" (.string text) }

/-- A parent in a namespace, with these ConfigMaps. -/
def State.ofConfigMaps (objects : List Object) : State :=
  { State.blank with
    object := { Object.blank with
      metadata := some { Metadata.blank with name := some "p", inNamespace := some "ns" } }
    dependents := SortedMap.empty.insert ⟨"configmap.v1"⟩ objects }

theorem State.objects_ofConfigMaps (objects : List Object) (key : ResourceKey) :
    (ofConfigMaps objects).dependents.objects key =
      if key = ⟨"configmap.v1"⟩ then objects else [] := by
  rw [Dependents.objects, ofConfigMaps, SortedMap.get?_insert]
  split <;> rfl

namespace Plan

open Object (configMap)

/-- Of two ConfigMaps with one name the last counts, and no namespace comes first. One without a
name is reported. -/
theorem between_classifies_config_maps :
    let observed : State := .ofConfigMaps
      [configMap (some "ns") "b" "1", configMap none "b" "1", configMap (some "ns") "a" "1",
        configMap (some "ns") "a" "2"]
    let desired : State := .ofConfigMaps
      [configMap (some "ns") "c" "1", configMap (some "ns") "a" "1", configMap none "c" "1"]
    let p : Plan :=
      { parent := none
        created := [⟨⟨"configmap.v1"⟩, none, "c"⟩, ⟨⟨"configmap.v1"⟩, some "ns", "c"⟩]
        updated := [⟨⟨⟨"configmap.v1"⟩, some "ns", "a"⟩, ⟨0, 1, 0⟩⟩]
        deleted := [⟨⟨"configmap.v1"⟩, none, "b"⟩, ⟨⟨"configmap.v1"⟩, some "ns", "b"⟩] }
    let incomplete : State := .ofConfigMaps [configMap none "a" "1", .blank]
    let fault : Fault := .missingField "dependents[configmap.v1][1].metadata.name"
    (between observed desired = .ok p ∧ p.Classifies observed desired ∧
      (p.created ++ p.updated.map Change.target ++ p.deleted).Nodup) ∧
    between observed incomplete = .error fault ∧ (Nameless observed.dependents fault ∨
      observed.dependents.Named ∧ Nameless incomplete.dependents fault) := by
  intro observed desired p incomplete fault
  have planned : between observed desired = .ok p := rfl
  have failed : between observed incomplete = .error fault := rfl
  exact ⟨⟨planned, (between_classifies observed desired).2.2 p planned⟩, failed,
    (between_classifies observed incomplete).2.1 fault failed⟩

end Plan

end ControllerHooks
