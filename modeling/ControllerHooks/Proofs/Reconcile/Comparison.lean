import ControllerHooks.Proofs.Patch.Objects
import ControllerHooks.Proofs.Patch.Reversal
import ControllerHooks.Proofs.Reconcile.Classification

/-!
# Comparing two states

* `Plan.between_isNoop_iff`: what it means that a plan is empty. A dependent goes unnoticed only
  behind a later one with its namespace and name.
* `Plan.between_reversed`: the plan of the way back.
-/

namespace ControllerHooks

namespace Object

@[simp] theorem settled_name (o : Object) : o.settled.name = o.name := by
  cases named : o.metadata <;> simp [name, settled, named, Metadata.settled]

@[simp] theorem settled_inNamespace (o : Object) : o.settled.inNamespace = o.inNamespace := by
  cases named : o.metadata <;> simp [inNamespace, settled, named, Metadata.settled]

/-- The same objects, in whatever order. -/
def Reordered (xs ys : List Object) : Prop := (xs.map settled).Perm (ys.map settled)

end Object

@[simp] theorem ObjectRef.names_settled (ref : ObjectRef) (o : Object) :
    ref.names o.settled = ref.names o := by
  simp [names]

namespace Dependents

variable {deps these those : Dependents} {ref : ObjectRef} {o : Object}

/-- Every reference is to the same object, or to none. -/
def SameReferred (these those : Dependents) : Prop :=
  ∀ ref, (these.referred ref).map Object.settled = (those.referred ref).map Object.settled

/-- No two dependents of a type have the same namespace and name. -/
def Distinct (deps : Dependents) : Prop :=
  ∀ key, ((deps.objects key).map fun o => (o.inNamespace, o.name)).Nodup

theorem mem_of_referred (h : deps.referred ref = some o) :
    o ∈ deps.objects ref.key ∧ ref.names o = true := by
  rw [referred, List.findRev?_eq_find?_reverse] at h
  exact ⟨List.mem_reverse.1 (List.mem_of_find?_eq_some h), List.find?_some h⟩

theorem exists_mem_entries {key : ResourceKey} (h : o ∈ deps.objects key) :
    ∃ e ∈ deps.entries, o ∈ e.2 := by
  cases found : deps.get? key with
  | none => simp [objects, found] at h
  | some objects =>
    refine ⟨(key, objects), SortedMap.mem_entries_iff.2 found, ?_⟩
    simpa [Dependents.objects, found] using h

/-- The last object that is named is the only one. -/
theorem Distinct.referred_eq_some_iff (distinct : deps.Distinct) :
    deps.referred ref = some o ↔ o ∈ deps.objects ref.key ∧ ref.names o = true := by
  refine ⟨mem_of_referred, fun ⟨member, named⟩ => ?_⟩
  cases found : deps.referred ref with
  | none =>
    rw [referred, List.findRev?_eq_find?_reverse, List.find?_eq_none] at found
    exact absurd named (found o (List.mem_reverse.2 member))
  | some last =>
    obtain ⟨other, also⟩ := mem_of_referred found
    have same : (last.inNamespace, last.name) = (o.inNamespace, o.name) := by
      simp only [ObjectRef.names, decide_eq_true_eq] at named also
      rw [named.1, named.2, also.1, also.2]
    rw [List.inj_on_of_nodup_map (distinct ref.key) other member same]

theorem Distinct.referred_settled_iff (distinct : deps.Distinct) :
    (deps.referred ref).map Object.settled = some o ↔
      o ∈ (deps.objects ref.key).map Object.settled ∧ ref.names o = true := by
  simp only [Option.map_eq_some_iff, distinct.referred_eq_some_iff, List.mem_map]
  constructor
  · rintro ⟨found, ⟨member, named⟩, rfl⟩
    exact ⟨⟨found, member, rfl⟩, by rwa [ObjectRef.names_settled]⟩
  · rintro ⟨⟨found, member, rfl⟩, named⟩
    exact ⟨found, ⟨member, by rwa [ObjectRef.names_settled] at named⟩, rfl⟩

theorem Distinct.nodup_settled (distinct : deps.Distinct) (key : ResourceKey) :
    ((deps.objects key).map Object.settled).Nodup := by
  apply List.Nodup.of_map fun o => (o.inNamespace, o.name)
  simpa [Function.comp_def] using distinct key

theorem Named.of_settled (named : deps.Named) {key : ResourceKey}
    (h : o ∈ (deps.objects key).map Object.settled) : ∃ name, o.name = some name := by
  obtain ⟨found, member, rfl⟩ := List.mem_map.1 h
  obtain ⟨e, he, inside⟩ := exists_mem_entries member
  simpa using named e he found inside

/-- Where references tell the objects of each list apart, they see every one of them. -/
theorem sameReferred_iff (named : these.Named) (also : those.Named) (distinct : these.Distinct)
    (apart : those.Distinct) : these.SameReferred those ↔
      ∀ key, Object.Reordered (these.objects key) (those.objects key) := by
  constructor
  · intro same key
    refine (List.perm_ext_iff_of_nodup (distinct.nodup_settled key)
      (apart.nodup_settled key)).2 fun o => ?_
    have seen {name : String} (here : o.name = some name) :
        o ∈ (these.objects key).map Object.settled ↔
          o ∈ (those.objects key).map Object.settled := by
      obtain ⟨ref, rfl, it⟩ : ∃ ref : ObjectRef, ref.key = key ∧ ref.names o = true :=
        ⟨⟨key, o.inNamespace, name⟩, rfl, by simp [ObjectRef.names, here]⟩
      calc o ∈ (these.objects ref.key).map Object.settled
        _ ↔ (these.referred ref).map Object.settled = some o := by
          rw [distinct.referred_settled_iff, and_iff_left it]
        _ ↔ (those.referred ref).map Object.settled = some o := by rw [same]
        _ ↔ o ∈ (those.objects ref.key).map Object.settled := by
          rw [apart.referred_settled_iff, and_iff_left it]
    constructor
    · intro member
      obtain ⟨name, here⟩ := named.of_settled member
      exact (seen here).1 member
    · intro member
      obtain ⟨name, here⟩ := also.of_settled member
      exact (seen here).2 member
  · intro same ref
    refine Option.ext fun o => ?_
    rw [distinct.referred_settled_iff, apart.referred_settled_iff, (same ref.key).mem_iff]

theorem distinct_ofConfigMaps {objects : List Object}
    (h : (objects.map fun o => (o.inNamespace, o.name)).Nodup) :
    (State.ofConfigMaps objects).dependents.Distinct := by
  intro key
  rw [State.objects_ofConfigMaps]
  split
  · exact h
  · exact .nil

end Dependents

theorem Object.reordered_ofConfigMaps {xs ys : List Object} (h : xs.Perm ys) (key : ResourceKey) :
    Reordered ((State.ofConfigMaps xs).dependents.objects key)
      ((State.ofConfigMaps ys).dependents.objects key) := by
  rw [State.objects_ofConfigMaps, State.objects_ofConfigMaps]
  split
  · exact h.map _
  · exact .nil

/-! ## Empty plans -/

namespace Plan

variable {observed desired : State} {p : Plan}

theorem isNoop_eq_true_iff : p.isNoop = true ↔
    p.parent = none ∧ p.created = [] ∧ p.updated = [] ∧ p.deleted = [] := by
  simp [isNoop, and_assoc]

namespace Classifies

theorem parent_eq_none_iff (h : p.Classifies observed desired) :
    p.parent = none ↔ observed.object.same desired.object = true := by
  rw [Option.eq_none_iff_forall_ne_some]
  simp [h.parent]

/-- An empty plan says of every reference that it is to the same in both states. -/
theorem isNoop_iff (h : p.Classifies observed desired) :
    p.isNoop = true ↔ observed.object.same desired.object = true ∧
      observed.dependents.SameReferred desired.dependents := by
  rw [isNoop_eq_true_iff, h.parent_eq_none_iff]
  refine and_congr_right fun _ => ?_
  simp only [List.eq_nil_iff_forall_not_mem, h.created, h.deleted, h.updated]
  constructor
  · rintro ⟨created, updated, deleted⟩ ref
    cases before : observed.dependents.referred ref with
    | none =>
      cases after : desired.dependents.referred ref with
      | none => rfl
      | some new => exact absurd ⟨before, new, after⟩ (created ref)
    | some old =>
      cases after : desired.dependents.referred ref with
      | none => exact absurd ⟨after, old, before⟩ (deleted ref)
      | some new =>
        have same : old.same new = true := by
          by_contra differs
          exact updated ⟨ref, .between old.toValue new.toValue⟩
            ⟨old, new, before, after, eq_false_of_ne_true differs, rfl⟩
        exact congrArg some (Object.same_iff.1 same)
  · intro same
    refine ⟨?_, ?_, ?_⟩
    · rintro ref ⟨before, new, after⟩
      simpa [before, after] using same ref
    · rintro change ⟨old, new, before, after, differs, _⟩
      have settled : old.settled = new.settled := by simpa [before, after] using same change.target
      exact absurd (Object.same_iff.2 settled) (ne_true_of_eq_false differs)
    · rintro ref ⟨after, old, before⟩
      simpa [before, after] using same ref

end Classifies

/-- **Empty plans.** A plan is empty exactly when the parents are equal and every reference is to
the same object in both states. Where references tell the dependents of each state apart, that
means the same dependents under every key, in whatever order. -/
theorem between_isNoop_iff (planned : between observed desired = .ok p) :
    (p.isNoop = true ↔ observed.object.same desired.object = true ∧
      observed.dependents.SameReferred desired.dependents) ∧
    (observed.dependents.Distinct → desired.dependents.Distinct →
      (p.isNoop = true ↔ observed.object.same desired.object = true ∧
        ∀ key, Object.Reordered (observed.dependents.objects key)
          (desired.dependents.objects key))) := by
  have noop := (classifies_of_between planned).isNoop_iff
  obtain ⟨named, also⟩ := exists_between_iff.1 ⟨p, planned⟩
  refine ⟨noop, fun distinct apart => ?_⟩
  rw [noop, Dependents.sameReferred_iff named also distinct apart]

open Object (configMap)

/-- Three ConfigMaps in another order, of which no two have one name in one namespace. -/
theorem between_isNoop_iff_of_config_maps :
    let observed : State := .ofConfigMaps
      [configMap (some "ns") "a" "1", configMap none "a" "2", configMap (some "ns") "b" "1"]
    let desired : State := .ofConfigMaps
      [configMap (some "ns") "b" "1", configMap (some "ns") "a" "1", configMap none "a" "2"]
    let p : Plan := ⟨none, [], [], []⟩
    between observed desired = .ok p ∧ observed.dependents.Distinct ∧
      desired.dependents.Distinct ∧ observed.object.same desired.object = true ∧
      observed.dependents.SameReferred desired.dependents ∧
      ∀ key, Object.Reordered (observed.dependents.objects key)
        (desired.dependents.objects key) := by
  intro observed desired p
  have planned : between observed desired = .ok p := rfl
  have distinct : observed.dependents.Distinct := Dependents.distinct_ofConfigMaps (by decide)
  have apart : desired.dependents.Distinct := Dependents.distinct_ofConfigMaps (by decide)
  have noop := between_isNoop_iff planned
  exact ⟨planned, distinct, apart, (noop.1.1 rfl).1, (noop.1.1 rfl).2,
    ((noop.2 distinct apart).1 rfl).2⟩

/-- The declaration of ConfigMaps, of which there may be many. -/
def configMaps : DependentDecl := ResourceType.declare ⟨"", "v1", "ConfigMap"⟩ .many

/-- Two ConfigMaps with one name pass both checks of a pass. One of them may vanish unnoticed, and
their order counts. -/
theorem isNoop_of_repeated_config_maps :
    let once : State := .ofConfigMaps [configMap (some "ns") "a" "2"]
    let twice : State := .ofConfigMaps
      [configMap (some "ns") "a" "1", configMap (some "ns") "a" "2"]
    let turned : State := .ofConfigMaps
      [configMap (some "ns") "a" "2", configMap (some "ns") "a" "1"]
    twice.dependents.check [configMaps] = .ok () ∧
    (twice.checkTransition once [configMaps] = .ok () ∧
      (∃ p, between twice once = .ok p ∧ p.isNoop = true) ∧
      ¬ ∀ key, Object.Reordered (twice.dependents.objects key) (once.dependents.objects key)) ∧
    (twice.checkTransition turned [configMaps] = .ok () ∧
      (∃ p, between twice turned = .ok p ∧ p.isNoop = false) ∧
      twice.object.same turned.object = true ∧
      ∀ key, Object.Reordered (twice.dependents.objects key) (turned.dependents.objects key)) := by
  intro once twice turned
  refine ⟨rfl, ⟨rfl, ⟨_, rfl, rfl⟩, ?_⟩, rfl, ⟨_, rfl, rfl⟩, rfl, ?_⟩
  · intro same
    have length := (same ⟨"configmap.v1"⟩).length_eq
    cases length
  · exact Object.reordered_ofConfigMaps (.swap _ _ _)

end Plan

/-! ## The way back -/

namespace State

/-- The documents of the parent and of all dependents are ordered, as values in memory are. -/
structure OrderedDocuments (s : State) : Prop where
  object : s.object.toValue.Ordered
  dependents : ∀ e ∈ s.dependents.entries, ∀ o ∈ e.2, o.toValue.Ordered

theorem Ordered.documents {s : State} (h : s.Ordered) : s.OrderedDocuments :=
  ⟨Object.toValue_ordered h.object, fun e he o ho => Object.toValue_ordered (h.dependents e he o ho)⟩

theorem OrderedDocuments.referred {s : State} (h : s.OrderedDocuments) {ref : ObjectRef}
    {o : Object} (found : s.dependents.referred ref = some o) : o.toValue.Ordered := by
  obtain ⟨e, he, inside⟩ := Dependents.exists_mem_entries (Dependents.mem_of_referred found).1
  exact h.dependents e he o inside

end State

/-- A change of the way back. -/
def Change.swap (c : Change) : Change := ⟨c.target, c.summary.swap⟩

theorem Object.same_comm (a b : Object) : a.same b = b.same a := by
  rw [Bool.eq_iff_iff, same_iff, same_iff]
  exact eq_comm

namespace Plan

variable {a b : State} {p : Plan}

/-- The plan of the way back. -/
def swap (p : Plan) : Plan :=
  ⟨p.parent.map .swap, p.deleted, p.updated.map .swap, p.created⟩

theorem Classifies.swap (h : p.Classifies a b) (ha : a.OrderedDocuments)
    (hb : b.OrderedDocuments) : p.swap.Classifies b a where
  parent counts := by
    have back := DiffSummary.between_swap ha.object hb.object
    simp only [Plan.swap, Option.map_eq_some_iff, h.parent, Object.same_comm b.object]
    constructor
    · rintro ⟨_, ⟨differs, rfl⟩, rfl⟩
      exact ⟨differs, back.symm⟩
    · rintro ⟨differs, rfl⟩
      exact ⟨_, ⟨differs, rfl⟩, back.symm⟩
  created := h.deleted
  updated change := by
    simp only [Plan.swap, List.mem_map, h.updated]
    constructor
    · rintro ⟨_, ⟨old, new, before, after, differs, counts⟩, rfl⟩
      refine ⟨new, old, after, before, by rwa [Object.same_comm], ?_⟩
      rw [DiffSummary.between_swap (ha.referred before) (hb.referred after), ← counts]
      rfl
    · rintro ⟨new, old, after, before, differs, counts⟩
      refine ⟨⟨change.target, .between old.toValue new.toValue⟩,
        ⟨old, new, before, after, by rwa [Object.same_comm], rfl⟩, ?_⟩
      rw [Change.swap, ← DiffSummary.between_swap (ha.referred before) (hb.referred after),
        ← counts]
  deleted := h.created
  created_increasing := h.deleted_increasing
  updated_increasing := by
    have targets : (p.updated.map Change.swap).map Change.target = p.updated.map Change.target := by
      simp [Change.swap]
    rw [Plan.swap, targets]
    exact h.updated_increasing
  deleted_increasing := h.created_increasing

/-- **Duality.** There is a plan one way exactly when there is one the other way. What is created
one way is deleted the other way, the same is updated, and in every summary what was added is
removed. -/
theorem between_reversed (ha : a.OrderedDocuments) (hb : b.OrderedDocuments) :
    ((∃ p, between a b = .ok p) ↔ ∃ q, between b a = .ok q) ∧
      ∀ p, between a b = .ok p → between b a = .ok p.swap := by
  have both : (∃ p, between a b = .ok p) ↔ ∃ q, between b a = .ok q := by
    rw [exists_between_iff, exists_between_iff]
    exact and_comm
  refine ⟨both, fun p planned => ?_⟩
  obtain ⟨q, back⟩ := both.1 ⟨p, planned⟩
  have same := ((classifies_of_between planned).swap ha hb).unique (classifies_of_between back)
  rw [back, same]

end Plan

theorem Object.configMap_ordered (inNamespace : Option String) (name text : String) :
    (configMap inNamespace name text).Ordered where
  metadata := by
    rintro m ⟨⟩
    simp [Metadata.Ordered, Metadata.blank]
  spec := by simp [configMap, blank]
  status := by simp [configMap, blank]
  extra := by
    have one : (configMap inNamespace name text).extra.entries = [("data", .string text)] := rfl
    rw [one, List.forall_mem_singleton]
    exact ⟨rfl, .string text⟩

theorem State.ordered_ofConfigMaps {objects : List Object} (h : ∀ o ∈ objects, o.Ordered) :
    (ofConfigMaps objects).Ordered where
  object :=
    { metadata := by
        rintro m ⟨⟩
        simp [Metadata.Ordered, Metadata.blank]
      spec := Object.ordered_blank.spec
      status := Object.ordered_blank.status
      extra := Object.ordered_blank.extra }
  dependents := by
    have one : (ofConfigMaps objects).dependents.entries = [(⟨"configmap.v1"⟩, objects)] := rfl
    rw [Dependents.Ordered, one, List.forall_mem_singleton]
    exact h

namespace Plan

open Object (configMap)

/-- One ConfigMap differs, one is new, and so is the status of the parent. -/
theorem between_reversed_of_config_maps :
    let a : State := .ofConfigMaps [configMap (some "ns") "a" "1", configMap (some "ns") "b" "1"]
    let whole : State := .ofConfigMaps
      [configMap (some "ns") "c" "1", configMap (some "ns") "a" "2", configMap none "b" "1"]
    let b : State := { whole with
      object := { whole.object with status := some (.object [("healthyReplicas", .ofInt 2)]) } }
    let p : Plan :=
      { parent := some ⟨1, 0, 0⟩
        created := [⟨⟨"configmap.v1"⟩, none, "b"⟩, ⟨⟨"configmap.v1"⟩, some "ns", "c"⟩]
        updated := [⟨⟨⟨"configmap.v1"⟩, some "ns", "a"⟩, ⟨0, 1, 0⟩⟩]
        deleted := [⟨⟨"configmap.v1"⟩, some "ns", "b"⟩] }
    a.OrderedDocuments ∧ b.OrderedDocuments ∧ between a b = .ok p ∧ between b a = .ok p.swap := by
  intro a whole b p
  have before : a.Ordered := State.ordered_ofConfigMaps (by simp [Object.configMap_ordered])
  have after : whole.Ordered := State.ordered_ofConfigMaps (by simp [Object.configMap_ordered])
  have status : (Json.object [("healthyReplicas", .ofInt 2)]).Ordered :=
    Json.ordered_insert (.object .nil (by simp)) (.number _)
  have ha : a.OrderedDocuments := before.documents
  have hb : b.OrderedDocuments := State.Ordered.documents
    ⟨{ after.object with status := by rintro _ ⟨⟩; exact status }, after.dependents⟩
  have planned : between a b = .ok p := rfl
  exact ⟨ha, hb, planned, (between_reversed ha hb).2 p planned⟩

end Plan

end ControllerHooks
