import ControllerHooks.Proofs.Entries
import ControllerHooks.Proofs.Outcome
import ControllerHooks.Reconcile.Plan

/-!
# What a reference is to

Dependents of one type are told apart by their namespace and name. Several may have the same; then
the last one counts.

* `Dependents.referred`: the dependent that a reference is to.
* `Plan.index_eq_ok_iff`, `Plan.get?_index`: dependents that all have names are indexed by what the
  references are to; `Plan.nameless_of_index`: otherwise one without a name is reported.
* `ObjectRef.before_iff`: the order of the references in an index.
-/

namespace ControllerHooks

theorem mapM_eq_error {ε α β : Type} {f : α → Except ε β} {xs : List α} {e : ε}
    (h : xs.mapM f = .error e) : ∃ x ∈ xs, f x = .error e := by
  induction xs with
  | nil => cases h
  | cons x rest ih =>
    cases first : f x with
    | error other =>
      obtain rfl : other = e := by simpa [List.mapM_cons, first] using h
      exact ⟨x, List.mem_cons_self, first⟩
    | ok y =>
      cases later : rest.mapM f with
      | error other =>
        obtain rfl : other = e := by simpa [List.mapM_cons, first, later] using h
        obtain ⟨x, member, fails⟩ := ih later
        exact ⟨x, List.mem_cons_of_mem _ member, fails⟩
      | ok ys => simp [List.mapM_cons, first, later] at h

namespace Object

/-- The reference to a dependent that stands under a key. -/
def ref (key : ResourceKey) (o : Object) : ObjectRef := ⟨key, o.inNamespace, o.name.getD ""⟩

end Object

namespace ObjectRef

/-- Whether a dependent under the key of the reference is of that namespace and name. -/
def names (ref : ObjectRef) (o : Object) : Bool :=
  o.inNamespace = ref.inNamespace ∧ o.name = some ref.name

/-- The order of keys, then of namespaces, of which none comes first, then of names. -/
inductive Before (a b : ObjectRef) : Prop
  | key : a.key.text < b.key.text → Before a b
  | inNamespace : a.key = b.key → a.inNamespace < b.inNamespace → Before a b
  | name : a.key = b.key → a.inNamespace = b.inNamespace → a.name < b.name → Before a b

theorem compare_eq_lt_iff {s t : String} : compare s t = .lt ↔ s < t := compareOfLessAndEq_eq_lt

theorem compare_eq_lt_iff_of_option {s t : Option String} : compare s t = .lt ↔ s < t := by
  cases s with
  | none => cases t <;> simp [compare]
  | some s =>
    cases t with
    | none => simp [compare]
    | some t => exact compare_eq_lt_iff.trans Option.some_lt_some.symm

/-- References come in the order of an index. -/
theorem before_iff {a b : ObjectRef} : compare a b = .lt ↔ Before a b := by
  have parts : compare a b = .lt ↔ compare a.key.text b.key.text = .lt ∨
      compare a.key b.key = .eq ∧ (compare a.inNamespace b.inNamespace = .lt ∨
        compare a.inNamespace b.inNamespace = .eq ∧ compare a.name b.name = .lt) := by
    have whole : compare a b = (compare a.key b.key).then
        ((compare a.inNamespace b.inNamespace).then (compare a.name b.name)) := rfl
    rw [whole, Ordering.then_eq_lt, Ordering.then_eq_lt]
    rfl
  rw [parts, compare_eq_lt_iff, compare_eq_lt_iff, compare_eq_lt_iff_of_option,
    Std.LawfulEqOrd.compare_eq_iff_eq, Std.LawfulEqOrd.compare_eq_iff_eq]
  constructor
  · rintro (key | ⟨key, ns | ⟨ns, name⟩⟩)
    · exact .key key
    · exact .inNamespace key ns
    · exact .name key ns name
  · rintro (key | ⟨key, ns⟩ | ⟨key, ns, name⟩)
    · exact .inl key
    · exact .inr ⟨key, .inl ns⟩
    · exact .inr ⟨key, .inr ⟨ns, name⟩⟩

end ObjectRef

namespace Dependents

/-- Every dependent has a name. -/
def Named (deps : Dependents) : Prop :=
  ∀ e ∈ deps.entries, ∀ o ∈ e.2, ∃ name, o.name = some name

/-- The last dependent that a reference is to. -/
def referred (deps : Dependents) (ref : ObjectRef) : Option Object :=
  (deps.objects ref.key).findRev? ref.names

end Dependents

namespace Plan

/-! ## The index -/

theorem refOf_eq_ok_iff {key : ResourceKey} {i : Nat} {o : Object} {ref : ObjectRef} :
    refOf key i o = .ok ref ↔ (∃ name, o.name = some name) ∧ ref = o.ref key := by
  cases named : o.name with
  | none => simp [refOf, named]
  | some name => simp [refOf, named, Object.ref, eq_comm]

theorem refsFrom_eq_ok_iff {key : ResourceKey} {i : Nat} {objects : List Object}
    {refs : List (ObjectRef × Object)} :
    refsFrom key i objects = .ok refs ↔ (∀ o ∈ objects, ∃ name, o.name = some name) ∧
      refs = objects.map fun o => (o.ref key, o) := by
  induction objects generalizing i refs with
  | nil => simp [refsFrom, eq_comm]
  | cons o rest ih =>
    simp only [refsFrom, bind_eq_ok, refOf_eq_ok_iff, ih, pure_eq_ok_value, Except.ok.injEq,
      List.forall_mem_cons, List.map_cons]
    constructor
    · rintro ⟨_, ⟨named, rfl⟩, _, ⟨others, rfl⟩, rfl⟩
      exact ⟨⟨named, others⟩, rfl⟩
    · rintro ⟨⟨named, others⟩, rfl⟩
      exact ⟨_, ⟨named, rfl⟩, _, ⟨others, rfl⟩, rfl⟩

/-- The dependents with their references, in the order of their keys and then as they stand. -/
def referenced (entries : List (ResourceKey × List Object)) : List (ObjectRef × Object) :=
  entries.flatMap fun e => e.2.map fun o => (o.ref e.1, o)

theorem mapM_refsFrom_eq_ok_iff {entries : List (ResourceKey × List Object)}
    {groups : List (List (ObjectRef × Object))} :
    entries.mapM (fun e => refsFrom e.1 0 e.2) = .ok groups ↔
      (∀ e ∈ entries, ∀ o ∈ e.2, ∃ name, o.name = some name) ∧
        groups = entries.map fun e => e.2.map fun o => (o.ref e.1, o) := by
  induction entries generalizing groups with
  | nil => simp [eq_comm]
  | cons e rest ih =>
    simp only [mapM_eq_ok_cons, refsFrom_eq_ok_iff, ih, List.forall_mem_cons, List.map_cons]
    constructor
    · rintro ⟨_, _, ⟨named, rfl⟩, ⟨others, rfl⟩, rfl⟩
      exact ⟨⟨named, others⟩, rfl⟩
    · rintro ⟨⟨named, others⟩, rfl⟩
      exact ⟨_, _, ⟨named, rfl⟩, ⟨others, rfl⟩, rfl⟩

/-- An index is made where every dependent has a name. -/
theorem index_eq_ok_iff {deps : Dependents} {m : SortedMap ObjectRef Object} :
    index deps = .ok m ↔ deps.Named ∧ m = .ofList (referenced deps.entries) := by
  simp only [index, bind_eq_ok, mapM_refsFrom_eq_ok_iff, pure_eq_ok_value, Except.ok.injEq]
  constructor
  · rintro ⟨_, ⟨named, rfl⟩, rfl⟩
    exact ⟨named, rfl⟩
  · rintro ⟨named, rfl⟩
    exact ⟨_, ⟨named, rfl⟩, rfl⟩

/-- A dependent without a name, and the fault that tells where it stands. -/
def Nameless (deps : Dependents) (fault : Fault) : Prop :=
  ∃ (key : ResourceKey) (i : Nat) (o : Object),
    (deps.objects key)[i]? = some o ∧ o.name = none ∧
      fault = .missingField s!"dependents[{key.text}][{i}].metadata.name"

theorem refsFrom_eq_error {key : ResourceKey} {i : Nat} {objects : List Object} {fault : Fault}
    (h : refsFrom key i objects = .error fault) :
    ∃ j o, objects[j]? = some o ∧ o.name = none ∧
      fault = .missingField s!"dependents[{key.text}][{i + j}].metadata.name" := by
  induction objects generalizing i with
  | nil => cases h
  | cons o rest ih =>
    cases named : o.name with
    | none =>
      have here : refOf key i o = .error fault := by
        cases first : refOf key i o with
        | error other => simpa [refsFrom, first] using h
        | ok ref => simp [refOf, named] at first
      refine ⟨0, o, rfl, named, ?_⟩
      simpa [refOf, named, eq_comm] using here
    | some name =>
      have later : refsFrom key (i + 1) rest = .error fault := by
        cases tail : refsFrom key (i + 1) rest with
        | error other => simpa [refsFrom, refOf, named, tail] using h
        | ok refs => simp [refsFrom, refOf, named, tail] at h
      obtain ⟨j, found, stands, none, same⟩ := ih later
      refine ⟨j + 1, found, stands, none, ?_⟩
      rw [same, Nat.add_assoc, Nat.add_comm 1 j]

/-- Where no index is made, a dependent without a name is reported. -/
theorem nameless_of_index {deps : Dependents} {fault : Fault} (h : index deps = .error fault) :
    Nameless deps fault := by
  have groups : deps.entries.mapM (fun e => refsFrom e.1 0 e.2) = .error fault := by
    cases read : deps.entries.mapM (fun e => refsFrom e.1 0 e.2) with
    | error other => simpa [index, read] using h
    | ok groups => simp [index, read] at h
  obtain ⟨e, he, refs⟩ := mapM_eq_error groups
  obtain ⟨j, o, stands, none, rfl⟩ := refsFrom_eq_error refs
  have found : deps.objects e.1 = e.2 := by
    rw [Dependents.objects, SortedMap.get?, deps.sorted.find?_eq he, Option.getD_some]
  refine ⟨e.1, j, o, found ▸ stands, none, ?_⟩
  rw [Nat.zero_add]

/-- Under one key a reference is to the last object that it names. -/
theorem find?_refs {ref : ObjectRef} {objects : List Object}
    (named : ∀ o ∈ objects, ∃ name, o.name = some name) :
    Entries.find? ref (objects.map fun o => (o.ref ref.key, o)).reverse =
      objects.findRev? ref.names := by
  rw [List.findRev?_eq_find?_reverse, ← List.map_reverse]
  have named : ∀ o ∈ objects.reverse, ∃ name, o.name = some name := by simpa using named
  generalize objects.reverse = objects at named
  induction objects with
  | nil => rfl
  | cons o rest ih =>
    obtain ⟨⟨name, here⟩, later⟩ := List.forall_mem_cons.1 named
    have same : o.ref ref.key = ref ↔ ref.names o = true := by
      cases ref
      simp [Object.ref, ObjectRef.names, here]
    by_cases it : ref.names o = true
    · simp [Entries.find?, same.2 it, it]
    · simp [Entries.find?, mt same.1 it, it, ih later]

theorem find?_referenced {ref : ObjectRef} {entries : List (ResourceKey × List Object)}
    (sorted : Entries.Sorted entries)
    (named : ∀ e ∈ entries, ∀ o ∈ e.2, ∃ name, o.name = some name) :
    Entries.find? ref (referenced entries).reverse =
      ((Entries.find? ref.key entries).getD []).findRev? ref.names := by
  induction entries with
  | nil => rfl
  | cons e rest ih =>
    obtain ⟨key, objects⟩ := e
    obtain ⟨above, sorted⟩ := List.pairwise_cons.1 sorted
    obtain ⟨head, tail⟩ := List.forall_mem_cons.1 named
    have whole : (referenced ((key, objects) :: rest)).reverse =
        (referenced rest).reverse ++ (objects.map fun o => (o.ref key, o)).reverse := by
      simp [referenced]
    rw [whole, Entries.find?_append, ih sorted tail]
    by_cases here : key = ref.key
    · subst here
      have once : Entries.find? ref.key rest = none := by
        apply Entries.find?_eq_none_iff.2
        intro e he same
        simpa [same] using above e he
      simp [once, Entries.find?, find?_refs head]
    · have none : Entries.find? ref (objects.map fun o => (o.ref key, o)).reverse = none := by
        apply Entries.find?_eq_none_iff.2
        intro e he same
        obtain ⟨o, _, rfl⟩ := List.mem_map.1 (List.mem_reverse.1 he)
        exact here (congrArg ObjectRef.key same)
      simp [none, Entries.find?, here]

/-- An index holds under each reference what the reference is to. -/
theorem get?_index {deps : Dependents} {m : SortedMap ObjectRef Object}
    (h : index deps = .ok m) (ref : ObjectRef) : m.get? ref = deps.referred ref := by
  obtain ⟨named, rfl⟩ := index_eq_ok_iff.1 h
  exact (Entries.find?_ofList ref _).trans (find?_referenced deps.sorted named)

end Plan

end ControllerHooks
