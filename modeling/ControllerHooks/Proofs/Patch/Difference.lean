import ControllerHooks.Patch.Diff
import ControllerHooks.Proofs.Json.Ordered

/-!
# Differences of ordered values

* `Json.diffAt_eq_nil_iff`: there is nothing to do exactly between values that are the same.
* `Json.diffAt_insertAll`, `Json.diffAt_setChild`: where members or a child are set, the difference
  is that of these members, or of this child.
* `Patch.Writes`: a patch that only adds and replaces, and how `DiffSummary.ofPatch` counts it.
-/

namespace ControllerHooks

namespace Json

theorem settledMembers_eq_map (members : List (String × Json)) :
    settledMembers members = members.map fun m => (m.1, m.2.settled) := by
  induction members with
  | nil => rfl
  | cons m rest ih => simp [settledMembers, ih]

theorem same_iff {a b : Json} : a.same b = true ↔ a.settled = b.settled := decide_eq_true_iff

theorem sorted_settledMembers {members : List (String × Json)} (h : Entries.Sorted members) :
    Entries.Sorted (settledMembers members) := by
  rw [settledMembers_eq_map]
  exact List.pairwise_map.2 h

/-! ## Members -/

/-- What it takes to have one member of the target. -/
def memberDiff (path : List String) (base : List (String × Json)) (m : String × Json) : Patch :=
  match Entries.find? m.1 base with
  | some old => diffAt (path ++ [m.1]) old m.2
  | none => [.add ⟨path ++ [m.1]⟩ m.2]

theorem diffMembers_eq_flatMap (path : List String) (base target : List (String × Json)) :
    diffMembers path base target = target.flatMap (memberDiff path base) := by
  induction target with
  | nil => rw [diffMembers]; rfl
  | cons m rest ih => rw [diffMembers, ih, List.flatMap_cons]; rfl

theorem missingMembers_eq_nil_iff {path : List String} {base target : List (String × Json)} :
    missingMembers path base target = [] ↔ ∀ m ∈ base, ∃ v, Entries.find? m.1 target = some v := by
  simp [missingMembers, Entries.contains, Option.ne_none_iff_exists']

/-- Objects are the same when each member of either is the same in the other. -/
theorem same_object_iff {base target : List (String × Json)} (h₁ : Entries.Sorted base)
    (h₂ : Entries.Sorted target) :
    (object base).same (object target) = true ↔
      (∀ m ∈ target, ∃ old, Entries.find? m.1 base = some old ∧ old.same m.2 = true) ∧
        ∀ m ∈ base, ∃ v, Entries.find? m.1 target = some v := by
  have found (k : String) (members : List (String × Json)) :
      Entries.find? k (settledMembers members) = (Entries.find? k members).map settled := by
    rw [settledMembers_eq_map, Entries.find?_map]
  simp only [same_iff, settled, Json.object.injEq]
  constructor
  · intro same
    have agree (k : String) : (Entries.find? k base).map settled =
        (Entries.find? k target).map settled := by rw [← found, ← found, same]
    constructor
    · rintro ⟨k, v⟩ hm
      have here := agree k
      rw [h₂.find?_eq hm] at here
      obtain ⟨old, stands, equal⟩ := Option.map_eq_some_iff.1 here
      exact ⟨old, stands, equal⟩
    · rintro ⟨k, v⟩ hm
      have here := agree k
      rw [h₁.find?_eq hm] at here
      obtain ⟨new, stands, _⟩ := Option.map_eq_some_iff.1 here.symm
      exact ⟨new, stands⟩
  · rintro ⟨there, back⟩
    apply (sorted_settledMembers h₁).ext (sorted_settledMembers h₂)
    intro k
    rw [found, found]
    cases new : Entries.find? k target with
    | some v =>
      obtain ⟨old, stands, equal⟩ := there _ (Entries.mem_of_find? new)
      simp [stands, equal]
    | none =>
      cases old : Entries.find? k base with
      | none => rfl
      | some v =>
        obtain ⟨w, stands⟩ := back _ (Entries.mem_of_find? old)
        rw [new] at stands
        cases stands

/-! ## Whole values -/

/-- Unless both are objects or both are arrays, a value is put as a whole. -/
theorem diffAt_of_apart {base target : Json}
    (objects : ∀ b t, ¬ (base = .object b ∧ target = .object t))
    (arrays : ∀ b t, ¬ (base = .array b ∧ target = .array t)) (path : List String) :
    diffAt path base target = if base.same target then [] else [.replace ⟨path⟩ target] := by
  cases target with
  | null | bool | number | string => rw [diffAt] <;> simp
  | object target =>
    cases base with
    | object base => exact absurd ⟨rfl, rfl⟩ (objects base target)
    | number n => cases n <;> simp [diffAt, same_iff, settled]
    | null | bool | string | array => simp [diffAt, same_iff, settled]
  | array target =>
    cases base with
    | array base => exact absurd ⟨rfl, rfl⟩ (arrays base target)
    | number n => cases n <;> simp [diffAt, same_iff, settled]
    | null | bool | string | object => simp [diffAt, same_iff, settled]

/-! ## Nothing to do -/

-- By recursion on the target, as the difference is taken; the base is followed where it has the
-- same shape.
mutual

/-- There is nothing to do exactly between values that are the same. -/
theorem diffAt_eq_nil_iff (path : List String) (base : Json) : (target : Json) →
    base.Ordered → target.Ordered → (diffAt path base target = [] ↔ base.same target = true)
  | .object target, h₁, h₂ => by
    cases base with
    | object base =>
      rw [diffAt, List.append_eq_nil_iff, missingMembers_eq_nil_iff,
        diffMembers_eq_nil_iff path base target h₁.members h₂.members,
        same_object_iff h₁.sorted h₂.sorted]
    | null | bool | number | string | array =>
      rw [diffAt_of_apart (by simp) (by simp)]
      simp
  | .array target, h₁, h₂ => by
    cases base with
    | array base =>
      rw [diffAt, diffItems_eq_nil_iff path 0 base target h₁.items h₂.items, same_iff, settled,
        settled, Json.array.injEq]
    | null | bool | number | string | object =>
      rw [diffAt_of_apart (by simp) (by simp)]
      simp
  | .null, _, _ | .bool _, _, _ | .number _, _, _ | .string _, _, _ => by
    simp [diffAt]

theorem diffMembers_eq_nil_iff (path : List String) (base : List (String × Json)) :
    (target : List (String × Json)) → (∀ m ∈ base, m.2.Ordered) → (∀ m ∈ target, m.2.Ordered) →
    (diffMembers path base target = [] ↔
      ∀ m ∈ target, ∃ old, Entries.find? m.1 base = some old ∧ old.same m.2 = true)
  | [], _, _ => by simp [diffMembers]
  | (k, x) :: rest, h₁, h₂ => by
    obtain ⟨head, tail⟩ := List.forall_mem_cons.1 h₂
    have later := diffMembers_eq_nil_iff path base rest h₁ tail
    simp only [diffMembers, List.append_eq_nil_iff, later, List.forall_mem_cons]
    cases found : Entries.find? k base with
    | none => simp
    | some old =>
      have here := diffAt_eq_nil_iff (path ++ [k]) old x (h₁ _ (Entries.mem_of_find? found)) head
      simp [here]

theorem diffItems_eq_nil_iff (path : List String) (i : Nat) (base : List Json) :
    (target : List Json) → (∀ x ∈ base, x.Ordered) → (∀ x ∈ target, x.Ordered) →
    (diffItems path i base target = [] ↔ settledItems base = settledItems target)
  | [], _, _ => by cases base <;> simp [diffItems, settledItems]
  | x :: rest, h₁, h₂ => by
    cases base with
    | nil => simp [diffItems, settledItems]
    | cons old base =>
      obtain ⟨first, others⟩ := List.forall_mem_cons.1 h₁
      obtain ⟨head, tail⟩ := List.forall_mem_cons.1 h₂
      have here := diffAt_eq_nil_iff (path ++ [toString i]) old x first head
      have later := diffItems_eq_nil_iff path (i + 1) base rest others tail
      simp only [diffItems, settledItems, List.append_eq_nil_iff, here, later, same_iff,
        List.cons.injEq]

end

theorem diffAt_self {v : Json} (h : v.Ordered) (path : List String) : diffAt path v v = [] :=
  (diffAt_eq_nil_iff path v v h h).2 (same_iff.2 rfl)

/-! ## One place, and two -/

/-- Members that were there before need nothing. -/
theorem diffAt_object_perm {members target changed kept : List (String × Json)}
    (ordered : (object members).Ordered) (split : target.Perm (changed ++ kept))
    (still : ∀ m ∈ kept, m ∈ members)
    (covers : ∀ m ∈ members, ∃ v, Entries.find? m.1 target = some v) (path : List String) :
    (diffAt path (object members) (object target)).Perm
      (changed.flatMap (memberDiff path members)) := by
  have quiet : kept.flatMap (memberDiff path members) = [] := by
    apply List.flatMap_eq_nil_iff.2
    intro m hm
    have inside := still m hm
    rw [memberDiff, ordered.sorted.find?_eq inside]
    exact diffAt_self (ordered.members m inside) _
  have missing : missingMembers path members target = [] := missingMembers_eq_nil_iff.2 covers
  rw [diffAt, missing, List.append_nil, diffMembers_eq_flatMap]
  have whole := split.flatMap_right (memberDiff path members)
  rwa [List.flatMap_append, quiet, List.append_nil] at whole

/-- Where members are set, the difference is that of these members. -/
theorem diffAt_insertAll {members : List (String × Json)} (ordered : (object members).Ordered)
    (changed : List (String × Json)) (distinct : (changed.map Prod.fst).Nodup)
    (path : List String) :
    (diffAt path (object members) (object (Entries.insertAll members changed))).Perm
      (changed.flatMap (memberDiff path members)) := by
  refine diffAt_object_perm ordered (ordered.sorted.insertAll_perm distinct) ?_ ?_ path
  · exact fun m hm => (List.mem_filter.1 hm).1
  · intro m hm
    rw [Entries.find?_insertAll, ordered.sorted.find?_eq hm]
    cases Entries.find? m.1 changed.reverse <;> simp

theorem diffAt_insert {members : List (String × Json)} (ordered : (object members).Ordered)
    (k : String) (x : Json) (path : List String) :
    (diffAt path (object members) (object (Entries.insert k x members))).Perm
      (memberDiff path members (k, x)) := by
  have whole : (diffAt path (object members) (object (Entries.insertAll members [(k, x)]))).Perm
      ([(k, x)].flatMap (memberDiff path members)) :=
    diffAt_insertAll ordered _ (by simp) path
  rwa [List.flatMap_singleton] at whole

theorem diffItems_self {items : List Json} (h : ∀ x ∈ items, x.Ordered) (path : List String)
    (i : Nat) : diffItems path i items items = [] :=
  (diffItems_eq_nil_iff path i items items h h).2 rfl

/-- Where one item is set, the difference is that of this item. -/
theorem diffItems_set {items : List Json} (h : ∀ x ∈ items, x.Ordered) {i : Nat} {old : Json}
    (stands : items[i]? = some old) (x : Json) (path : List String) (start : Nat) :
    diffItems path start items (items.set i x) =
      diffAt (path ++ [toString (start + i)]) old x := by
  induction items generalizing i start with
  | nil => simp at stands
  | cons first rest ih =>
    obtain ⟨head, tail⟩ := List.forall_mem_cons.1 h
    cases i with
    | zero =>
      obtain rfl : first = old := by simpa using stands
      rw [List.set_cons_zero, diffItems, diffItems_self tail, List.append_nil, Nat.add_zero]
    | succ i =>
      have later := ih tail (by simpa using stands) (start + 1)
      rw [List.set_cons_succ, diffItems, diffAt_self head, List.nil_append, later]
      congr 4
      omega

/-- Where a child is set, the difference is that of the child. -/
theorem diffAt_setChild {v old : Json} (ordered : v.Ordered) {token : String}
    (found : v.child? token = some old) (x : Json) :
    ∃ name, ∀ path, (diffAt path v (v.setChild token x)).Perm (diffAt (path ++ [name]) old x) := by
  cases v with
  | object members =>
    refine ⟨token, fun path => ?_⟩
    have there : memberDiff path members (token, x) = diffAt (path ++ [token]) old x := by
      have stands : Entries.find? token members = some old := found
      simp only [memberDiff, stands]
    rw [← there]
    exact diffAt_insert ordered token x path
  | array items =>
    obtain ⟨i, place, stands⟩ := child?_array.1 found
    refine ⟨toString (0 + i), fun path => ?_⟩
    have whole : diffAt path (.array items) ((Json.array items).setChild token x) =
        diffItems path 0 items (items.set i x) := by
      simp only [setChild, place, diffAt]
    rw [whole, diffItems_set ordered.items stands]
  | null | bool | number | string => simp [child?] at found

end Json

/-! ## Patches that only add and replace -/

namespace Patch

/-- At most so many operations, and each of them puts a value somewhere. -/
structure Writes (n : Nat) (p : Patch) : Prop where
  few : p.length ≤ n
  puts : ∀ op ∈ p, op.kind = .add ∨ op.kind = .replace

variable {m n : Nat} {p q : Patch}

theorem Writes.perm (h : Writes n p) (same : q.Perm p) : Writes n q :=
  ⟨same.length_eq ▸ h.few, fun op hop => h.puts op (same.mem_iff.1 hop)⟩

theorem Writes.append (h₁ : Writes m p) (h₂ : Writes n q) : Writes (m + n) (p ++ q) where
  few := by
    rw [List.length_append]
    exact Nat.add_le_add h₁.few h₂.few
  puts := List.forall_mem_append.2 ⟨h₁.puts, h₂.puts⟩

end Patch

namespace DiffSummary

theorem foldl_count_of_writes {p : Patch} (h : ∀ op ∈ p, op.kind = .add ∨ op.kind = .replace)
    (s : DiffSummary) : (p.foldl count s).removes = s.removes ∧
      (p.foldl count s).adds + (p.foldl count s).updates = s.adds + s.updates + p.length := by
  induction p generalizing s with
  | nil => exact ⟨rfl, rfl⟩
  | cons op rest ih =>
    obtain ⟨head, tail⟩ := List.forall_mem_cons.1 h
    obtain ⟨removes, puts⟩ := ih tail (s.count op)
    rw [List.foldl_cons, removes, puts, List.length_cons]
    cases op with
    | add | replace =>
      refine ⟨rfl, ?_⟩
      simp only [count]
      omega
    | remove | move | copy | test => simp [Operation.kind] at head

/-- Each operation that puts a value is counted as one that adds or updates. -/
theorem ofPatch_of_writes {n : Nat} {p : Patch} (h : p.Writes n) :
    (ofPatch p).removes = 0 ∧ (ofPatch p).adds + (ofPatch p).updates = p.length := by
  have counts := foldl_count_of_writes h.puts empty
  simpa [ofPatch, empty] using counts

end DiffSummary

namespace Json

/-- A member that is missing is added. -/
theorem writes_of_missing {members : List (String × Json)} {k : String}
    (missing : Entries.find? k members = none) (x : Json) (path : List String) :
    (memberDiff path members (k, x)).Writes 1 := by
  simp only [memberDiff, missing]
  exact ⟨Nat.le_refl 1, by simp [Operation.kind]⟩

/-- A value with nothing inside is put as a whole. -/
theorem writes_of_scalar {x : Json} (notArray : ∀ items, x ≠ .array items)
    (notObject : ∀ inside, x ≠ .object inside) (members : List (String × Json)) (k : String)
    (path : List String) : (memberDiff path members (k, x)).Writes 1 := by
  cases found : Entries.find? k members with
  | none => exact writes_of_missing found x path
  | some old =>
    have whole : memberDiff path members (k, x) =
        if old.same x then [] else [.replace ⟨path ++ [k]⟩ x] := by
      simp only [memberDiff, found]
      exact diffAt_of_apart (fun _ t both => notObject t both.2) (fun _ t both => notArray t both.2)
        _
    rw [whole]
    split
    · exact ⟨Nat.zero_le 1, by simp⟩
    · exact ⟨Nat.le_refl 1, by simp [Operation.kind]⟩

/-- What a change writes is written at the end of a path, too. -/
theorem writes_modifyAt? {α : Type} {n : Nat} {change : Json → Option (α × Json)}
    (here : ∀ v a w path, v.Ordered → change v = some (a, w) → (diffAt path v w).Writes n)
    {tokens : List String} {v result : Json} {a : α} (ordered : v.Ordered)
    (changed : modifyAt? change tokens v = some (a, result)) (path : List String) :
    (diffAt path v result).Writes n := by
  induction tokens generalizing v result path with
  | nil => exact here v a result path ordered changed
  | cons token rest ih =>
    obtain ⟨old, child, found, deeper, rfl⟩ := modifyAt?_cons.1 changed
    obtain ⟨name, same⟩ := diffAt_setChild ordered found child
    exact (ih (ordered.child found) deeper (path ++ [name])).perm (same path)

end Json

end ControllerHooks
