import ControllerHooks.Proofs.Patch.Difference
import Mathlib.Data.List.Nodup
import Mathlib.Data.List.Perm.Basic

/-!
# Differences the other way round

What is added on the way from one document to another is removed on the way back.

* `Json.sharedMembers_swap`: both ways lead through the members that both objects have.
* `Json.kinds_diffAt`: the kinds of the operations, up to their order.
* `DiffSummary.between_swap`: the summary of the way back.
-/

namespace ControllerHooks

open Operation (kind)

/-- What takes back an operation of a kind. -/
def Operation.Kind.dual : Operation.Kind → Operation.Kind
  | .add => .remove
  | .remove => .add
  | kind => kind

namespace Json

/-! ## Objects -/

/-- The members that both objects have, with both values. -/
def sharedMembers (base target : List (String × Json)) : List (String × Json × Json) :=
  target.filterMap fun m => (Entries.find? m.1 base).map fun old => (m.1, old, m.2)

/-- The members of the target that the base does not have. -/
def newMembers (base target : List (String × Json)) : List (String × Json) :=
  target.filter fun m => !Entries.contains m.1 base

/-- Members are shared, or they are new. -/
theorem diffMembers_perm (path : List String) (base target : List (String × Json)) :
    (diffMembers path base target).Perm
      ((sharedMembers base target).flatMap (fun e => diffAt (path ++ [e.1]) e.2.1 e.2.2) ++
        (newMembers base target).map fun m => .add ⟨path ++ [m.1]⟩ m.2) := by
  induction target with
  | nil => rw [diffMembers]; exact .nil
  | cons m rest ih =>
    obtain ⟨k, x⟩ := m
    rw [diffMembers]
    cases found : Entries.find? k base with
    | some old =>
      have shared : sharedMembers base ((k, x) :: rest) =
          (k, old, x) :: sharedMembers base rest := by
        simp [sharedMembers, found]
      have new : newMembers base ((k, x) :: rest) = newMembers base rest := by
        simp [newMembers, Entries.contains, found]
      rw [shared, new, List.flatMap_cons, List.append_assoc]
      exact ih.append_left _
    | none =>
      have shared : sharedMembers base ((k, x) :: rest) = sharedMembers base rest := by
        simp [sharedMembers, found]
      have new : newMembers base ((k, x) :: rest) = (k, x) :: newMembers base rest := by
        simp [newMembers, Entries.contains, found]
      rw [shared, new, List.map_cons]
      exact (ih.cons _).trans List.perm_middle.symm

theorem mem_sharedMembers_iff {base target : List (String × Json)} (sorted : Entries.Sorted target)
    {k : String} {old new : Json} : (k, old, new) ∈ sharedMembers base target ↔
      Entries.find? k base = some old ∧ Entries.find? k target = some new := by
  simp only [sharedMembers, List.mem_filterMap, Option.map_eq_some_iff, Prod.exists]
  constructor
  · rintro ⟨l, x, member, v, found, same⟩
    cases same
    exact ⟨found, sorted.find?_eq member⟩
  · rintro ⟨found, stands⟩
    exact ⟨k, new, Entries.mem_of_find? stands, old, found, rfl⟩

theorem nodup_sharedMembers {base target : List (String × Json)}
    (sorted : Entries.Sorted target) : (sharedMembers base target).Nodup := by
  refine sorted.nodup.filterMap ?_
  intro m n e here there
  obtain ⟨_, _, rfl⟩ := Option.map_eq_some_iff.1 here
  obtain ⟨_, _, same⟩ := Option.map_eq_some_iff.1 there
  obtain ⟨key, values⟩ := Prod.mk.inj same
  exact Prod.ext key.symm (Prod.mk.inj values).2.symm

/-- Both ways lead through the same members, with the values exchanged. -/
theorem sharedMembers_swap {base target : List (String × Json)} (h₁ : Entries.Sorted base)
    (h₂ : Entries.Sorted target) :
    (sharedMembers base target).Perm
      ((sharedMembers target base).map fun e => (e.1, e.2.2, e.2.1)) := by
  have exchanged : ((sharedMembers target base).map fun e => (e.1, e.2.2, e.2.1)).Nodup := by
    refine (nodup_sharedMembers h₁).map ?_
    rintro ⟨k, old, new⟩ ⟨l, first, second⟩ same
    cases same
    rfl
  refine (List.perm_ext_iff_of_nodup (nodup_sharedMembers h₂) exchanged).2 ?_
  rintro ⟨k, old, new⟩
  rw [mem_sharedMembers_iff h₂, List.mem_map]
  constructor
  · rintro ⟨found, stands⟩
    exact ⟨(k, new, old), (mem_sharedMembers_iff h₁).2 ⟨stands, found⟩, rfl⟩
  · rintro ⟨⟨l, first, second⟩, member, same⟩
    cases same
    exact ((mem_sharedMembers_iff h₁).1 member).symm

/-- The kinds of the operations that lead from one object to another. -/
theorem kinds_object_perm (path : List String) (base target : List (String × Json)) :
    ((diffAt path (object base) (object target)).map kind).Perm
      ((sharedMembers base target).flatMap
          (fun e => (diffAt (path ++ [e.1]) e.2.1 e.2.2).map kind) ++
        ((newMembers base target).map (fun _ => .add) ++
          (newMembers target base).map fun _ => .remove)) := by
  have missing : (missingMembers path base target).map kind =
      (newMembers target base).map fun _ => .remove := by
    simp [missingMembers, newMembers, kind, Function.comp_def]
  have members := (diffMembers_perm path base target).map kind
  rw [diffAt, List.map_append, missing, ← List.append_assoc]
  refine List.Perm.append_right _ ?_
  simpa [List.map_flatMap, kind, Function.comp_def] using members

/-! ## Arrays -/

theorem kinds_diffItems_nil (path : List String) (i : Nat) (target : List Json) :
    (diffItems path i [] target).map kind = target.map fun _ => .add := by
  induction target generalizing i with
  | nil => simp [diffItems]
  | cons x rest ih => simp [diffItems, kind, ih]

theorem kinds_diffItems {base target : List Json}
    (inside : ∀ old ∈ base, ∀ x ∈ target, ∀ path other,
      ((diffAt path old x).map kind).Perm ((diffAt other x old).map fun op => op.kind.dual))
    (path other : List String) (i j : Nat) :
    ((diffItems path i base target).map kind).Perm
      ((diffItems other j target base).map fun op => op.kind.dual) := by
  have duals (p : Patch) : (p.map fun op => op.kind.dual) = (p.map kind).map .dual := by simp
  induction target generalizing base i j with
  | nil =>
    have removed : (diffItems path i base []).map kind = base.map fun _ => .remove := by
      simp [diffItems, kind]
    rw [removed, duals, kinds_diffItems_nil, List.map_map]
    exact .refl _
  | cons x rest ih =>
    cases base with
    | nil =>
      rw [kinds_diffItems_nil, diffItems, List.map_map]
      exact .refl _
    | cons old base =>
      have here := inside old List.mem_cons_self x List.mem_cons_self
        (path ++ [toString i]) (other ++ [toString j])
      have tail : ∀ y ∈ base, ∀ z ∈ rest, ∀ path other,
          ((diffAt path y z).map kind).Perm ((diffAt other z y).map fun op => op.kind.dual) :=
        fun y hy z hz => inside y (List.mem_cons_of_mem _ hy) z (List.mem_cons_of_mem _ hz)
      have later := ih tail (i + 1) (j + 1)
      rw [diffItems, diffItems, List.map_append, List.map_append]
      exact here.append later

/-! ## Values -/

theorem same_comm (a b : Json) : a.same b = b.same a := by
  rw [Bool.eq_iff_iff, same_iff, same_iff]
  exact eq_comm

/-- A value that is put as a whole is put as a whole both ways. -/
theorem kinds_of_apart {base target : Json}
    (objects : ∀ b t, ¬ (base = .object b ∧ target = .object t))
    (arrays : ∀ b t, ¬ (base = .array b ∧ target = .array t)) (path other : List String) :
    ((diffAt path base target).map kind).Perm
      ((diffAt other target base).map fun op => op.kind.dual) := by
  rw [diffAt_of_apart objects arrays,
    diffAt_of_apart (fun b t both => objects t b both.symm) (fun b t both => arrays t b both.symm),
    same_comm]
  split
  · exact .nil
  · exact .refl _

/-- What is added one way is removed the other way, and what is replaced is replaced. -/
theorem kinds_diffAt (path other : List String) {base target : Json} (h₁ : base.Ordered)
    (h₂ : target.Ordered) :
    ((diffAt path base target).map kind).Perm
      ((diffAt other target base).map fun op => op.kind.dual) := by
  induction h₂ generalizing base path other with
  | @object target sorted inner ih =>
    cases base with
    | object base =>
      have values : ∀ e ∈ sharedMembers base target,
          ((diffAt (path ++ [e.1]) e.2.1 e.2.2).map kind).Perm
            ((diffAt (other ++ [e.1]) e.2.2 e.2.1).map fun op => op.kind.dual) := by
        rintro ⟨k, old, new⟩ member
        obtain ⟨found, stands⟩ := (mem_sharedMembers_iff sorted).1 member
        exact ih _ (Entries.mem_of_find? stands) _ _ (h₁.of_find? found)
      have back := (kinds_object_perm other target base).map Operation.Kind.dual
      simp only [List.map_append, List.map_flatMap, List.map_map, Function.comp_def,
        Operation.Kind.dual] at back
      have shared := (sharedMembers_swap h₁.sorted sorted).flatMap values
      rw [List.flatMap_map] at shared
      exact (kinds_object_perm path base target).trans
        ((shared.append List.perm_append_comm).trans back.symm)
    | null | bool | number | string | array => exact kinds_of_apart (by simp) (by simp) path other
  | @array target inner ih =>
    cases base with
    | array base =>
      rw [diffAt, diffAt]
      refine kinds_diffItems (fun old hold x hx path other => ?_) path other 0 0
      exact ih x hx path other (h₁.items old hold)
    | null | bool | number | string | object => exact kinds_of_apart (by simp) (by simp) path other
  | null | bool | number | string => exact kinds_of_apart (by simp) (by simp) path other

end Json

namespace DiffSummary

/-- The summary of the way back. -/
def swap (s : DiffSummary) : DiffSummary := ⟨s.removes, s.updates, s.adds⟩

/-- A summary counts kinds of operations. -/
theorem ofPatch_eq (p : Patch) : ofPatch p =
    ⟨(p.map kind).countP (· = .add), (p.map kind).countP (fun k => k ≠ .add ∧ k ≠ .remove),
      (p.map kind).countP (· = .remove)⟩ := by
  have counted (s : DiffSummary) : p.foldl count s =
      ⟨s.adds + (p.map kind).countP (· = .add),
        s.updates + (p.map kind).countP (fun k => k ≠ .add ∧ k ≠ .remove),
        s.removes + (p.map kind).countP (· = .remove)⟩ := by
    induction p generalizing s with
    | nil => rfl
    | cons op rest ih =>
      rw [List.foldl_cons, ih]
      cases op <;> simp [count, kind, Nat.add_assoc, Nat.add_comm 1]
  simpa [ofPatch, empty] using counted empty

/-- What it takes to go back: what was added is removed, what was removed is added. -/
theorem between_swap {base target : Json} (h₁ : base.Ordered) (h₂ : target.Ordered) :
    between target base = (between base target).swap := by
  have kinds := Json.kinds_diffAt [] [] h₁ h₂
  have same (f g : Operation.Kind → Bool) (dual : ∀ k : Operation.Kind, f k.dual = g k) :
      ((base.diff target).map kind).countP f = ((target.diff base).map kind).countP g := by
    rw [Json.diff, Json.diff, kinds.countP_eq, List.countP_map, List.countP_map]
    exact List.countP_congr fun op _ => by simp [dual]
  rw [between, between, ofPatch_eq, ofPatch_eq, swap, DiffSummary.mk.injEq]
  refine ⟨(same _ _ ?_).symm, (same _ _ ?_).symm, (same _ _ ?_).symm⟩ <;>
    intro k <;> cases k <;> rfl

end DiffSummary

end ControllerHooks
