import ControllerHooks.Proofs.Entries
import ControllerHooks.Proofs.Outcome
import ControllerHooks.Reconcile.Engine

/-!
# What the checks of a pass guarantee

* `Dependents.check_eq_ok_iff` and `State.checkTransition_eq_ok_iff`: the two checks succeed
  exactly on what `Dependents.Permitted` and `State.Allows` describe.
* `Dependents.entries_of_permitted` and `State.allows_insert_iff`: what they come to where one type
  is declared.
* `Reconciler.reconcile_eq_ok_iff`: all that a pass does.
* `Reconciler.reconcile_again`: a pass on its own result changes nothing if the body does not.
-/

namespace ControllerHooks

namespace Dependents

/-- Every key is declared, and one whose first declaration is for one object has at most one. -/
def Permitted (decls : List DependentDecl) (deps : Dependents) : Prop :=
  ∀ e ∈ deps.entries, ∃ decl, declarationOf decls e.1 = some decl ∧
    (decl.arity = .one → e.2.length ≤ 1)

theorem exceeds_eq_false_iff {decl : DependentDecl} {objects : List Object} :
    exceeds decl objects = false ↔ (decl.arity = .one → objects.length ≤ 1) := by
  simp [exceeds]

theorem checkEntry_eq_ok_iff {decls : List DependentDecl} {e : ResourceKey × List Object} :
    checkEntry decls e = .ok () ↔ ∃ decl, declarationOf decls e.1 = some decl ∧
      (decl.arity = .one → e.2.length ≤ 1) := by
  simp only [checkEntry, ← exceeds_eq_false_iff]
  cases declarationOf decls e.1 with
  | none => simp
  | some decl => cases h : exceeds decl e.2 <;> simp [h]

theorem check_eq_ok_iff {deps : Dependents} {decls : List DependentDecl} :
    deps.check decls = .ok () ↔ deps.Permitted decls := by
  simp only [check, forM_eq_ok, checkEntry_eq_ok_iff, Permitted]

end Dependents

namespace Object

/-- The same type, namespace and name. -/
structure SameIdentity (old new : Object) : Prop where
  apiVersion : new.apiVersion = old.apiVersion
  kind : new.kind = old.kind
  name : new.name = old.name
  inNamespace : new.inNamespace = old.inNamespace

theorem SameIdentity.refl (o : Object) : SameIdentity o o := ⟨rfl, rfl, rfl, rfl⟩

theorem SameIdentity.trans {a b c : Object} (ab : SameIdentity a b) (bc : SameIdentity b c) :
    SameIdentity a c :=
  ⟨bc.apiVersion.trans ab.apiVersion, bc.kind.trans ab.kind, bc.name.trans ab.name,
    bc.inNamespace.trans ab.inNamespace⟩

/-- A dependent under a key of a parent: it is of the key's type, has a name, and lives where the
parent lives. -/
structure BelongsTo (parent : Object) (key : ResourceKey) (object : Object) : Prop where
  key : object.key = key
  name : ∃ name, object.name = some name ∧ name ≠ ""
  inNamespace : object.inNamespace = parent.inNamespace

theorem name_getD_ne_iff {o : Object} :
    ¬ o.name.getD "" = "" ↔ ∃ name, o.name = some name ∧ name ≠ "" := by
  cases o.name <;> simp

end Object

namespace State

open Object (SameIdentity BelongsTo)

/-- What a pass may return when it was given the first state. -/
structure Allows (decls : List DependentDecl) (observed desired : State) : Prop where
  identity : SameIdentity observed.object desired.object
  permitted : desired.dependents.Permitted decls
  belong : ∀ e ∈ desired.dependents.entries, ∀ o ∈ e.2, BelongsTo desired.object e.1 o

theorem checkDesiredObject_eq_ok_iff {parent : Object} {key : ResourceKey} {i : Nat}
    {object : Object} :
    checkDesiredObject parent key i object = .ok () ↔ BelongsTo parent key object := by
  have belongs : BelongsTo parent key object ↔
      object.key = key ∧ (∃ name, object.name = some name ∧ name ≠ "") ∧
        object.inNamespace = parent.inNamespace :=
    ⟨fun h => ⟨h.key, h.name, h.inNamespace⟩, fun ⟨key, name, place⟩ => ⟨key, name, place⟩⟩
  rw [belongs, ← Object.name_getD_ne_iff]
  by_cases key : object.key = key <;> by_cases name : object.name.getD "" = "" <;>
    by_cases place : object.inNamespace = parent.inNamespace <;>
    simp [checkDesiredObject, key, name, place]

theorem checkDesiredObjects_eq_ok_iff {parent : Object} {key : ResourceKey} {i : Nat}
    {objects : List Object} :
    checkDesiredObjects parent key i objects = .ok () ↔
      ∀ o ∈ objects, BelongsTo parent key o := by
  induction objects generalizing i with
  | nil => simp [checkDesiredObjects]
  | cons object rest ih =>
    rw [checkDesiredObjects, bind_eq_ok, List.forall_mem_cons, ← ih (i := i + 1),
      ← checkDesiredObject_eq_ok_iff (i := i)]
    constructor
    · rintro ⟨_, head, tail⟩
      exact ⟨head, tail⟩
    · rintro ⟨head, tail⟩
      exact ⟨(), head, tail⟩

theorem checkDesiredEntry_eq_ok_iff {decls : List DependentDecl} {parent : Object}
    {e : ResourceKey × List Object} :
    checkDesiredEntry decls parent e = .ok () ↔
      (∃ decl, declarationOf decls e.1 = some decl ∧ (decl.arity = .one → e.2.length ≤ 1)) ∧
        ∀ o ∈ e.2, BelongsTo parent e.1 o := by
  simp only [checkDesiredEntry, ← Dependents.exceeds_eq_false_iff,
    ← checkDesiredObjects_eq_ok_iff (i := 0)]
  cases declarationOf decls e.1 with
  | none => simp
  | some decl => cases h : exceeds decl e.2 <;> simp [h]

theorem checkTransition_eq_ok_iff {observed desired : State} {decls : List DependentDecl} :
    observed.checkTransition desired decls = .ok () ↔ Allows decls observed desired := by
  have entries : desired.dependents.entries.forM (checkDesiredEntry decls desired.object) =
      .ok () ↔ desired.dependents.Permitted decls ∧
        ∀ e ∈ desired.dependents.entries, ∀ o ∈ e.2, BelongsTo desired.object e.1 o := by
    simp only [forM_eq_ok, checkDesiredEntry_eq_ok_iff, Dependents.Permitted]
    constructor
    · intro h
      exact ⟨fun e he => (h e he).1, fun e he => (h e he).2⟩
    · rintro ⟨permitted, belong⟩ e he
      exact ⟨permitted e he, belong e he⟩
  have allows : Allows decls observed desired ↔
      SameIdentity observed.object desired.object ∧ desired.dependents.Permitted decls ∧
        ∀ e ∈ desired.dependents.entries, ∀ o ∈ e.2, BelongsTo desired.object e.1 o := by
    constructor
    · intro h
      exact ⟨h.identity, h.permitted, h.belong⟩
    · rintro ⟨identity, permitted, belong⟩
      exact ⟨identity, permitted, belong⟩
  rw [allows, ← entries]
  simp only [checkTransition]
  by_cases type : observed.object.apiVersion ≠ desired.object.apiVersion ∨
      observed.object.kind ≠ desired.object.kind
  · have : ¬ SameIdentity observed.object desired.object := by
      intro same
      rcases type with other | other
      · exact other same.apiVersion.symm
      · exact other same.kind.symm
    simp [type, this]
  by_cases place : observed.object.inNamespace = desired.object.inNamespace
  · by_cases name : observed.object.name = desired.object.name
    · obtain ⟨apiVersion, kind⟩ : observed.object.apiVersion = desired.object.apiVersion ∧
          observed.object.kind = desired.object.kind := by simpa using type
      have : SameIdentity observed.object desired.object :=
        ⟨apiVersion.symm, kind.symm, name.symm, place.symm⟩
      simp [type, place, name, this]
    · have : ¬ SameIdentity observed.object desired.object := by
        intro same
        exact name same.name.symm
      simp [type, place, name, this]
  · have : ¬ SameIdentity observed.object desired.object := by
      intro same
      exact place same.inNamespace.symm
    simp [type, place, this]

end State

/-! ## Single dependents -/

section
variable {decl : DependentDecl} {deps : Dependents}

theorem Dependents.permitted_singleton_iff :
    deps.Permitted [decl] ↔
      ∀ e ∈ deps.entries, e.1 = decl.key ∧ (decl.arity = .one → e.2.length ≤ 1) := by
  refine forall₂_congr fun e _ => ?_
  by_cases key : decl.key = e.1
  · simp [declarationOf, key]
  · simp [declarationOf, key, Ne.symm key]

/-- Where one key is declared there is nothing under another one. -/
theorem Dependents.entries_of_permitted (h : deps.Permitted [decl]) :
    deps.entries = [] ∨ ∃ objects, deps.entries = [(decl.key, objects)] := by
  have own (e : ResourceKey × List Object) (he : e ∈ deps.entries) : e.1 = decl.key :=
    (permitted_singleton_iff.1 h e he).1
  have distinct := deps.sorted.keys_nodup
  match entries : deps.entries with
  | [] => exact .inl rfl
  | [e] =>
    rw [entries] at own
    exact .inr ⟨e.2, by rw [← own e List.mem_cons_self]⟩
  | e :: f :: rest =>
    -- Both would stand under the one declared key.
    rw [entries] at own distinct
    have same : e.1 = f.1 := (own e (by simp)).trans (own f (by simp)).symm
    simp [same] at distinct

variable (h : deps.Permitted [decl])
include h

theorem Dependents.entries_of_none (none : deps.objects decl.key = []) :
    ∀ e ∈ deps.entries, e.2 = [] := by
  rcases entries_of_permitted h with nothing | ⟨objects, one⟩
  · simp [nothing]
  · obtain rfl : objects = [] := by
      simpa [Dependents.objects, SortedMap.get?, one, Entries.find?] using none
    simp [one]

theorem Dependents.entries_of_one {o : Object} (one : deps.objects decl.key = [o]) :
    deps.entries = [(decl.key, [o])] := by
  rcases entries_of_permitted h with nothing | ⟨objects, here⟩
  · simp [Dependents.objects, SortedMap.get?, nothing, Entries.find?] at one
  · obtain rfl : objects = [o] := by
      simpa [Dependents.objects, SortedMap.get?, here, Entries.find?] using one
    exact here

/-- Where one key is declared, setting it leaves nothing else. -/
theorem Dependents.entries_insert (objects : List Object) :
    (deps.insert decl.key objects).entries = [(decl.key, objects)] := by
  rcases entries_of_permitted h with nothing | ⟨old, one⟩
  · simp [SortedMap.insert, nothing, Entries.insert]
  · simp [SortedMap.insert, one, Entries.insert]

end

/-- With one object in the place of all dependents, the check after the body looks at it and at the
parent. -/
theorem State.allows_insert_iff {decl : DependentDecl} {s t : State} {o : Object}
    (permitted : s.dependents.Permitted [decl])
    (placed : t.dependents = s.dependents.insert decl.key [o]) :
    Allows [decl] s t ↔
      Object.SameIdentity s.object t.object ∧ Object.BelongsTo t.object decl.key o := by
  have entries : t.dependents.entries = [(decl.key, [o])] := by
    rw [placed]
    exact Dependents.entries_insert permitted [o]
  constructor
  · intro allowed
    have belongs := allowed.belong (decl.key, [o]) (by rw [entries]; exact List.mem_cons_self)
    exact ⟨allowed.identity, belongs o List.mem_cons_self⟩
  · rintro ⟨identity, belongs⟩
    refine ⟨identity, Dependents.permitted_singleton_iff.2 ?_, ?_⟩
    · rw [entries]
      exact List.forall_mem_singleton.2 ⟨rfl, fun _ => Nat.le_refl 1⟩
    · rw [entries]
      exact List.forall_mem_singleton.2 (List.forall_mem_singleton.2 belongs)

namespace Reconciler

/-- All that a pass does: a check, the body on the state without its events, a check, and the
complete events. -/
theorem reconcile_eq_ok_iff {r : Reconciler} {s out : State} :
    r.reconcile s = .ok out ↔ s.dependents.Permitted r.dependents ∧
      ∃ desired, r.body { s with events := [] } = .ok desired ∧
        State.Allows r.dependents s desired ∧
        out = { desired with events := desired.events.filter Event.isComplete } := by
  simp only [reconcile, bind_eq_ok, pure_eq_ok_value, Except.ok.injEq,
    ← Dependents.check_eq_ok_iff, ← State.checkTransition_eq_ok_iff]
  constructor
  · rintro ⟨_, checked, desired, body, _, allowed, rfl⟩
    exact ⟨checked, desired, body, allowed, rfl⟩
  · rintro ⟨checked, desired, body, allowed, rfl⟩
    exact ⟨(), checked, desired, body, (), allowed, rfl⟩

theorem reconcile_allows {r : Reconciler} {s out : State} (h : r.reconcile s = .ok out) :
    State.Allows r.dependents s out := by
  obtain ⟨_, desired, _, allowed, rfl⟩ := reconcile_eq_ok_iff.1 h
  exact ⟨allowed.identity, allowed.permitted, allowed.belong⟩

/-- What a pass returned is left alone by a body that has nothing more to do there. -/
theorem reconcile_again {r : Reconciler} {s out : State} (h : r.reconcile s = .ok out)
    (body : r.body { out with events := [] } = .ok { out with events := [] }) :
    r.reconcile out = .ok { out with events := [] } := by
  have allowed := reconcile_allows h
  have still : State.Allows r.dependents out { out with events := [] } :=
    ⟨.refl _, allowed.permitted, allowed.belong⟩
  exact reconcile_eq_ok_iff.2 ⟨allowed.permitted, _, body, still, rfl⟩

end Reconciler

end ControllerHooks
