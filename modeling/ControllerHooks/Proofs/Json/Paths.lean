import ControllerHooks.Json.Pointer
import ControllerHooks.Proofs.Entries
import ControllerHooks.Proofs.Outcome

/-!
# Children and paths

* Putting a child under a token that names one, and looking there again.
* `Json.exists_modifyAt?_iff`: what can be changed at the end of a path.
* `Json.modifyAt?_again`: a change that leaves its own results alone leaves them alone at the end
  of a path, too; `Json.modifyAt?_over`: so does a change that makes up for an earlier one.
* `Json.modifyAt?_of_put`: a change is told by the value that it puts at the end of a path.
-/

namespace ControllerHooks.Json

theorem index?_lt {token : String} {bound i : Nat} (h : index? token bound = some i) :
    i < bound := by
  simp only [index?] at h
  split at h
  · split at h
    · simp_all
    · simp at h
  · simp at h

theorem child?_array {token : String} {items : List Json} {child : Json} :
    (Json.array items).child? token = some child ↔
      ∃ i, index? token items.length = some i ∧ items[i]? = some child := by
  simp [child?, Option.bind_eq_some_iff]

theorem at?_member (token : String) (members : List (String × Json)) :
    (object members).at? [token] = Entries.find? token members := by
  cases found : Entries.find? token members <;> simp [at?, child?, found]

/-- Where a token names a child, it names the new one after it is replaced. -/
theorem child?_setChild {value old : Json} {token : String} (h : value.child? token = some old)
    (child : Json) : (value.setChild token child).child? token = some child := by
  cases value with
  | object members => simp [setChild, child?, Entries.find?_insert_self]
  | array items =>
    obtain ⟨i, place, _⟩ := child?_array.1 h
    simp [setChild, child?, place, index?_lt place]
  | _ => simp [child?] at h

/-- Of two children put under one token the later one stays. -/
theorem setChild_over (value : Json) (token : String) (first second : Json) :
    (value.setChild token first).setChild token second = value.setChild token second := by
  cases value with
  | object members => simp [setChild, Entries.insert_over]
  | array items =>
    cases place : index? token items.length <;> simp [setChild, place]
  | _ => rfl

theorem modifyAt?_cons {α : Type} {change : Json → Option (α × Json)} {token : String}
    {rest : List String} {value result : Json} {a : α} :
    modifyAt? change (token :: rest) value = some (a, result) ↔
      ∃ old child, value.child? token = some old ∧
        modifyAt? change rest old = some (a, child) ∧ result = value.setChild token child := by
  simp only [modifyAt?, Option.bind_eq_bind, Option.bind_eq_some_iff, Prod.exists, Option.pure_def,
    Option.some.injEq, Prod.mk.injEq]
  constructor
  · rintro ⟨old, found, _, child, changed, rfl, rfl⟩
    exact ⟨old, child, found, changed, rfl⟩
  · rintro ⟨old, child, found, changed, rfl⟩
    exact ⟨old, found, a, child, changed, rfl, rfl⟩

/-- A change goes through at the end of a path where it goes through for what stands there. -/
theorem exists_modifyAt?_iff {α : Type} {change : Json → Option (α × Json)} {path : List String}
    {value : Json} :
    (∃ a result, modifyAt? change path value = some (a, result)) ↔
      ∃ old a new, value.at? path = some old ∧ change old = some (a, new) := by
  induction path generalizing value with
  | nil => simp [modifyAt?, at?]
  | cons token rest ih =>
    simp only [modifyAt?_cons, at?, Option.bind_eq_some_iff]
    constructor
    · rintro ⟨a, _, old, child, found, changed, rfl⟩
      obtain ⟨inner, b, new, stands, changes⟩ := ih.1 ⟨a, child, changed⟩
      exact ⟨inner, b, new, ⟨old, found, stands⟩, changes⟩
    · rintro ⟨inner, a, new, ⟨old, found, stands⟩, changes⟩
      obtain ⟨b, child, changed⟩ := ih.2 ⟨inner, a, new, stands, changes⟩
      exact ⟨b, _, old, child, found, changed, rfl⟩

theorem modifyAt?_again {α : Type} {change : Json → Option (α × Json)}
    (settles : ∀ v a w, change v = some (a, w) → change w = some (a, w)) {path : List String}
    {value result : Json} {a : α} (h : modifyAt? change path value = some (a, result)) :
    modifyAt? change path result = some (a, result) := by
  induction path generalizing value result with
  | nil => exact settles value a result h
  | cons token rest ih =>
    obtain ⟨old, child, found, changed, rfl⟩ := modifyAt?_cons.1 h
    have placed := child?_setChild found child
    have same := (setChild_over value token child child).symm
    exact modifyAt?_cons.2 ⟨child, child, placed, ih changed, same⟩

/-- A change that makes up for another one makes up for it at the end of a path, too. -/
theorem modifyAt?_over {α β : Type} {first : Json → Option (α × Json)}
    {second : Json → Option (β × Json)}
    (absorbs : ∀ v a w b x, first v = some (a, w) → second w = some (b, x) →
      second v = some (b, x))
    {path : List String} {value mid result : Json} {a : α} {b : β}
    (h₁ : modifyAt? first path value = some (a, mid))
    (h₂ : modifyAt? second path mid = some (b, result)) :
    modifyAt? second path value = some (b, result) := by
  induction path generalizing value mid result with
  | nil => exact absorbs value a mid b result h₁ h₂
  | cons token rest ih =>
    obtain ⟨old, child, found, changed, rfl⟩ := modifyAt?_cons.1 h₁
    obtain ⟨placed, last, here, again, rfl⟩ := modifyAt?_cons.1 h₂
    obtain rfl : child = placed := Option.some.inj ((child?_setChild found child).symm.trans here)
    exact modifyAt?_cons.2 ⟨old, last, found, ih changed again, setChild_over value token _ _⟩

theorem modifyAt?_append {α : Type} (change : Json → Option (α × Json)) (above below : List String)
    (value : Json) :
    modifyAt? change (above ++ below) value = modifyAt? (modifyAt? change below) above value := by
  induction above generalizing value with
  | nil => rfl
  | cons token rest ih => simp only [List.cons_append, modifyAt?, ih]

/-! ## Putting values -/

/-- A change goes through where its result could be put. -/
theorem modifyAt?_of_put {α : Type} {change : Json → Option (α × Json)} {v w : Json} {a : α}
    (changed : change v = some (a, w)) {path : List String} {d result : Json}
    (put : modifyAt? (fun old => some (old, w)) path d = some (v, result)) :
    modifyAt? change path d = some (a, result) := by
  induction path generalizing d result with
  | nil =>
    obtain ⟨rfl, rfl⟩ := Prod.mk.inj (Option.some.inj put)
    exact changed
  | cons token rest ih =>
    obtain ⟨old, child, found, deeper, rfl⟩ := modifyAt?_cons.1 put
    exact modifyAt?_cons.2 ⟨old, child, found, ih deeper, rfl⟩

/-- A value is put in two steps, through any other one. -/
theorem exists_put_between {path : List String} {v w d result : Json} (u : Json)
    (put : modifyAt? (fun old => some (old, w)) path d = some (v, result)) :
    ∃ mid, modifyAt? (fun old => some (old, u)) path d = some (v, mid) ∧
      modifyAt? (fun old => some (old, w)) path mid = some (u, result) := by
  induction path generalizing d result with
  | nil =>
    obtain ⟨rfl, rfl⟩ := Prod.mk.inj (Option.some.inj put)
    exact ⟨u, rfl, rfl⟩
  | cons token rest ih =>
    obtain ⟨old, child, found, deeper, rfl⟩ := modifyAt?_cons.1 put
    obtain ⟨mid, first, second⟩ := ih deeper
    refine ⟨d.setChild token mid, modifyAt?_cons.2 ⟨old, mid, found, first, rfl⟩,
      modifyAt?_cons.2 ⟨mid, child, child?_setChild found mid, second, ?_⟩⟩
    rw [setChild_over]

end ControllerHooks.Json
