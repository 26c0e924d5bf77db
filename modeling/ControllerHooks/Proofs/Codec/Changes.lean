import ControllerHooks.Proofs.Codec.State
import ControllerHooks.Proofs.Controllers.ContainerSet

/-!
# Changes of legible values

* `Json.Legible.insert`, `Json.Legible.modifyAt?`: a value stays legible when a legible one is
  put into it.
* `Object.Legible.insertStatus`, `Dependents.Legible.insert`: so do objects and dependents.
* The same changes on a value at whole seconds give the same result at whole seconds.
-/

namespace ControllerHooks

variable {numbers : Number → Prop}

/-! ## Values -/

namespace Json

variable {room : Nat}

theorem Legible.of_find? {members : List (String × Json)}
    (h : (Json.object members).Legible numbers (room + 1)) {key : String} {v : Json}
    (found : Entries.find? key members = some v) : v.Legible numbers room := by
  obtain ⟨ordered, fits⟩ := h
  cases fits with
  | object fit => exact ⟨ordered.of_find? found, fit _ (Entries.mem_of_find? found)⟩

theorem Legible.insert {members : List (String × Json)}
    (h : (Json.object members).Legible numbers (room + 1)) (key : String) {v : Json}
    (value : v.Legible numbers room) :
    (Json.object (Entries.insert key v members)).Legible numbers (room + 1) := by
  refine ⟨ordered_insert h.ordered value.ordered, ?_⟩
  obtain ⟨_, fits⟩ := h
  cases fits with
  | object fit =>
    apply Within.object
    intro m hm
    rcases Entries.mem_insert hm with rfl | hm
    · exact value.fits
    · exact fit m hm

/-- What is below a legible value is legible, and may be replaced by what is legible there. -/
theorem Legible.child {v old : Json} (h : v.Legible numbers room) {token : String}
    (found : v.child? token = some old) :
    ∃ inside, room = inside + 1 ∧ old.Legible numbers inside ∧
      ∀ child : Json, child.Legible numbers inside →
        (v.setChild token child).Legible numbers room := by
  cases v with
  | object members =>
    cases h.fits with
    | @object inside _ fit =>
      refine ⟨inside, rfl, h.of_find? found, ?_⟩
      intro child legible
      exact h.insert token legible
  | array items =>
    have below := h.ordered.child found
    obtain ⟨i, place, here⟩ := child?_array.1 found
    cases h.fits with
    | @array inside _ fit =>
      refine ⟨inside, rfl, ⟨below, fit _ (List.mem_of_getElem? here)⟩, ?_⟩
      intro child legible
      refine ⟨h.ordered.setChild token legible.ordered, ?_⟩
      simp only [setChild, place]
      apply Within.array
      intro x hx
      rcases List.mem_or_eq_of_mem_set hx with hx | rfl
      · exact fit x hx
      · exact legible.fits
  | null | bool | number | string => simp [child?] at found

theorem Legible.modifyAt? {α : Type} {change : Json → Option (α × Json)}
    (keeps : ∀ {room v a w}, change v = some (a, w) → v.Legible numbers room →
      w.Legible numbers room)
    {path : List String} {v result : Json} {a : α} (h : v.Legible numbers room)
    (changed : modifyAt? change path v = some (a, result)) : result.Legible numbers room := by
  induction path generalizing room v result with
  | nil => exact keeps changed h
  | cons token rest ih =>
    obtain ⟨old, child, found, deeper, rfl⟩ := modifyAt?_cons.1 changed
    obtain ⟨inside, rfl, legible, replace⟩ := h.child found
    exact replace child (ih legible deeper)

theorem legible_string (s : String) : (Json.string s).Legible numbers room := ⟨.string s, .string s⟩

theorem legible_ofInt [Number.CoversWords numbers] {n : Int} (low : -0x8000000000000000 ≤ n)
    (high : n < 0x8000000000000000) : (Json.ofInt n).Legible numbers room :=
  ⟨.number _, .number (Number.CoversWords.covers ⟨low, by omega⟩)⟩

theorem int64?_range {v : Json} {n : Int} (h : v.int64? = some n) :
    -0x8000000000000000 ≤ n ∧ n < 0x8000000000000000 := by
  unfold int64? at h
  split at h
  · split at h
    · obtain rfl := Option.some.inj h
      assumption
    · cases h
  · cases h

theorem legible_empty : (Json.object []).Legible numbers (room + 1) :=
  ⟨.object .nil (by simp), .object (by simp)⟩

end Json

/-! ## Objects -/

namespace Object

variable {room : Nat}

theorem openPart_legible {field : String} {part : Option Json}
    (h : ∀ v ∈ part, v ≠ .null ∧ v.Legible numbers (room + 1)) {members : List (String × Json)}
    (opened : openPart field part = .ok members) :
    (Json.object members).Legible numbers (room + 1) := by
  cases part with
  | none =>
    obtain rfl := Except.ok.inj opened
    exact Json.legible_empty
  | some v =>
    cases v with
    | object inside =>
      obtain rfl := Except.ok.inj opened
      exact (h _ rfl).2
    | null | bool | number | string | array => cases opened

theorem Legible.insertStatus {o result : Object} (h : o.Legible numbers room) {field : String}
    {v : Json} (value : v.Legible numbers (room + 2))
    (inserted : o.insertStatus field v = .ok result) : result.Legible numbers room := by
  obtain ⟨members, opened, rfl⟩ := insertStatus_eq_ok_iff.1 inserted
  have whole := (openPart_legible h.status opened).insert field value
  refine ⟨h.metadata, h.spec, ?_, h.extra⟩
  rintro v ⟨⟩
  exact ⟨by simp, whole⟩

@[simp] theorem name_wholeSeconds (o : Object) : o.wholeSeconds.name = o.name := by
  cases h : o.metadata <;> simp [name, wholeSeconds, h, Metadata.wholeSeconds]

@[simp] theorem inNamespace_wholeSeconds (o : Object) :
    o.wholeSeconds.inNamespace = o.inNamespace := by
  cases h : o.metadata <;> simp [inNamespace, wholeSeconds, h, Metadata.wholeSeconds]

theorem insertStatus_wholeSeconds {o result : Object} {field : String} {v : Json}
    (h : o.insertStatus field v = .ok result) :
    o.wholeSeconds.insertStatus field v = .ok result.wholeSeconds := by
  obtain ⟨members, opened, rfl⟩ := insertStatus_eq_ok_iff.1 h
  exact insertStatus_eq_ok_iff.2 ⟨members, opened, rfl⟩

end Object

/-! ## Dependents -/

namespace Dependents

variable {room : Nat}

theorem Legible.insert {deps : Dependents} (h : deps.Legible numbers room) {key : ResourceKey}
    (wellFormed : ResourceKey.isWellFormed key.text = true) {objects : List Object}
    (legible : ∀ o ∈ objects, o.Legible numbers room) :
    Dependents.Legible numbers room (SortedMap.insert deps key objects) := by
  intro e he
  rcases Entries.mem_insert he with rfl | he
  · exact ⟨wellFormed, legible⟩
  · exact h e he

theorem Legible.of_objects {deps : Dependents} (h : deps.Legible numbers room) {key : ResourceKey} :
    ∀ o ∈ deps.objects key, o.Legible numbers room := by
  intro o ho
  unfold objects at ho
  cases found : deps.get? key with
  | none => simp [found] at ho
  | some objects => exact (h _ (Entries.mem_of_find? found)).2 o (by simpa [found] using ho)

theorem objects_wholeSeconds (deps : Dependents) (key : ResourceKey) :
    deps.wholeSeconds.objects key = (deps.objects key).map Object.wholeSeconds := by
  have found : SortedMap.get? deps.wholeSeconds key =
      (SortedMap.get? deps key).map fun objects => objects.map Object.wholeSeconds :=
    Entries.find?_map _ key deps.entries
  unfold objects
  rw [found]
  cases SortedMap.get? deps key <;> rfl

theorem wholeSeconds_insert (deps : Dependents) (key : ResourceKey) (objects : List Object) :
    Dependents.wholeSeconds (SortedMap.insert deps key objects) =
      SortedMap.insert deps.wholeSeconds key (objects.map Object.wholeSeconds) :=
  SortedMap.ext (Entries.map_insert _ key objects deps.entries)

end Dependents

end ControllerHooks
