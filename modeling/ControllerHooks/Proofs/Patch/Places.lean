import ControllerHooks.Patch.Apply
import ControllerHooks.Proofs.Json.Ordered
import Mathlib.Data.List.Infix
import Mathlib.Data.List.InsertIdx

/-!
# Changes at single places

A value is put at a place, taken from it, or put in the place of another one.

* `Json.ChildPut`, `Json.ChildTaken`: what may happen to a value that gets or loses a child.
* `Json.insertAt?_ordered`, `Json.removeAt?_ordered`, `Json.replaceAt?_ordered`: an ordered document
  stays ordered.
* `Json.insertAt?_back`, `Json.removeAt?_back`, `Json.replaceAt?_back`: what is handed out for it
  undoes the change, in an ordered document.
-/

namespace ControllerHooks

namespace Json

/-! ## Single children -/

theorem index?_dash (bound : Nat) : index? "-" bound = none := rfl

/-- A child is put into a value: a member, an item at the end, or an item at its place. -/
inductive ChildPut (token : String) (x : Json) : Json → Option Json → Json → Prop
  | member {members : List (String × Json)} {old : Option Json}
      (found : Entries.find? token members = old) :
    ChildPut token x (object members) old (object (Entries.insert token x members))
  | last {items : List Json} (dash : token = "-") :
    ChildPut token x (array items) none (array (items ++ [x]))
  | item {items : List Json} {i : Nat} (named : token ≠ "-")
      (place : index? token (items.length + 1) = some i) :
    ChildPut token x (array items) none (array (items.insertIdx i x))

theorem childPut_of_insertChild? {token : String} {x v w : Json} {old : Option Json}
    (put : insertChild? token x v = some (old, w)) : ChildPut token x v old w := by
  cases v with
  | object members =>
    obtain ⟨found, rfl⟩ := Prod.mk.inj (Option.some.inj put)
    exact .member found
  | array items =>
    simp only [insertChild?] at put
    split at put
    · rename_i dash
      obtain ⟨rfl, rfl⟩ := Prod.mk.inj (Option.some.inj put)
      exact .last dash
    · rename_i named
      obtain ⟨i, place, same⟩ := Option.map_eq_some_iff.1 put
      obtain ⟨rfl, rfl⟩ := Prod.mk.inj same
      exact .item named place
  | null | bool | number | string => cases put

/-- A child is taken from a value: a member, the item at the end, or the item at its place. -/
inductive ChildTaken (dash : Bool) (token : String) : Json → Json → Json → Prop
  | member {members : List (String × Json)} {x : Json}
      (found : Entries.find? token members = some x) :
    ChildTaken dash token (object members) x (object (Entries.erase token members))
  | last {items : List Json} {x : Json} (allowed : dash = true) :
    ChildTaken dash token (array items) x (array items.dropLast)
  | item {items : List Json} {i : Nat} {x : Json} (place : index? token items.length = some i)
      (found : items[i]? = some x) :
    ChildTaken dash token (array items) x (array (items.eraseIdx i))

theorem childTaken_of_removeChild? {dash : Bool} {token : String} {x v w : Json}
    (taken : removeChild? dash token v = some (x, w)) : ChildTaken dash token v x w := by
  cases v with
  | object members =>
    obtain ⟨y, found, same⟩ := Option.map_eq_some_iff.1 taken
    obtain ⟨rfl, rfl⟩ := Prod.mk.inj same
    exact .member found
  | array items =>
    simp only [removeChild?] at taken
    split at taken
    · rename_i sign
      obtain ⟨y, _, same⟩ := Option.map_eq_some_iff.1 taken
      obtain ⟨rfl, rfl⟩ := Prod.mk.inj same
      exact .last (Bool.and_eq_true_iff.1 sign).1
    · obtain ⟨i, place, rest⟩ := Option.bind_eq_some_iff.1 taken
      obtain ⟨y, found, same⟩ := Option.bind_eq_some_iff.1 rest
      obtain ⟨rfl, rfl⟩ := Prod.mk.inj (Option.some.inj same)
      exact .item place found
  | null | bool | number | string => cases taken

theorem insertChild?_ordered {token : String} {x v w : Json} {old : Option Json}
    (put : insertChild? token x v = some (old, w)) (h : v.Ordered) (value : x.Ordered) :
    w.Ordered := by
  cases childPut_of_insertChild? put with
  | member => exact ordered_insert h value
  | last => exact .array (by simpa [or_imp, forall_and] using ⟨h.items, value⟩)
  | item =>
    refine .array fun y hy => ?_
    rcases List.eq_or_mem_of_mem_insertIdx hy with rfl | hy
    · exact value
    · exact h.items y hy

theorem removeChild?_ordered {dash : Bool} {token : String} {x v w : Json}
    (taken : removeChild? dash token v = some (x, w)) (h : v.Ordered) : w.Ordered := by
  cases childTaken_of_removeChild? taken with
  | member =>
    exact .object (Entries.sorted_erase h.sorted token) fun m hm =>
      h.members m (List.mem_of_mem_filter hm)
  | last => exact .array fun y hy => h.items y (List.mem_of_mem_dropLast hy)
  | item => exact .array fun y hy => h.items y (List.mem_of_mem_eraseIdx hy)

/-- What was put where nothing stood is taken out again. -/
theorem removeChild?_insertChild? {token : String} {x v w : Json} (h : v.Ordered)
    (put : insertChild? token x v = some (none, w)) : removeChild? true token w = some (x, v) := by
  cases childPut_of_insertChild? put with
  | member missing =>
    simp [removeChild?, Entries.find?_insert_self, h.sorted.erase_insert x missing]
  | last dash => simp [removeChild?, dash]
  | @item items i named place =>
    have inside : i ≤ items.length := Nat.le_of_lt_succ (index?_lt place)
    have length : (items.insertIdx i x).length = items.length + 1 :=
      List.length_insertIdx_of_le_length inside x
    have stands : (items.insertIdx i x)[i]? = some x := by
      rw [List.getElem?_insertIdx_self, if_pos inside]
    simp [removeChild?, named, length, place, stands]

/-- What was overwritten is put back. -/
theorem insertChild?_insertChild? {token : String} {x old v w : Json} (h : v.Ordered)
    (put : insertChild? token x v = some (some old, w)) :
    insertChild? token old w = some (some x, v) := by
  cases childPut_of_insertChild? put with
  | member found =>
    simp [insertChild?, Entries.find?_insert_self, Entries.insert_over,
      h.sorted.insert_eq_self found]

/-- What was taken out is put back where it was. -/
theorem insertChild?_removeChild? {token : String} {old v w : Json} (h : v.Ordered)
    (taken : removeChild? false token v = some (old, w)) :
    insertChild? token old w = some (none, v) := by
  cases childTaken_of_removeChild? taken with
  | member found => simp [insertChild?, Entries.find?_erase, h.sorted.insert_erase found]
  | last allowed => cases allowed
  | @item items i _ place found =>
    have named : token ≠ "-" := by
      rintro rfl
      cases (index?_dash _).symm.trans place
    obtain ⟨inside, rfl⟩ := List.getElem?_eq_some_iff.1 found
    have length : (items.eraseIdx i).length + 1 = items.length := by
      rw [List.length_eraseIdx_of_lt inside]
      omega
    simp [insertChild?, named, length, place, List.insertIdx_eraseIdx_getElem]

/-! ## Single places -/

section
variable {path : Pointer} {x v w : Json}

theorem insertAt?_ordered {old : Option Json} (put : v.insertAt? path x = some (old, w))
    (h : v.Ordered) (value : x.Ordered) : w.Ordered := by
  unfold insertAt? at put
  split at put
  · obtain ⟨_, rfl⟩ := Prod.mk.inj (Option.some.inj put)
    exact value
  · exact h.modifyAt? (fun put h => insertChild?_ordered put h value) put

theorem removeAt?_ordered {old : Json} {dash : Bool}
    (taken : v.removeAt? dash path = some (old, w)) (h : v.Ordered) : w.Ordered := by
  unfold removeAt? at taken
  split at taken
  · cases taken
  · exact h.modifyAt? removeChild?_ordered taken

theorem replaceAt?_ordered {old : Json} (put : v.replaceAt? path x = some (old, w))
    (h : v.Ordered) (value : x.Ordered) : w.Ordered := by
  refine h.modifyAt? (fun put _ => ?_) put
  obtain ⟨_, rfl⟩ := Prod.mk.inj (Option.some.inj put)
  exact value

/-- What has been put somewhere is taken away again, and what it has overwritten put back. -/
theorem insertAt?_back {old : Option Json} (put : v.insertAt? path x = some (old, w))
    (h : v.Ordered) : (Operation.undoInsert path old).run? w = some v := by
  unfold insertAt? at put
  split at put
  · rename_i whole
    obtain ⟨rfl, rfl⟩ := Prod.mk.inj (Option.some.inj put)
    simp [Operation.undoInsert, Undo.run?, insertAt?, whole]
  · rename_i parent last split
    cases old with
    | none =>
      obtain ⟨_, back⟩ :=
        h.modifyAt?_back (fun v w h put => ⟨x, removeChild?_insertChild? h put⟩) put
      simp [Operation.undoInsert, Undo.run?, removeAt?, split, back]
    | some old =>
      obtain ⟨_, back⟩ :=
        h.modifyAt?_back (fun v w h put => ⟨some x, insertChild?_insertChild? h put⟩) put
      simp [Operation.undoInsert, Undo.run?, insertAt?, split, back]

theorem removeAt?_back {old : Json} (taken : v.removeAt? false path = some (old, w))
    (h : v.Ordered) : (Undo.add path old).run? w = some v := by
  unfold removeAt? at taken
  split at taken
  · cases taken
  · rename_i parent last split
    obtain ⟨_, back⟩ :=
      h.modifyAt?_back (fun v w h taken => ⟨none, insertChild?_removeChild? h taken⟩) taken
    simp [Undo.run?, insertAt?, split, back]

theorem replaceAt?_back {old : Json} (put : v.replaceAt? path x = some (old, w))
    (h : v.Ordered) : (Undo.replace path old).run? w = some v := by
  have inverse (v w : Json) (_ : v.Ordered) (put : some (v, x) = some (old, w)) :
      ∃ b, some (w, old) = some (b, v) := by
    obtain ⟨rfl, rfl⟩ := Prod.mk.inj (Option.some.inj put)
    exact ⟨x, rfl⟩
  obtain ⟨_, back⟩ := h.modifyAt?_back inverse put
  simp [Undo.run?, replaceAt?, back]

end

end Json

end ControllerHooks
