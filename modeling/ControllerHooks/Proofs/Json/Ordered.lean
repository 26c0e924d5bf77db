import ControllerHooks.Json.Doc
import ControllerHooks.Proofs.Json.Paths

/-!
# Ordered values

A value read from a document has the members of every object in the order of their keys, each key
once. Such a value is its own reading.

* `Doc.toJson_ordered`: whatever is read is ordered.
* `Json.Ordered.modifyAt?`: an ordered value stays so when an ordered one is put into it.
* `Json.Ordered.modifyAt?_back`: what takes a change back takes it back at the end of a path, too.
* `Json.Ordered.toJson_ofJson`: an ordered value in memory reads back as itself.
-/

namespace ControllerHooks

/-- The members of every object are sorted, each key once. -/
inductive Json.Ordered : Json → Prop
  | null : Ordered .null
  | bool (b : Bool) : Ordered (.bool b)
  | number (n : Number) : Ordered (.number n)
  | string (s : String) : Ordered (.string s)
  | array {items : List Json} (ordered : ∀ x ∈ items, Ordered x) : Ordered (.array items)
  | object {members : List (String × Json)} (sorted : Entries.Sorted members)
      (ordered : ∀ m ∈ members, Ordered m.2) : Ordered (.object members)

namespace Entries

variable {κ α : Type} [Ord κ]

theorem mem_insertAll {start added : List (κ × α)} {e : κ × α} (h : e ∈ insertAll start added) :
    e ∈ start ∨ e ∈ added := by
  induction added generalizing start with
  | nil => exact .inl h
  | cons head rest ih =>
    have later : e ∈ insertAll (insert head.1 head.2 start) rest := h
    rcases ih later with old | new
    · rcases mem_insert old with rfl | old
      · exact .inr List.mem_cons_self
      · exact .inl old
    · exact .inr (List.mem_cons_of_mem _ new)

theorem mem_ofList {entries : List (κ × α)} {e : κ × α} (h : e ∈ ofList entries) : e ∈ entries :=
  (mem_insertAll h).resolve_left List.not_mem_nil

end Entries

namespace Json

theorem ordered_insert {members : List (String × Json)} (h : Ordered (.object members))
    {key : String} {value : Json} (value_ordered : Ordered value) :
    Ordered (.object (Entries.insert key value members)) := by
  cases h with
  | object sorted ordered =>
    apply Ordered.object (sorted.insert key value)
    intro m hm
    rcases Entries.mem_insert hm with rfl | hm
    · exact value_ordered
    · exact ordered m hm

theorem Ordered.sorted {members : List (String × Json)} (h : Ordered (.object members)) :
    Entries.Sorted members := by
  cases h with
  | object sorted _ => exact sorted

theorem Ordered.members {members : List (String × Json)} (h : Ordered (.object members)) :
    ∀ m ∈ members, m.2.Ordered := by
  cases h with
  | object _ ordered => exact ordered

theorem Ordered.items {items : List Json} (h : Ordered (.array items)) :
    ∀ x ∈ items, x.Ordered := by
  cases h with
  | array ordered => exact ordered

theorem Ordered.of_find? {members : List (String × Json)} (h : Ordered (.object members))
    {key : String} {value : Json} (found : Entries.find? key members = some value) :
    Ordered value :=
  h.members _ (Entries.mem_of_find? found)

theorem Ordered.child {v old : Json} (h : v.Ordered) {token : String}
    (found : v.child? token = some old) : old.Ordered := by
  cases v with
  | object members => exact h.of_find? found
  | array items =>
    obtain ⟨i, _, here⟩ := child?_array.1 found
    exact h.items old (List.mem_of_getElem? here)
  | null | bool | number | string => simp [child?] at found

theorem Ordered.setChild {v child : Json} (h : v.Ordered) (token : String)
    (ordered : child.Ordered) : (v.setChild token child).Ordered := by
  cases v with
  | object members => exact ordered_insert h ordered
  | array items =>
    simp only [Json.setChild]
    split
    · apply Ordered.array
      intro x hx
      rcases List.mem_or_eq_of_mem_set hx with hx | rfl
      · exact h.items x hx
      · exact ordered
    · exact h
  | null | bool | number | string => exact h

theorem Ordered.modifyAt? {α : Type} {change : Json → Option (α × Json)}
    (keeps : ∀ {v a w}, change v = some (a, w) → v.Ordered → w.Ordered)
    {path : List String} {v result : Json} {a : α} (h : v.Ordered)
    (changed : Json.modifyAt? change path v = some (a, result)) : result.Ordered := by
  induction path generalizing v result with
  | nil => exact keeps changed h
  | cons token rest ih =>
    obtain ⟨old, child, found, deeper, rfl⟩ := modifyAt?_cons.1 changed
    exact h.setChild token (ih (h.child found) deeper)

theorem Ordered.setChild_self {v old : Json} (h : v.Ordered) {token : String}
    (found : v.child? token = some old) : v.setChild token old = v := by
  cases v with
  | object members => exact congrArg Json.object (Entries.Sorted.insert_eq_self h.sorted found)
  | array items =>
    obtain ⟨i, place, here⟩ := child?_array.1 found
    obtain ⟨bound, rfl⟩ := List.getElem?_eq_some_iff.1 here
    simp only [Json.setChild, place, List.set_getElem_self]
  | null | bool | number | string => rfl

/-- What takes a change back takes it back at the end of a path, too. -/
theorem Ordered.modifyAt?_back {α β : Type} {change : Json → Option (α × Json)}
    {back : Json → Option (β × Json)} {a : α}
    (inverse : ∀ v w, v.Ordered → change v = some (a, w) → ∃ b, back w = some (b, v))
    {path : List String} {v w : Json} (h : v.Ordered)
    (changed : Json.modifyAt? change path v = some (a, w)) :
    ∃ b, Json.modifyAt? back path w = some (b, v) := by
  induction path generalizing v w with
  | nil => exact inverse v w h changed
  | cons token rest ih =>
    obtain ⟨old, child, found, deeper, rfl⟩ := modifyAt?_cons.1 changed
    obtain ⟨b, again⟩ := ih (h.child found) deeper
    refine ⟨b, modifyAt?_cons.2 ⟨child, old, child?_setChild found child, again, ?_⟩⟩
    rw [setChild_over, h.setChild_self found]

theorem Ordered.at? {path : List String} {v w : Json} (h : v.Ordered)
    (found : v.at? path = some w) : w.Ordered := by
  induction path generalizing v with
  | nil =>
    obtain rfl := Option.some.inj found
    exact h
  | cons token rest ih =>
    obtain ⟨child, here, below⟩ := Option.bind_eq_some_iff.1 found
    exact ih (h.child here) below

/-- To put what stands there already is to do nothing. -/
theorem Ordered.put_self {path : List String} {v d result : Json} (h : d.Ordered)
    (put : Json.modifyAt? (fun old => some (old, v)) path d = some (v, result)) : result = d := by
  induction path generalizing d result with
  | nil =>
    obtain ⟨same, rfl⟩ := Prod.mk.inj (Option.some.inj put)
    exact same.symm
  | cons token rest ih =>
    obtain ⟨old, child, found, deeper, rfl⟩ := modifyAt?_cons.1 put
    rw [ih (h.child found) deeper, h.setChild_self found]

end Json

/-! ## Reading -/

namespace Doc

mutual

theorem toJson_ordered : (d : Doc) → ∀ {v : Json}, d.toJson = .ok v → v.Ordered
  | .flawed _ _, _, h => by simp [toJson] at h
  | .null, _, h => by cases h; exact .null
  | .bool b, _, h => by cases h; exact .bool b
  | .number n, _, h => by cases h; exact .number n
  | .string s, _, h => by cases h; exact .string s
  | .array items close, v, h => by
    simp only [toJson, bind_eq_ok, pure_eq_ok_value, Except.ok.injEq] at h
    obtain ⟨values, read, _, _, rfl⟩ := h
    exact .array (toItems_ordered items read)
  | .object members close, v, h => by
    simp only [toJson, bind_eq_ok, pure_eq_ok_value, Except.ok.injEq] at h
    obtain ⟨values, read, _, _, rfl⟩ := h
    exact .object (Entries.sorted_ofList values) fun m hm =>
      toMembers_ordered members read m (Entries.mem_ofList hm)
  | .buried _, _, h => by simp [toJson] at h

theorem toItems_ordered : (items : List Doc) → ∀ {values : List Json},
    toItems items = .ok values → ∀ v ∈ values, v.Ordered
  | [], _, h => by cases h; simp
  | d :: rest, values, h => by
    simp only [toItems, bind_eq_ok, pure_eq_ok_value, Except.ok.injEq] at h
    obtain ⟨x, head, later, tail, rfl⟩ := h
    exact List.forall_mem_cons.2 ⟨toJson_ordered d head, toItems_ordered rest tail⟩

theorem toMembers_ordered : (members : List (Key × Doc)) → ∀ {values : List (String × Json)},
    toMembers members = .ok values → ∀ m ∈ values, m.2.Ordered
  | [], _, h => by cases h; simp
  | (key, d) :: rest, values, h => by
    simp only [toMembers, bind_eq_ok, pure_eq_ok_value, Except.ok.injEq] at h
    obtain ⟨name, _, x, head, later, tail, rfl⟩ := h
    exact List.forall_mem_cons.2 ⟨toJson_ordered d head, toMembers_ordered rest tail⟩

end

theorem toItems_ofItems {origin : Origin} {items : List Json}
    (h : ∀ x ∈ items, (ofJson origin x).toJson = .ok x) :
    toItems (ofItems origin items) = .ok items := by
  induction items with
  | nil => rfl
  | cons x rest ih =>
    obtain ⟨head, tail⟩ := List.forall_mem_cons.1 h
    simp [ofItems, toItems, head, ih tail]

theorem toMembers_ofMembers {origin : Origin} {members : List (String × Json)}
    (h : ∀ m ∈ members, (ofJson origin m.2).toJson = .ok m.2) :
    toMembers (ofMembers origin members) = .ok members := by
  induction members with
  | nil => rfl
  | cons m rest ih =>
    obtain ⟨head, tail⟩ := List.forall_mem_cons.1 h
    simp [ofMembers, toMembers, Key.read, head, ih tail]

end Doc

theorem Json.Ordered.toJson_ofJson {v : Json} (h : v.Ordered) (origin : Origin) :
    (Doc.ofJson origin v).toJson = .ok v := by
  induction h with
  | null | bool | number | string => rfl
  | array _ ih =>
    simp [Doc.ofJson, Doc.toJson, Doc.toItems_ofItems ih, Close.arrayFlaw, Doc.readFlaw]
  | object sorted _ ih =>
    simp [Doc.ofJson, Doc.toJson, Doc.toMembers_ofMembers ih, Close.objectFlaw, Doc.readFlaw,
      Entries.ofList_eq_self sorted]

end ControllerHooks
