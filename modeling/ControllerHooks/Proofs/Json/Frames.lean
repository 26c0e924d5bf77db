import ControllerHooks.Proofs.Digits
import ControllerHooks.Proofs.Json.Ordered
import ControllerHooks.Proofs.Json.Paths

/-!
# Changes at single places

A change deep inside a value leaves all that stands beside it alone, and what is around it keeps
its kind.

* `Json.SameBut`: one value is another one but for what stands at some places.
* `Json.SameBut.insert`, `Json.SameBut.modifyAt?`: setting a member, and a change at the end of a
  path, are such changes; `Json.SameBut.trans`: changes at places apart from each other add up.
* `Json.at?_modifyAt?`: what stands at the end of a path after a change there.
* `Json.Ordered.eq_of_alike`, `Json.SameBut.unique`: nothing else can be told of an ordered value.
-/

namespace ControllerHooks.Json

/-! ## Looking up -/

/-- A place in an array has one token. -/
theorem index?_injective {first second : String} {bound i : Nat}
    (h₁ : index? first bound = some i) (h₂ : index? second bound = some i) : first = second := by
  have written {token : String} (h : index? token bound = some i) :
      Nat.toDigits 10 i = token.toList := by
    simp only [index?] at h
    split at h
    · rename_i decimal
      obtain ⟨given, digits, leading⟩ := decimal
      split at h
      · obtain rfl := Option.some.inj h
        exact Digits.toDigits_ofDigitChars given (List.all_eq_true.1 digits) leading
      · cases h
    · cases h
  exact String.toList_injective ((written h₁).symm.trans (written h₂))

/-- The decimal text of a place is its token. -/
theorem index?_toString {i bound : Nat} (h : i < bound) : index? (toString i) bound = some i := by
  have digits := List.all_eq_true.2 (Digits.isDigit_toDigits i)
  have leading : (Nat.toDigits 10 i).head? = some '0' → (Nat.toDigits 10 i).length = 1 := by
    intro zero
    by_cases positive : 0 < i
    · exact absurd zero (Digits.head?_toDigits positive)
    · obtain rfl : i = 0 := by omega
      rfl
  have value : Nat.ofDigitChars 10 (Nat.toDigits 10 i) 0 = i := by simp
  simp only [index?, Nat.toString_eq_ofList_toDigits, String.toList_ofList]
  rw [if_pos ⟨Nat.toDigits_ne_nil, digits, leading⟩, value, if_pos h]

/-- Every place in an array has a token. -/
theorem exists_index? {i bound : Nat} (h : i < bound) : ∃ token, index? token bound = some i :=
  ⟨_, index?_toString h⟩

/-- A child that is replaced leaves the other children alone. -/
theorem child?_setChild_of_ne {token other : String} (ne : other ≠ token) (value child : Json) :
    (value.setChild token child).child? other = value.child? other := by
  cases value with
  | object members => exact Entries.find?_insert_of_ne ne child members
  | array items =>
    cases place : index? token items.length with
    | none => simp [setChild, place]
    | some i =>
      cases here : index? other items.length with
      | none => simp [setChild, child?, place, here]
      | some j =>
        have apart : i ≠ j := by
          rintro rfl
          exact ne (index?_injective here place)
        simp [setChild, child?, place, here, apart]
  | null | bool | number | string => rfl

theorem at?_append (above below : List String) (value : Json) :
    value.at? (above ++ below) = (value.at? above).bind (at? below) := by
  induction above generalizing value with
  | nil => rfl
  | cons token rest ih =>
    simp only [List.cons_append, at?]
    cases value.child? token with
    | none => rfl
    | some child => exact ih child

theorem at?_cons {token : String} {value child : Json} (h : value.child? token = some child)
    (rest : List String) : value.at? (token :: rest) = child.at? rest := by
  simp [at?, h]

theorem at?_insert_self (token : String) (value : Json) (members : List (String × Json)) :
    (Json.object (Entries.insert token value members)).at? [token] = some value := by
  rw [at?_member, Entries.find?_insert_self]

/-- After a change at the end of a path its result stands there. -/
theorem at?_modifyAt? {α : Type} {change : Json → Option (α × Json)} {path : List String}
    {value result : Json} {a : α} (h : modifyAt? change path value = some (a, result)) :
    ∃ old new, value.at? path = some old ∧ change old = some (a, new) ∧
      result.at? path = some new := by
  induction path generalizing value result with
  | nil => exact ⟨value, result, rfl, h, rfl⟩
  | cons token rest ih =>
    obtain ⟨inside, child, found, changed, rfl⟩ := modifyAt?_cons.1 h
    obtain ⟨old, new, before, turned, after⟩ := ih changed
    have placed := child?_setChild found child
    exact ⟨old, new, (at?_cons found rest).trans before, turned, (at?_cons placed rest).trans after⟩

/-! ## The frame -/

/-- Both are objects, or arrays of one length, or the same. -/
def SameShape : Json → Json → Prop
  | .object _, .object _ => True
  | .array first, .array second => first.length = second.length
  | first, second => first = second

/-- `after` is `before` but for what stands at the places. Around them there is what was there, of
the same shape. -/
structure SameBut (places : List (List String)) (before after : Json) : Prop where
  kept : ∀ q, (∀ p ∈ places, ¬ p <+: q ∧ ¬ q <+: p) → after.at? q = before.at? q
  around : ∀ p ∈ places, ∀ q, q <+: p → q ≠ p →
    ∃ old new, before.at? q = some old ∧ after.at? q = some new ∧ SameShape old new

theorem SameShape.refl (value : Json) : SameShape value value := by
  cases value <;> simp [SameShape]

theorem SameShape.trans {a b c : Json} (ab : SameShape a b) (bc : SameShape b c) :
    SameShape a c := by
  cases a <;> cases b <;> simp only [SameShape, reduceCtorEq] at ab <;>
    cases c <;> simp_all [SameShape]

theorem SameShape.symm {a b : Json} (h : SameShape a b) : SameShape b a := by
  cases a <;> cases b <;> simp_all [SameShape]

theorem sameShape_setChild {value old : Json} {token : String} (h : value.child? token = some old)
    (child : Json) : SameShape value (value.setChild token child) := by
  cases value with
  | object members => trivial
  | array items =>
    obtain ⟨i, place, _⟩ := child?_array.1 h
    simp [setChild, place, SameShape]
  | null | bool | number | string => cases h

/-! ## Documents that look alike -/

/-- At every path there is nothing in both, or there are things of one shape. -/
def Alike (a b : Json) : Prop :=
  ∀ q, a.at? q = none ∧ b.at? q = none ∨
    ∃ x y, a.at? q = some x ∧ b.at? q = some y ∧ SameShape x y

theorem Alike.symm {a b : Json} (h : Alike a b) : Alike b a := by
  intro q
  rcases h q with ⟨first, second⟩ | ⟨x, y, here, there, shape⟩
  · exact .inl ⟨second, first⟩
  · exact .inr ⟨y, x, there, here, shape.symm⟩

theorem Alike.shape {a b : Json} (h : Alike a b) : SameShape a b := by
  rcases h [] with ⟨none, _⟩ | ⟨_, _, here, there, shape⟩
  · cases none
  · cases here
    cases there
    exact shape

theorem Alike.child {a b v : Json} (h : Alike a b) {token : String}
    (found : a.child? token = some v) : ∃ w, b.child? token = some w ∧ Alike v w := by
  rcases h [token] with ⟨none, _⟩ | ⟨_, w, _, stands, _⟩
  · simp [at?, found] at none
  · have other : b.child? token = some w := by simpa [at?, Option.bind_eq_some_iff] using stands
    refine ⟨w, other, fun q => ?_⟩
    have below := h (token :: q)
    rwa [at?_cons found, at?_cons other] at below

/-- Documents that look alike are the same. -/
theorem Ordered.eq_of_alike {a b : Json} (ordered_a : a.Ordered) (ordered_b : b.Ordered)
    (h : Alike a b) : a = b := by
  have shape := h.shape
  induction ordered_a generalizing b with
  | null | bool | number | string => cases b <;> simp_all [SameShape]
  | @array items inside ih =>
    cases b with
    | array others =>
      refine congrArg Json.array (List.ext_getElem shape fun i first second => ?_)
      obtain ⟨token, place⟩ := exists_index? first
      have found : (Json.array items).child? token = some items[i] := by simp [child?, place]
      obtain ⟨w, stands, alike⟩ := h.child found
      have length : items.length = others.length := shape
      have here : others[i]? = some w := by simpa [child?, ← length, place] using stands
      obtain rfl : others[i] = w :=
        Option.some.inj ((List.getElem?_eq_getElem second).symm.trans here)
      exact ih _ (List.getElem_mem first) (ordered_b.items _ (List.getElem_mem second)) alike
        alike.shape
    | null | bool | number | string | object => cases shape
  | @object members sorted inside ih =>
    cases b with
    | object others =>
      refine congrArg Json.object (sorted.ext ordered_b.sorted fun k => ?_)
      cases found : Entries.find? k members with
      | some v =>
        obtain ⟨w, stands, alike⟩ := h.child found
        obtain rfl : v = w := ih (k, v) (Entries.mem_of_find? found) (ordered_b.of_find? stands)
          alike alike.shape
        exact stands.symm
      | none =>
        cases other : Entries.find? k others with
        | none => rfl
        | some w =>
          obtain ⟨v, stands, _⟩ := h.symm.child other
          cases found.symm.trans stands
    | null | bool | number | string | array => cases shape

namespace SameBut

theorem insert (token : String) (value : Json) (members : List (String × Json)) :
    SameBut [[token]] (.object members) (.object (Entries.insert token value members)) where
  kept q apart := by
    obtain ⟨notBelow, notAbove⟩ := apart [token] List.mem_cons_self
    cases q with
    | nil => exact absurd List.nil_prefix notAbove
    | cons other rest =>
      have ne : other ≠ token := by
        rintro rfl
        exact notBelow (List.prefix_cons_inj other |>.2 List.nil_prefix)
      simp only [at?, child?, Entries.find?_insert_of_ne ne]
  around p member q above strictly := by
    obtain rfl := List.mem_singleton.1 member
    cases q with
    | nil => exact ⟨_, _, rfl, rfl, trivial⟩
    | cons other rest =>
      obtain ⟨rfl, below⟩ := List.cons_prefix_cons.1 above
      exact absurd (congrArg _ (List.prefix_nil.1 below)) strictly

/-- A child that is the same but for one place is put in its own stead. -/
theorem setChild {place : List String} {token : String} {value old child : Json}
    (found : value.child? token = some old) (h : SameBut [place] old child) :
    SameBut [token :: place] value (value.setChild token child) where
  kept q apart := by
    obtain ⟨notBelow, notAbove⟩ := apart _ List.mem_cons_self
    cases q with
    | nil => exact absurd List.nil_prefix notAbove
    | cons other rest =>
      by_cases here : other = token
      · subst here
        rw [List.prefix_cons_inj] at notBelow notAbove
        rw [at?_cons found, at?_cons (child?_setChild found child)]
        exact h.kept rest (by simpa using ⟨notBelow, notAbove⟩)
      · simp only [at?, child?_setChild_of_ne here]
  around p member q above strictly := by
    obtain rfl := List.mem_singleton.1 member
    cases q with
    | nil => exact ⟨_, _, rfl, rfl, sameShape_setChild found child⟩
    | cons other rest =>
      obtain ⟨rfl, inside⟩ := List.cons_prefix_cons.1 above
      rw [at?_cons found, at?_cons (child?_setChild found child)]
      exact h.around place List.mem_cons_self rest inside fun same => strictly (congrArg _ same)

/-- A change that concerns one place of what stands at the end of a path, concerns one place. -/
theorem modifyAt?_there {α : Type} {change : Json → Option (α × Json)} {place path : List String}
    {value result : Json} {a : α}
    (inside : ∀ v w, value.at? path = some v → change v = some (a, w) → SameBut [place] v w)
    (h : Json.modifyAt? change path value = some (a, result)) :
    SameBut [path ++ place] value result := by
  induction path generalizing value result with
  | nil => exact inside value result rfl h
  | cons token rest ih =>
    obtain ⟨old, child, found, changed, rfl⟩ := modifyAt?_cons.1 h
    refine setChild found (ih (fun v w here => inside v w ?_) changed)
    rwa [at?_cons found]

/-- A change that concerns one place concerns one place at the end of a path, too. -/
theorem modifyAt? {α : Type} {change : Json → Option (α × Json)} {place path : List String}
    (inside : ∀ v a w, change v = some (a, w) → SameBut [place] v w) {value result : Json} {a : α}
    (h : Json.modifyAt? change path value = some (a, result)) :
    SameBut [path ++ place] value result :=
  modifyAt?_there (fun v w _ => inside v a w) h

/-- Where no place is or leads to, there is nothing before and after, or things of one shape. -/
theorem shape {places : List (List String)} {before after : Json} (h : SameBut places before after)
    {q : List String} (notBelow : ∀ p ∈ places, ¬ p <+: q) :
    before.at? q = none ∧ after.at? q = none ∨
      ∃ old new, before.at? q = some old ∧ after.at? q = some new ∧ SameShape old new := by
  by_cases leads : ∃ p ∈ places, q <+: p
  · obtain ⟨p, member, above⟩ := leads
    have strictly : q ≠ p := by
      rintro rfl
      exact notBelow q member (List.prefix_refl q)
    exact .inr (h.around p member q above strictly)
  · have same : after.at? q = before.at? q :=
      h.kept q fun p member => ⟨notBelow p member, fun above => leads ⟨p, member, above⟩⟩
    cases here : before.at? q with
    | none => exact .inl ⟨rfl, same.trans here⟩
    | some value => exact .inr ⟨value, value, rfl, same.trans here, .refl value⟩

/-- Changes add up where neither is around or inside a place of the other. -/
theorem trans {first second : List (List String)} {a b c : Json} (ab : SameBut first a b)
    (bc : SameBut second b c)
    (apart : ∀ p ∈ first, ∀ r ∈ second, ¬ p <+: r ∧ ¬ r <+: p) : SameBut (first ++ second) a c where
  kept q free := by
    obtain ⟨free_first, free_second⟩ := List.forall_mem_append.1 free
    exact (bc.kept q free_second).trans (ab.kept q free_first)
  around p member q above strictly := by
    rcases List.mem_append.1 member with member | member
    · obtain ⟨old, mid, before, between, shape⟩ := ab.around p member q above strictly
      have notBelow : ∀ r ∈ second, ¬ r <+: q := fun r hr below =>
        (apart p member r hr).2 (below.trans above)
      rcases bc.shape notBelow with ⟨none, _⟩ | ⟨_, new, stands, after, later⟩
      · rw [between] at none
        cases none
      · obtain rfl := Option.some.inj (between.symm.trans stands)
        exact ⟨old, new, before, after, shape.trans later⟩
    · obtain ⟨mid, new, between, after, shape⟩ := bc.around p member q above strictly
      have notBelow : ∀ r ∈ first, ¬ r <+: q := fun r hr below =>
        (apart r hr p member).1 (below.trans above)
      rcases ab.shape notBelow with ⟨_, none⟩ | ⟨old, _, before, stands, earlier⟩
      · rw [between] at none
        cases none
      · obtain rfl := Option.some.inj (between.symm.trans stands)
        exact ⟨old, new, before, after, earlier.trans shape⟩

/-- What a change is at its places is all that can be told of it. -/
theorem unique {places : List (List String)} {before a b : Json} (ha : SameBut places before a)
    (hb : SameBut places before b) (ordered_a : a.Ordered) (ordered_b : b.Ordered)
    (same : ∀ p ∈ places, a.at? p = b.at? p) : a = b := by
  refine ordered_a.eq_of_alike ordered_b fun q => ?_
  by_cases inside : ∃ p ∈ places, p <+: q
  · obtain ⟨p, member, below, rfl⟩ := inside
    rw [at?_append, at?_append, same p member]
    cases (b.at? p).bind (at? below) with
    | none => exact .inl ⟨rfl, rfl⟩
    | some v => exact .inr ⟨v, v, rfl, rfl, .refl v⟩
  · have outside : ∀ p ∈ places, ¬ p <+: q := fun p member below => inside ⟨p, member, below⟩
    rcases ha.shape outside with ⟨none, first⟩ | ⟨old, x, stood, first, shape_a⟩
    · rcases hb.shape outside with ⟨_, second⟩ | ⟨_, _, stood, _⟩
      · exact .inl ⟨first, second⟩
      · cases none.symm.trans stood
    · rcases hb.shape outside with ⟨none, _⟩ | ⟨other, y, still, second, shape_b⟩
      · cases none.symm.trans stood
      · obtain rfl := Option.some.inj (stood.symm.trans still)
        exact .inr ⟨x, y, first, second, shape_a.symm.trans shape_b⟩

end SameBut

end ControllerHooks.Json
