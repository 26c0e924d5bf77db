import ControllerHooks.SortedMap

/-!
# Laws of entries

* What is found after an insertion (`Entries.find?_insert`), whatever the order of the entries.
* Of values stored under one key the last stays (`Entries.insert_over`), and values under different
  keys are stored in any order (`Entries.insert_comm`).
* Sorted entries are what collecting them gives back (`Entries.ofList_eq_self`), and they are told
  by what is found among them (`Entries.Sorted.ext`).
-/

namespace ControllerHooks

namespace Entries

variable {κ α : Type}

/-! ## Looking up -/

section
variable [DecidableEq κ]

theorem find?_eq_none_iff {k : κ} {entries : List (κ × α)} :
    find? k entries = none ↔ ∀ e ∈ entries, e.1 ≠ k := by
  induction entries with
  | nil => simp [find?]
  | cons head rest ih =>
    by_cases h : head.1 = k <;> simp [find?, h, ih]

theorem mem_of_find? {k : κ} {v : α} {entries : List (κ × α)} (h : find? k entries = some v) :
    (k, v) ∈ entries := by
  induction entries with
  | nil => simp [find?] at h
  | cons head rest ih =>
    obtain ⟨k', v'⟩ := head
    by_cases same : k' = k
    · simp only [find?, same, if_true, Option.some.injEq] at h
      simp [same, h]
    · simp only [find?, same, if_false] at h
      exact List.mem_cons_of_mem _ (ih h)

variable [Ord κ] [Std.LawfulEqOrd κ]

theorem find?_insert_self (k : κ) (v : α) (entries : List (κ × α)) :
    find? k (insert k v entries) = some v := by
  induction entries with
  | nil => simp [insert, find?]
  | cons head rest ih =>
    obtain ⟨k', v'⟩ := head
    unfold insert
    split
    · simp [find?]
    · simp [find?]
    · rename_i gt
      have other : k' ≠ k := by
        rintro rfl
        simp at gt
      simpa [find?, other] using ih

theorem find?_insert_of_ne {k l : κ} (other : l ≠ k) (v : α) (entries : List (κ × α)) :
    find? l (insert k v entries) = find? l entries := by
  induction entries with
  | nil => simp [insert, find?, other.symm]
  | cons head rest ih =>
    obtain ⟨k', v'⟩ := head
    unfold insert
    split
    · simp [find?, other.symm]
    · rename_i eq
      obtain rfl := Std.LawfulEqCmp.eq_of_compare eq
      simp [find?, other.symm]
    · simp only [find?, ih]

theorem find?_insert (k l : κ) (v : α) (entries : List (κ × α)) :
    find? l (insert k v entries) = if l = k then some v else find? l entries := by
  by_cases h : l = k
  · subst h
    simp [find?_insert_self]
  · simp [h, find?_insert_of_ne h]

end

section
variable [Ord κ] [Std.LawfulEqOrd κ]

/-! ## Storing several values -/

/-- Of two values stored under one key the later one stays. -/
theorem insert_over (k : κ) (v w : α) (entries : List (κ × α)) :
    insert k w (insert k v entries) = insert k w entries := by
  induction entries with
  | nil => simp [insert]
  | cons head rest ih =>
    obtain ⟨k', v'⟩ := head
    cases h : compare k k' <;> simp [insert, h, ih]

variable [Std.TransOrd κ]

theorem insert_comm_of_lt {k l : κ} (below : compare k l = .lt) (v w : α)
    (entries : List (κ × α)) :
    insert k v (insert l w entries) = insert l w (insert k v entries) := by
  have above : compare l k = .gt := Std.OrientedCmp.gt_of_lt below
  induction entries with
  | nil => simp [insert, below, above]
  | cons head rest ih =>
    obtain ⟨k', v'⟩ := head
    cases hl : compare l k' with
    | lt => simp [insert, hl, below, above, Std.TransCmp.lt_trans below hl]
    | eq =>
      obtain rfl := Std.LawfulEqCmp.eq_of_compare hl
      simp [insert, below, above]
    | gt => cases hk : compare k k' <;> simp [insert, hk, hl, above, ih]

/-- Values are stored under two keys in either order. -/
theorem insert_comm {k l : κ} (other : k ≠ l) (v w : α) (entries : List (κ × α)) :
    insert k v (insert l w entries) = insert l w (insert k v entries) := by
  cases order : compare k l with
  | lt => exact insert_comm_of_lt order v w entries
  | eq => exact absurd (Std.LawfulEqCmp.eq_of_compare order) other
  | gt => exact (insert_comm_of_lt (Std.OrientedCmp.lt_of_gt order) w v entries).symm

end

/-! ## Other values under the same keys -/

theorem map_insert {β : Type} [Ord κ] (f : α → β) (k : κ) (v : α) (entries : List (κ × α)) :
    (insert k v entries).map (fun e => (e.1, f e.2)) =
      insert k (f v) (entries.map fun e => (e.1, f e.2)) := by
  induction entries with
  | nil => rfl
  | cons head rest ih =>
    cases h : compare k head.1 <;> simp [insert, h, ih]

theorem find?_map {β : Type} [DecidableEq κ] (f : α → β) (k : κ) (entries : List (κ × α)) :
    find? k (entries.map fun e => (e.1, f e.2)) = (find? k entries).map f := by
  induction entries with
  | nil => rfl
  | cons head rest ih =>
    by_cases h : head.1 = k <;> simp [find?, h, ih]

/-! ## Collecting entries -/

theorem find?_append [DecidableEq κ] (k : κ) (first second : List (κ × α)) :
    find? k (first ++ second) = (find? k first).or (find? k second) := by
  induction first with
  | nil => simp [find?]
  | cons head rest ih =>
    by_cases h : head.1 = k <;> simp [find?, h, ih]

/-- Of entries with the same key the last one stays. -/
theorem find?_insertAll [DecidableEq κ] [Ord κ] [Std.LawfulEqOrd κ] (k : κ)
    (start added : List (κ × α)) :
    find? k (insertAll start added) = (find? k added.reverse).or (find? k start) := by
  induction added generalizing start with
  | nil => simp [insertAll, find?]
  | cons e rest ih =>
    have step : insertAll start (e :: rest) = insertAll (insert e.1 e.2 start) rest := rfl
    rw [step, ih, List.reverse_cons, find?_append, Option.or_assoc, find?_insert]
    by_cases h : k = e.1
    · simp [h, find?]
    · simp [h, find?, Ne.symm h]

theorem find?_ofList [DecidableEq κ] [Ord κ] [Std.LawfulEqOrd κ] (k : κ) (entries : List (κ × α)) :
    find? k (ofList entries) = find? k entries.reverse := by
  simp [ofList, find?_insertAll, find?]

theorem find?_erase [DecidableEq κ] (k l : κ) (entries : List (κ × α)) :
    find? l (erase k entries) = if l = k then none else find? l entries := by
  induction entries with
  | nil => simp [erase, find?]
  | cons head rest ih =>
    by_cases gone : head.1 = k
    · have step : erase k (head :: rest) = erase k rest := by simp [erase, gone]
      rw [step, ih]
      by_cases here : l = k
      · simp [here]
      · have other : head.1 ≠ l := fun same => here (same.symm.trans gone)
        simp [here, find?, other]
    · have step : erase k (head :: rest) = head :: erase k rest := by simp [erase, gone]
      rw [step]
      by_cases here : head.1 = l
      · have other : l ≠ k := fun same => gone (here.trans same)
        simp [find?, here, other]
      · simp only [find?, here, if_false, ih]

theorem sorted_erase [DecidableEq κ] [Ord κ] {entries : List (κ × α)} (h : Sorted entries) (k : κ) :
    Sorted (erase k entries) := List.Pairwise.filter _ h

/-- Where keys are distinct, a key has one value. -/
theorem find?_eq_of_nodup [DecidableEq κ] {entries : List (κ × α)}
    (distinct : (entries.map Prod.fst).Nodup) {k : κ} {v : α} (member : (k, v) ∈ entries) :
    find? k entries = some v := by
  induction entries with
  | nil => simp at member
  | cons head rest ih =>
    obtain ⟨fresh, distinct⟩ := List.nodup_cons.1 distinct
    rcases List.mem_cons.1 member with rfl | member
    · simp [find?]
    · have other : head.1 ≠ k := by
        rintro rfl
        exact fresh (List.mem_map.2 ⟨_, member, rfl⟩)
      simp [find?, other, ih distinct member]

theorem Sorted.keys_nodup [Ord κ] [Std.LawfulEqOrd κ] {entries : List (κ × α)}
    (h : Sorted entries) : (entries.map Prod.fst).Nodup := by
  rw [List.nodup_iff_pairwise_ne, List.pairwise_map]
  apply h.imp
  intro a b lt same
  simp [same] at lt

theorem Sorted.find?_eq [DecidableEq κ] [Ord κ] [Std.LawfulEqOrd κ] {entries : List (κ × α)}
    (h : Sorted entries) {k : κ} {v : α} (member : (k, v) ∈ entries) :
    find? k entries = some v := find?_eq_of_nodup h.keys_nodup member

theorem Sorted.nodup [Ord κ] [Std.LawfulEqOrd κ] {entries : List (κ × α)} (h : Sorted entries) :
    entries.Nodup := by
  apply h.imp
  rintro a b below rfl
  simp at below

section
variable [DecidableEq κ] [Ord κ] [Std.TransOrd κ] [Std.LawfulEqOrd κ]

/-- Sorted entries are told by what is found among them. -/
theorem Sorted.ext {first second : List (κ × α)} (h₁ : Sorted first) (h₂ : Sorted second)
    (same : ∀ k, find? k first = find? k second) : first = second := by
  have mem_iff (e : κ × α) : e ∈ first ↔ e ∈ second := by
    constructor <;> intro he
    · exact mem_of_find? ((same e.1).symm.trans (h₁.find?_eq he))
    · exact mem_of_find? ((same e.1).trans (h₂.find?_eq he))
  have perm : first.Perm second := (List.perm_ext_iff_of_nodup h₁.nodup h₂.nodup).2 mem_iff
  refine perm.eq_of_pairwise ?_ h₁ h₂
  intro a b _ _ below above
  rw [Std.OrientedCmp.gt_of_lt below] at above
  cases above

theorem Sorted.insert_eq_self {entries : List (κ × α)} (h : Sorted entries) {k : κ} {v : α}
    (found : find? k entries = some v) : Entries.insert k v entries = entries := by
  refine (h.insert k v).ext h fun l => ?_
  rw [find?_insert]
  split
  · subst_vars
    exact found.symm
  · rfl

/-- A key that is taken out is put back where it was. -/
theorem Sorted.insert_erase {entries : List (κ × α)} (h : Sorted entries) {k : κ} {v : α}
    (found : find? k entries = some v) : Entries.insert k v (erase k entries) = entries := by
  refine ((sorted_erase h k).insert k v).ext h fun l => ?_
  rw [find?_insert, find?_erase]
  split
  · subst_vars
    exact found.symm
  · rfl

/-- A new key is taken out again. -/
theorem Sorted.erase_insert {entries : List (κ × α)} (h : Sorted entries) {k : κ} (v : α)
    (missing : find? k entries = none) : erase k (Entries.insert k v entries) = entries := by
  refine (sorted_erase (h.insert k v) k).ext h fun l => ?_
  rw [find?_erase, find?_insert]
  split
  · subst_vars
    exact missing.symm
  · rfl

/-- After a key is set there are its entry and those of the other keys. -/
theorem Sorted.insert_perm {entries : List (κ × α)} (h : Sorted entries) (k : κ) (v : α) :
    (Entries.insert k v entries).Perm ((k, v) :: erase k entries) := by
  have nodup : ((k, v) :: erase k entries).Nodup :=
    List.nodup_cons.2 ⟨by simp [erase], h.nodup.filter _⟩
  refine (List.perm_ext_iff_of_nodup (h.insert k v).nodup nodup).2 ?_
  rintro ⟨l, w⟩
  have found : (l, w) ∈ Entries.insert k v entries ↔
      find? l (Entries.insert k v entries) = some w := ⟨(h.insert k v).find?_eq, mem_of_find?⟩
  have kept : (l, w) ∈ entries ↔ find? l entries = some w := ⟨h.find?_eq, mem_of_find?⟩
  rw [found, find?_insert]
  by_cases here : l = k
  · simp [here, erase, eq_comm]
  · simp [here, erase, ← kept]

/-- After several keys are set there are their entries and those of the other keys. -/
theorem Sorted.insertAll_perm {start added : List (κ × α)} (h : Sorted start)
    (distinct : (added.map Prod.fst).Nodup) :
    (Entries.insertAll start added).Perm
      (added ++ start.filter fun e => e.1 ∉ added.map Prod.fst) := by
  induction added generalizing start with
  | nil =>
    have all : (start.filter fun e => e.1 ∉ ([] : List (κ × α)).map Prod.fst) = start :=
      List.filter_eq_self.2 (by simp)
    rw [all]
    exact .refl start
  | cons e rest ih =>
    obtain ⟨fresh, distinct⟩ := List.nodup_cons.1 distinct
    have later := ih (h.insert e.1 e.2) distinct
    have first := (h.insert_perm e.1 e.2).filter fun f => f.1 ∉ rest.map Prod.fst
    rw [List.filter_cons_of_pos (by simpa using fresh), erase, List.filter_filter] at first
    refine (later.trans (first.append_left rest)).trans ?_
    have same : (start.filter fun f => decide (f.1 ∉ rest.map Prod.fst) && decide (f.1 ≠ e.1)) =
        start.filter fun f => f.1 ∉ (e :: rest).map Prod.fst := by
      apply List.filter_congr
      intro f _
      rw [Bool.eq_iff_iff]
      simp only [Bool.and_eq_true, decide_eq_true_eq, List.map_cons, List.mem_cons, not_or]
      exact and_comm
    rw [same]
    exact List.perm_middle

end

variable [Ord κ] [Std.TransOrd κ]

/-- An entry whose key is greater than all others goes to the end. -/
theorem insert_eq_append {k : κ} {v : α} {entries : List (κ × α)}
    (above : ∀ e ∈ entries, compare e.1 k = .lt) : insert k v entries = entries ++ [(k, v)] := by
  induction entries with
  | nil => rfl
  | cons head rest ih =>
    have gt : compare k head.1 = .gt := Std.OrientedCmp.gt_of_lt (above head List.mem_cons_self)
    simp [insert, gt, ih fun e he => above e (List.mem_cons_of_mem _ he)]

theorem insertAll_eq_append {start added : List (κ × α)} (h : Sorted (start ++ added)) :
    insertAll start added = start ++ added := by
  induction added generalizing start with
  | nil => simp [insertAll]
  | cons e rest ih =>
    have above : ∀ x ∈ start, compare x.1 e.1 = .lt := by
      intro x hx
      obtain ⟨_, _, across⟩ := List.pairwise_append.1 h
      exact across x hx e List.mem_cons_self
    have step : insertAll start (e :: rest) = insertAll (start ++ [e]) rest := by
      simp [insertAll, insert_eq_append above]
    rw [step, ih (by simpa using h)]
    simp

theorem ofList_eq_self {entries : List (κ × α)} (h : Sorted entries) : ofList entries = entries :=
  insertAll_eq_append (show Sorted ([] ++ entries) from h)

/-- Each key occurs once, so it makes no difference from which end it is looked for. -/
theorem Sorted.find?_reverse [DecidableEq κ] [Std.LawfulEqOrd κ]
    {entries : List (κ × α)} (h : Sorted entries) (k : κ) :
    find? k entries.reverse = find? k entries := by
  rw [← find?_ofList, ofList_eq_self h]

end Entries

namespace SortedMap

variable {κ α : Type} [Ord κ] [Std.TransOrd κ] [Std.LawfulEqOrd κ]

theorem insert_over (m : SortedMap κ α) (k : κ) (v w : α) :
    (m.insert k v).insert k w = m.insert k w :=
  SortedMap.ext (Entries.insert_over k v w m.entries)

theorem get?_insert [DecidableEq κ] (m : SortedMap κ α) (k l : κ) (v : α) :
    (m.insert k v).get? l = if l = k then some v else m.get? l :=
  Entries.find?_insert k l v m.entries

theorem ofList_entries (m : SortedMap κ α) : ofList m.entries = m :=
  SortedMap.ext (Entries.ofList_eq_self m.sorted)

end SortedMap

end ControllerHooks
