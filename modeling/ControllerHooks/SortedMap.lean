/-!
# Sorted maps

Keys and values in a list, in the order of the keys and each key once. The operations are stated
on plain lists of entries, where free-form documents use them, and then on `SortedMap`, which
carries the order in its type.

* `Entries.insert` puts an entry where its key belongs, over an older one.
* `Entries.Sorted` is the order, kept by `insert` (`Entries.Sorted.insert`).
-/

namespace ControllerHooks

namespace Entries

variable {κ α β : Type}

/-- The value of the first entry with this key. -/
def find? [DecidableEq κ] (k : κ) : List (κ × α) → Option α
  | [] => none
  | (k', v) :: rest => if k' = k then some v else find? k rest

def contains [DecidableEq κ] (k : κ) (entries : List (κ × α)) : Bool := (find? k entries).isSome

/-- Set the value of a key: in place where the key is, else before the first greater key. -/
def insert [Ord κ] (k : κ) (v : α) : List (κ × α) → List (κ × α)
  | [] => [(k, v)]
  | (k', v') :: rest =>
    match compare k k' with
    | .lt => (k, v) :: (k', v') :: rest
    | .eq => (k, v) :: rest
    | .gt => (k', v') :: insert k v rest

def erase [DecidableEq κ] (k : κ) (entries : List (κ × α)) : List (κ × α) :=
  entries.filter fun e => e.1 ≠ k

/-- Entries added one after another: of two with the same key the later stays. -/
def insertAll [Ord κ] (start added : List (κ × α)) : List (κ × α) :=
  added.foldl (fun entries e => insert e.1 e.2 entries) start

def ofList [Ord κ] (entries : List (κ × α)) : List (κ × α) := insertAll [] entries

/-- The keys strictly increase. -/
def Sorted [Ord κ] (entries : List (κ × α)) : Prop :=
  entries.Pairwise fun a b => compare a.1 b.1 = .lt

instance [Ord κ] (entries : List (κ × α)) : Decidable (Sorted entries) :=
  inferInstanceAs (Decidable (entries.Pairwise _))

theorem mem_insert [Ord κ] {k : κ} {v : α} {entries : List (κ × α)} {e : κ × α}
    (h : e ∈ insert k v entries) : e = (k, v) ∨ e ∈ entries := by
  induction entries with
  | nil => exact .inl (by simpa [insert] using h)
  | cons head rest ih =>
    obtain ⟨k', v'⟩ := head
    unfold insert at h
    split at h
    · rcases List.mem_cons.1 h with rfl | h
      · exact .inl rfl
      · exact .inr h
    · rcases List.mem_cons.1 h with rfl | h
      · exact .inl rfl
      · exact .inr (List.mem_cons_of_mem _ h)
    · rcases List.mem_cons.1 h with rfl | h
      · exact .inr List.mem_cons_self
      · exact (ih h).imp_right (List.mem_cons_of_mem _)

section
variable [Ord κ] [Std.TransOrd κ] [Std.LawfulEqOrd κ]

theorem Sorted.insert {entries : List (κ × α)} (h : Sorted entries) (k : κ) (v : α) :
    Sorted (Entries.insert k v entries) := by
  induction entries with
  | nil => simp [Sorted, Entries.insert]
  | cons head rest ih =>
    obtain ⟨k', v'⟩ := head
    obtain ⟨below, restSorted⟩ := List.pairwise_cons.1 h
    unfold Entries.insert
    split
    · rename_i lt
      refine List.pairwise_cons.2 ⟨fun e he => ?_, h⟩
      rcases List.mem_cons.1 he with rfl | he
      · exact lt
      · exact Std.TransCmp.lt_trans lt (below e he)
    · rename_i eq
      obtain rfl := Std.LawfulEqCmp.eq_of_compare eq
      exact List.pairwise_cons.2 ⟨below, restSorted⟩
    · rename_i gt
      refine List.pairwise_cons.2 ⟨fun e he => ?_, ih restSorted⟩
      rcases mem_insert he with rfl | he
      · exact Std.OrientedCmp.lt_of_gt gt
      · exact below e he

theorem Sorted.insertAll {start : List (κ × α)} (h : Sorted start) (added : List (κ × α)) :
    Sorted (Entries.insertAll start added) := by
  induction added generalizing start with
  | nil => exact h
  | cons e rest ih => exact ih (h.insert e.1 e.2)

theorem sorted_ofList (entries : List (κ × α)) : Sorted (ofList entries) :=
  Sorted.insertAll List.Pairwise.nil entries

end

end Entries

/-- Entries in the order of their keys, each key once. -/
structure SortedMap (κ α : Type) [Ord κ] where
  entries : List (κ × α)
  sorted : Entries.Sorted entries
  deriving DecidableEq

namespace SortedMap

variable {κ α β : Type} [Ord κ]

@[ext] theorem ext {m n : SortedMap κ α} (h : m.entries = n.entries) : m = n := by
  cases m; cases n; cases h; rfl

def empty : SortedMap κ α := ⟨[], List.Pairwise.nil⟩

instance : Inhabited (SortedMap κ α) := ⟨empty⟩

def isEmpty (m : SortedMap κ α) : Bool := m.entries.isEmpty

def size (m : SortedMap κ α) : Nat := m.entries.length

def keys (m : SortedMap κ α) : List κ := m.entries.map Prod.fst

def get? [DecidableEq κ] (m : SortedMap κ α) (k : κ) : Option α := Entries.find? k m.entries

/-- The same keys with other values. -/
def mapValues (f : α → β) (m : SortedMap κ α) : SortedMap κ β :=
  ⟨m.entries.map fun e => (e.1, f e.2), by
    simpa [Entries.Sorted, List.pairwise_map] using m.sorted⟩

variable [Std.TransOrd κ] [Std.LawfulEqOrd κ]

def insert (m : SortedMap κ α) (k : κ) (v : α) : SortedMap κ α :=
  ⟨Entries.insert k v m.entries, m.sorted.insert k v⟩

def ofList (entries : List (κ × α)) : SortedMap κ α :=
  ⟨Entries.ofList entries, Entries.sorted_ofList entries⟩

end SortedMap

end ControllerHooks
