import ControllerHooks.Payload
import ControllerHooks.Proofs.Decode.Readers

/-!
# What reading a record does

A record is filled member by member. `Record.Fills` is that walk without its bookkeeping, and both
kinds of records take it: a loose one always, a strict one when no field is given twice.

* `Record.readLoose_eq_ok_iff`, `Record.fills_of_ofMembers`, `Record.ofMembers_of_fills` tie it to
  the readers.
* `Record.Fills.invariant`: what every field keeps, the record keeps.
* `Record.Fills.get`, `Record.Fills.part_holds`: a part of the record comes from the members with
  its name only.
* `Record.fills_of_read`: a record that is given by position is filled alike.
-/

namespace ControllerHooks

namespace Field

variable {α β ρ : Type}

/-- Whether the field can be read does not depend on the record. -/
def IsSteady (f : Field ρ) : Prop :=
  ∀ r next d, f.fill r d = .ok next → ∀ s, ∃ last, f.fill s d = .ok last

theorem isSteady_set {name : String} {required : Bool} {read : Reader α} {put : ρ → α → ρ} :
    IsSteady ⟨name, required, set read put⟩ := by
  intro r next d h s
  obtain ⟨x, read, _⟩ := map_eq_ok.1 h
  exact ⟨put s x, map_eq_ok.2 ⟨x, read, rfl⟩⟩

/-- The field leaves a part of the record alone. -/
def Keeps (part : ρ → β) (f : Field ρ) : Prop :=
  ∀ r d next, f.fill r d = .ok next → part next = part r

theorem keeps_set {name : String} {required : Bool} {read : Reader α} {put : ρ → α → ρ}
    {part : ρ → β} (h : ∀ r x, part (put r x) = part r) :
    Keeps part ⟨name, required, set read put⟩ := by
  intro r d next filled
  obtain ⟨x, _, rfl⟩ := map_eq_ok.1 filled
  exact h r x

end Field

/-- The document gives something for a field: as a member with its name, or as the item at its
place. -/
inductive Doc.Gives (name : String) (i : Nat) : Doc → Doc → Prop
  | named {members : List (Key × Doc)} {close : Close} {d : Doc}
    (inside : (.text name, d) ∈ members) : Gives name i (.object members close) d
  | placed {items : List Doc} {close : Close} {d : Doc} (item : items[i]? = some d) :
    Gives name i (.array items close) d

namespace Record

open Reader (readKey_eq_ok readFlaw_eq_ok)

variable {ρ : Type}

/-- What one more member makes of a record, whatever else is given. -/
def place (fields : List (Field ρ)) (other : ρ → String → Doc → Except DecodeError ρ) (r : ρ)
    (name : String) (d : Doc) : Except DecodeError ρ :=
  match field? fields name with
  | some f => f.fill r d
  | none => other r name d

/-- Reading the members one after another takes one record to another. -/
inductive Fills (fields : List (Field ρ)) (other : ρ → String → Doc → Except DecodeError ρ) :
    ρ → List (Key × Doc) → ρ → Prop
  | nil (r : ρ) : Fills fields other r [] r
  | cons {r next last : ρ} {name : String} {d : Doc} {rest : List (Key × Doc)} :
    place fields other r name d = .ok next → Fills fields other next rest last →
    Fills fields other r ((.text name, d) :: rest) last

section
variable {fields : List (Field ρ)} {other : ρ → String → Doc → Except DecodeError ρ}

theorem field?_mem {name : String} {f : Field ρ} (h : field? fields name = some f) :
    f ∈ fields ∧ f.name = name :=
  ⟨List.mem_of_find?_eq_some h, by simpa using List.find?_some h⟩

theorem place_known {r : ρ} {name : String} {d : Doc} {f : Field ρ}
    (known : field? fields name = some f) : place fields other r name d = f.fill r d := by
  simp only [place, known]

theorem place_unknown {r : ρ} {name : String} {d : Doc} (unknown : field? fields name = none) :
    place fields other r name d = other r name d := by
  simp only [place, unknown]

namespace Fills

theorem cons_iff {r last : ρ} {key : Key} {d : Doc} {rest : List (Key × Doc)} :
    Fills fields other r ((key, d) :: rest) last ↔ ∃ name next, key = .text name ∧
      place fields other r name d = .ok next ∧ Fills fields other next rest last := by
  constructor
  · rintro (_ | ⟨placed, tail⟩)
    exact ⟨_, _, rfl, placed, tail⟩
  · rintro ⟨name, next, rfl, placed, tail⟩
    exact .cons placed tail

theorem append {r mid last : ρ} {first second : List (Key × Doc)}
    (head : Fills fields other r first mid) (tail : Fills fields other mid second last) :
    Fills fields other r (first ++ second) last := by
  induction head with
  | nil => exact tail
  | cons placed _ ih => exact .cons placed (ih tail)

/-- What every member keeps, the record keeps. -/
theorem invariant {Inv : ρ → Prop} {Good : Doc → Prop}
    (fill : ∀ f ∈ fields, ∀ {r d next}, Good d → Inv r → f.fill r d = .ok next → Inv next)
    (keep : ∀ {r name d next}, field? fields name = none → Good d → Inv r →
      other r name d = .ok next → Inv next)
    {r last : ρ} {members : List (Key × Doc)} (h : Fills fields other r members last)
    (good : ∀ m ∈ members, Good m.2) (start : Inv r) : Inv last := by
  induction h with
  | nil => exact start
  | @cons r next last name d rest placed _ ih =>
    obtain ⟨head, tail⟩ := List.forall_mem_cons.1 good
    refine ih tail ?_
    cases known : field? fields name with
    | some f =>
      rw [place_known known] at placed
      exact fill f (field?_mem known).1 head start placed
    | none =>
      rw [place_unknown known] at placed
      exact keep known head start placed

/-- A part of the record is what it was, or what a member with its name tells. -/
theorem get {β : Type} (part : ρ → β) (Tells : Doc → β → Prop) {key : String} {own : Field ρ}
    (known : field? fields key = some own)
    (tells : ∀ {r d next}, own.fill r d = .ok next → Tells d (part next))
    (fill : ∀ f ∈ fields, f.name ≠ key → f.Keeps part)
    (keep : ∀ {r name d next}, other r name d = .ok next → part next = part r)
    {r last : ρ} {members : List (Key × Doc)} (h : Fills fields other r members last) :
    (∀ m ∈ members, m.1 ≠ .text key) ∧ part last = part r ∨
      ∃ d, (.text key, d) ∈ members ∧ Tells d (part last) := by
  induction h with
  | nil => exact .inl ⟨by simp, rfl⟩
  | @cons r next last name d rest placed _ ih =>
    rcases ih with ⟨absent, same⟩ | ⟨e, member, told⟩
    · by_cases here : name = key
      · subst here
        rw [place_known known] at placed
        exact .inr ⟨d, List.mem_cons_self, same ▸ tells placed⟩
      · refine .inl ⟨List.forall_mem_cons.2 ⟨by simp [here], absent⟩, same.trans ?_⟩
        cases found : field? fields name with
        | some f =>
          rw [place_known found] at placed
          obtain ⟨member, own⟩ := field?_mem found
          exact fill f member (own ▸ here) _ _ _ placed
        | none =>
          rw [place_unknown found] at placed
          exact keep placed
    · exact .inr ⟨e, List.mem_cons_of_mem _ member, told⟩

/-- What holds of a part of the blank record, and of whatever is read for it, holds at the end. -/
theorem part_holds {β : Type} (P : β → Prop) (part : ρ → β) (key : String) {required : Bool}
    {read : Reader β} {put : ρ → β → ρ} {r last : ρ} {members : List (Key × Doc)}
    (h : Fills fields other r members last)
    (known : field? fields key = some ⟨key, required, Field.set read put⟩)
    (own : ∀ r x, part (put r x) = x)
    (fill : ∀ f ∈ fields, f.name ≠ key → f.Keeps part)
    (keep : ∀ {r name d next}, other r name d = .ok next → part next = part r)
    (start : P (part r)) (told : ∀ m ∈ members, ∀ x, read m.2 = .ok x → P x) : P (part last) := by
  have tells {r next : ρ} {d : Doc} (filled : Field.set read put r d = .ok next) :
      read d = .ok (part next) := by
    obtain ⟨x, read, rfl⟩ := map_eq_ok.1 filled
    rw [own, read]
  rcases h.get part (fun d x => read d = .ok x) known tells fill keep with
    ⟨_, same⟩ | ⟨d, member, read⟩
  · rwa [same]
  · exact told _ member _ read

/-- Whether a member can be read does not depend on what has been read before it. -/
def Steady (fields : List (Field ρ)) (other : ρ → String → Doc → Except DecodeError ρ) : Prop :=
  ∀ {r next name d}, place fields other r name d = .ok next →
    ∀ s, ∃ last, place fields other s name d = .ok last

theorem steady_of_fields (fill : ∀ f ∈ fields, f.IsSteady)
    (keep : ∀ {r next name d}, other r name d = .ok next → ∀ s, ∃ last, other s name d = .ok last) :
    Steady fields other := by
  intro r next name d placed s
  cases known : field? fields name with
  | some f =>
    rw [place_known known] at placed ⊢
    exact fill f (field?_mem known).1 r next d placed s
  | none =>
    rw [place_unknown known] at placed ⊢
    exact keep placed s

/-- Members can be read together when each of them can be read among others. -/
theorem of_members (steady : Steady fields other) {members : List (Key × Doc)}
    (h : ∀ m ∈ members, ∃ r last, Fills fields other r [m] last) (r : ρ) :
    ∃ last, Fills fields other r members last := by
  induction members generalizing r with
  | nil => exact ⟨r, .nil r⟩
  | cons m rest ih =>
    obtain ⟨⟨_, _, head⟩, tail⟩ := List.forall_mem_cons.1 h
    obtain ⟨key, d⟩ := m
    obtain ⟨name, _, rfl, placed, _⟩ := cons_iff.1 head
    obtain ⟨next, placed⟩ := steady placed r
    obtain ⟨last, later⟩ := ih tail next
    exact ⟨last, .cons placed later⟩

theorem members {r last : ρ} {members : List (Key × Doc)} (h : Fills fields other r members last) :
    ∀ m ∈ members, ∃ r last, Fills fields other r [m] last := by
  induction h with
  | nil => simp
  | cons placed _ ih =>
    exact List.forall_mem_cons.2 ⟨⟨_, _, .cons placed (.nil _)⟩, ih⟩

/-! ## Members that were written -/

section
variable {α β : Type} {origin : Origin} {name : String}

theorem one {r next : ρ} {f : Field ρ} {v : Json} (known : field? fields name = some f)
    (filled : f.fill r (Doc.ofJson origin v) = .ok next) :
    Fills fields other r (Doc.ofMembers origin [(name, v)]) next :=
  .cons ((place_known known).trans filled) (.nil next)

/-- A member of a field that takes any value its reader takes. -/
theorem given {r next : ρ} {own : String} {required : Bool} {read : Reader α} {put : ρ → α → ρ}
    {v : Json} {x : α} (known : field? fields name = some ⟨own, required, Field.set read put⟩)
    (read_back : read (Doc.ofJson origin v) = .ok x) (filled : put r x = next) :
    Fills fields other r (Doc.ofMembers origin [(name, v)]) next :=
  one known (by simp [Field.set, read_back, filled])

theorem present {r : ρ} {read : Reader α} {put : ρ → Option α → ρ} {v : Json} {x : α}
    (known : field? fields name = some (.optional name read put)) (notNull : v ≠ .null)
    (read_back : read (Doc.ofJson origin v) = .ok x) :
    Fills fields other r (Doc.ofMembers origin [(name, v)]) (put r (some x)) :=
  one known (by simp [Field.optional, Field.set, Reader.optional_ofJson notNull read_back])

/-- A member that is written only when it is there is read back, and otherwise left blank. -/
theorem optional {r next : ρ} {read : Reader α} {put : ρ → Option α → ρ} {toJson : β → Json}
    {result : β → α} {x : Option β}
    (known : field? fields name = some (.optional name read put))
    (restores : ∀ y, x = some y → read.Restores toJson y (result y))
    (unset : put r none = r) (filled : put r (x.map result) = next) :
    Fills fields other r (Doc.ofMembers origin (Json.optional name toJson x)) next := by
  subst filled
  cases x with
  | none => simpa [Json.optional, Doc.ofMembers, unset] using Fills.nil r
  | some y =>
    have back := restores y rfl
    exact .present known back.notNull (back.read_back origin)

/-- A member whose value is read back as it was. -/
theorem kept {r next : ρ} {read : Reader α} {put : ρ → Option α → ρ} {toJson : α → Json}
    {x : Option α} (known : field? fields name = some (.optional name read put))
    (restores : ∀ y, x = some y → read.Restores toJson y y)
    (unset : put r none = r) (filled : put r x = next) :
    Fills fields other r (Doc.ofMembers origin (Json.optional name toJson x)) next := by
  refine .optional known restores unset ?_
  rwa [Option.map_id']

/-- A member of a kind whose values are all read back. -/
theorem restored {r next : ρ} {read : Reader α} {put : ρ → Option α → ρ} {toJson : α → Json}
    {x : Option α} (known : field? fields name = some (.optional name read put))
    (restores : ∀ y, read.Restores toJson y y)
    (unset : put r none = r) (filled : put r x = next) :
    Fills fields other r (Doc.ofMembers origin (Json.optional name toJson x)) next :=
  .kept known (fun y _ => restores y) unset filled

end

end Fills

/-! ## Loose records -/

theorem ignore_eq_ok_iff {r next : ρ} {name : String} {d : Doc} :
    ignore r name d = .ok next ↔ (∃ u, Reader.ignored d = .ok u) ∧ next = r := by
  simp only [ignore, bind_eq_ok, pure_eq_ok_value, Except.ok.injEq, exists_and_right]
  exact and_congr_right fun _ => eq_comm

theorem ignore_keeps {β : Type} {part : ρ → β} {r next : ρ} {name : String} {d : Doc}
    (h : ignore r name d = .ok next) : part next = part r := by
  rw [(ignore_eq_ok_iff.1 h).2]

theorem steady_ignore (fill : ∀ f ∈ fields, f.IsSteady) : Fills.Steady fields ignore := by
  apply Fills.steady_of_fields fill
  intro r next name d kept s
  obtain ⟨passed, _⟩ := ignore_eq_ok_iff.1 kept
  exact ⟨s, ignore_eq_ok_iff.2 ⟨passed, rfl⟩⟩

theorem foldlM_looseMember_eq_ok_iff {members : List (Key × Doc)} {r last : ρ} :
    members.foldlM (looseMember fields) r = .ok last ↔ Fills fields ignore r members last := by
  induction members generalizing r with
  | nil =>
    simp only [List.foldlM_nil, pure_eq_ok_value, Except.ok.injEq]
    constructor
    · rintro rfl
      exact .nil r
    · rintro ⟨⟩
      rfl
  | cons m rest ih =>
    obtain ⟨key, d⟩ := m
    simp only [List.foldlM_cons, bind_eq_ok, ih, looseMember, readKey_eq_ok, Fills.cons_iff, place]
    constructor
    · rintro ⟨next, ⟨name, named, read⟩, later⟩
      exact ⟨name, next, named, read, later⟩
    · rintro ⟨name, next, named, read, later⟩
      exact ⟨next, ⟨name, named, read⟩, later⟩

theorem readLoose_eq_ok_iff {name : String} {blank r : ρ} {d : Doc} :
    readLoose name fields blank d = .ok r ↔ ∃ members close, d = .object members close ∧
      Fills fields ignore blank members r ∧ close.objectFlaw = none := by
  cases d with
  | object members close =>
    simp only [readLoose, bind_eq_ok, foldlM_looseMember_eq_ok_iff, readFlaw_eq_ok,
      pure_eq_ok_value, Except.ok.injEq, Doc.object.injEq]
    constructor
    · rintro ⟨_, fills, _, closed, rfl⟩
      exact ⟨_, _, ⟨rfl, rfl⟩, fills, closed⟩
    · rintro ⟨_, _, ⟨rfl, rfl⟩, fills, closed⟩
      exact ⟨_, fills, (), closed, rfl⟩
  | flawed | null | bool | number | string | array | buried => simp [readLoose]

/-! ## Strict records -/

theorem member_eq_ok_iff {r next : ρ} {seen given : List String} {key : Key} {d : Doc} :
    member fields other (r, seen) (key, d) = .ok (next, given) ↔ ∃ name, key = .text name ∧
      place fields other r name d = .ok next ∧
      ((field? fields name).isSome → name ∉ seen) ∧
      given = if (field? fields name).isSome then name :: seen else seen := by
  simp only [member, bind_eq_ok, readKey_eq_ok, place]
  refine exists_congr fun name => and_congr_right fun _ => ?_
  cases field? fields name with
  | some f =>
    by_cases repeated : name ∈ seen
    · simp [repeated]
    · simp only [repeated, if_false, pure_eq_ok_value, bind_eq_ok, Except.ok.injEq,
        Prod.mk.injEq, Option.isSome_some, not_false_eq_true, implies_true, true_and, if_true]
      constructor
      · rintro ⟨_, read, rfl, noted⟩
        exact ⟨read, noted.symm⟩
      · rintro ⟨read, noted⟩
        exact ⟨next, read, rfl, noted.symm⟩
  | none =>
    simp only [bind_eq_ok, pure_eq_ok_value, Except.ok.injEq, Prod.mk.injEq, Option.isSome_none,
      Bool.false_eq_true, if_false, false_implies, true_and]
    constructor
    · rintro ⟨_, read, rfl, noted⟩
      exact ⟨read, noted.symm⟩
    · rintro ⟨read, noted⟩
      exact ⟨next, read, rfl, noted.symm⟩

theorem fills_of_foldlM {members : List (Key × Doc)} {r last : ρ} {seen given : List String}
    (h : members.foldlM (member fields other) (r, seen) = .ok (last, given)) :
    Fills fields other r members last := by
  induction members generalizing r seen with
  | nil =>
    simp only [List.foldlM_nil, pure_eq_ok_value, Except.ok.injEq, Prod.mk.injEq] at h
    exact h.1 ▸ .nil r
  | cons m rest ih =>
    obtain ⟨key, d⟩ := m
    simp only [List.foldlM_cons, bind_eq_ok] at h
    obtain ⟨⟨next, seen⟩, read, later⟩ := h
    obtain ⟨name, named, read, _⟩ := member_eq_ok_iff.1 read
    exact Fills.cons_iff.2 ⟨name, next, named, read, ih later⟩

/-- When no name is given twice, every member is read, and every field among them is noted. -/
theorem foldlM_of_fills {members : List (Key × Doc)} {r last : ρ} {seen : List String}
    (h : Fills fields other r members last) (distinct : (members.map Prod.fst).Nodup)
    (fresh : ∀ name ∈ seen, .text name ∉ members.map Prod.fst) :
    ∃ given, members.foldlM (member fields other) (r, seen) = .ok (last, given) ∧
      ∀ name, name ∈ seen ∨ .text name ∈ members.map Prod.fst ∧ (field? fields name).isSome →
        name ∈ given := by
  induction members generalizing r seen with
  | nil =>
    cases h
    exact ⟨seen, rfl, by simp⟩
  | cons m rest ih =>
    obtain ⟨key, d⟩ := m
    obtain ⟨name, next, rfl, read, tail⟩ := Fills.cons_iff.1 h
    obtain ⟨first, distinct⟩ := List.nodup_cons.1 distinct
    let noted := if (field? fields name).isSome then name :: seen else seen
    have old {n : String} (h : n ∈ noted) : n = name ∨ n ∈ seen := by
      simp only [noted] at h
      split at h
      · exact List.mem_cons.1 h
      · exact .inr h
    have fresh' : ∀ n ∈ noted, .text n ∉ rest.map Prod.fst := by
      intro n hn
      rcases old hn with rfl | hn
      · exact first
      · exact fun later => fresh n hn (List.mem_cons_of_mem _ later)
    obtain ⟨given, later, all⟩ := ih tail distinct fresh'
    have new : (field? fields name).isSome → name ∉ seen := by
      intro _ hn
      exact fresh name hn List.mem_cons_self
    have head : member fields other (r, seen) (.text name, d) = .ok (next, noted) :=
      member_eq_ok_iff.2 ⟨name, rfl, read, new, rfl⟩
    refine ⟨given, by simp only [List.foldlM_cons, head, ok_bind, later], ?_⟩
    intro n hn
    apply all n
    rcases hn with hn | ⟨hn, known⟩
    · refine .inl ?_
      simp only [noted]
      split
      · exact List.mem_cons_of_mem _ hn
      · exact hn
    · rcases List.mem_cons.1 hn with here | hn
      · obtain rfl : n = name := by simpa using here
        exact .inl (by simp [noted, known])
      · exact .inr ⟨hn, known⟩

theorem complete_eq_ok {seen : List String} {u : Unit} :
    complete fields seen = .ok u ↔ ∀ f ∈ fields, f.isRequired = true → f.name ∈ seen := by
  unfold complete
  split
  · rename_i f found
    have missing := List.find?_some found
    simp only [Bool.and_eq_true, decide_eq_true_eq] at missing
    simp only [reduceCtorEq, false_iff]
    intro h
    have given := h f (List.mem_of_find?_eq_some found) missing.1
    exact missing.2 given
  · rename_i none
    simpa using none

theorem fills_of_ofMembers {blank r : ρ} {members : List (Key × Doc)} {close : Close}
    (h : ofMembers fields other blank members close = .ok r) :
    Fills fields other blank members r ∧ close.objectFlaw = none := by
  simp only [ofMembers, bind_eq_ok, readFlaw_eq_ok, pure_eq_ok_value, Except.ok.injEq] at h
  obtain ⟨⟨last, seen⟩, read, _, closed, _, _, rfl⟩ := h
  exact ⟨fills_of_foldlM read, closed⟩

/-- Only fields that are given are noted. -/
theorem given_of_foldlM {members : List (Key × Doc)} {r last : ρ} {seen given : List String}
    (h : members.foldlM (member fields other) (r, seen) = .ok (last, given)) :
    ∀ name ∈ given, name ∈ seen ∨ .text name ∈ members.map Prod.fst := by
  induction members generalizing r seen with
  | nil =>
    simp only [List.foldlM_nil, pure_eq_ok_value, Except.ok.injEq, Prod.mk.injEq] at h
    exact fun name hn => .inl (h.2 ▸ hn)
  | cons m rest ih =>
    obtain ⟨key, d⟩ := m
    simp only [List.foldlM_cons, bind_eq_ok] at h
    obtain ⟨⟨next, noted⟩, read, later⟩ := h
    obtain ⟨first, rfl, _, _, rfl⟩ := member_eq_ok_iff.1 read
    intro name hn
    rcases ih later name hn with hn | hn
    · split at hn
      · rcases List.mem_cons.1 hn with rfl | hn
        · exact .inr List.mem_cons_self
        · exact .inl hn
      · exact .inl hn
    · exact .inr (List.mem_cons_of_mem _ hn)

theorem required_of_ofMembers {blank r : ρ} {members : List (Key × Doc)} {close : Close}
    (h : ofMembers fields other blank members close = .ok r) :
    ∀ f ∈ fields, f.isRequired = true → .text f.name ∈ members.map Prod.fst := by
  simp only [ofMembers, bind_eq_ok, readFlaw_eq_ok, pure_eq_ok_value, Except.ok.injEq] at h
  obtain ⟨⟨last, seen⟩, read, _, _, _, all, rfl⟩ := h
  intro f hf required
  have noted := complete_eq_ok.1 all f hf required
  exact (given_of_foldlM read f.name noted).resolve_left List.not_mem_nil

theorem ofMembers_of_fills {blank r : ρ} {members : List (Key × Doc)} {close : Close}
    (h : Fills fields other blank members r) (distinct : (members.map Prod.fst).Nodup)
    (given : ∀ f ∈ fields, f.isRequired = true → .text f.name ∈ members.map Prod.fst)
    (closed : close.objectFlaw = none) :
    ofMembers fields other blank members close = .ok r := by
  have fresh : ∀ name ∈ ([] : List String), Key.text name ∉ members.map Prod.fst := by simp
  obtain ⟨seen, read, noted⟩ := foldlM_of_fills h distinct fresh
  have known (f : Field ρ) (hf : f ∈ fields) : (field? fields f.name).isSome :=
    List.find?_isSome.2 ⟨f, hf, by simp⟩
  have all : complete fields seen = .ok () := by
    apply complete_eq_ok.2
    intro f hf required
    exact noted f.name (.inr ⟨given f hf required, known f hf⟩)
  have ends : Reader.wellFormed (Doc.readFlaw close.objectFlaw) = .ok () := readFlaw_eq_ok.2 closed
  simp only [ofMembers, read, ok_bind, ends, all, pure_eq_ok_value]

/-! ### Arrays -/

theorem fills_of_ofItems {expected : String} {position : Nat} {wanted : List (Field ρ)}
    {r last : ρ} {items : List Doc} {close : Close}
    (known : ∀ f ∈ wanted, field? fields f.name = some f)
    (h : ofItems expected position wanted r items close = .ok last) :
    ∃ members, Fills fields other r members last ∧ ∀ m ∈ members, m.2 ∈ items := by
  induction wanted generalizing position r items with
  | nil =>
    obtain ⟨_, _, same⟩ := bind_eq_ok.1 h
    obtain rfl := Except.ok.inj same
    exact ⟨[], .nil r, by simp⟩
  | cons f wanted ih =>
    obtain ⟨own, known⟩ := List.forall_mem_cons.1 known
    cases items with
    | nil =>
      simp only [ofItems, bind_eq_ok] at h
      obtain ⟨_, _, h⟩ := h
      split at h
      · obtain ⟨_, failed, _⟩ := bind_eq_ok.1 h
        cases failed
      · exact ih known h
    | cons d rest =>
      obtain ⟨next, filled, h⟩ := bind_eq_ok.1 h
      obtain ⟨members, fills, inside⟩ := ih known h
      have placed : place fields other r f.name d = .ok next := (place_known own).trans filled
      refine ⟨(.text f.name, d) :: members, .cons placed fills, ?_⟩
      refine List.forall_mem_cons.2 ⟨List.mem_cons_self, ?_⟩
      intro m hm
      exact List.mem_cons_of_mem _ (inside m hm)

/-- An item is taken by the field at its place. -/
theorem filled_of_ofItems {expected : String} {position : Nat} {wanted : List (Field ρ)}
    {r last : ρ} {items : List Doc} {close : Close}
    (h : ofItems expected position wanted r items close = .ok last) {i : Nat} {f : Field ρ}
    {d : Doc} (field : wanted[i]? = some f) (item : items[i]? = some d) :
    ∃ s next, f.fill s d = .ok next := by
  induction wanted generalizing position r items i with
  | nil => cases field
  | cons first wanted ih =>
    cases items with
    | nil => cases item
    | cons e rest =>
      obtain ⟨next, filled, later⟩ := bind_eq_ok.1 h
      cases i with
      | zero =>
        cases field
        cases item
        exact ⟨r, next, filled⟩
      | succ i => exact ih later field item

/-- Whatever a document gives for a field is taken by the field, be it given by name or by
position. -/
theorem filled_of_read {name : String} {blank r : ρ} {d e : Doc} {i : Nat} {f : Field ρ}
    (known : field? fields f.name = some f) (placed : fields[i]? = some f)
    (h : read name fields blank d = .ok r) (given : d.Gives f.name i e) :
    ∃ s next, f.fill s e = .ok next := by
  cases given with
  | named inside =>
    obtain ⟨s, _, one⟩ := (fills_of_ofMembers h).1.members _ inside
    obtain ⟨_, next, same, filled, _⟩ := Fills.cons_iff.1 one
    obtain rfl := Key.text.inj same
    exact ⟨s, next, (place_known known).symm.trans filled⟩
  | placed item => exact filled_of_ofItems h placed item

/-- A record is filled from what is inside its document, be it given by name or by position. -/
theorem fills_of_read {name : String} {blank r : ρ} {d : Doc}
    (known : ∀ f ∈ fields, field? fields f.name = some f) (h : read name fields blank d = .ok r) :
    ∃ members, Fills fields ignore blank members r ∧
      ∀ numbers room, d.Within numbers (room + 1) → ∀ m ∈ members, m.2.Within numbers room := by
  cases d with
  | object members close =>
    refine ⟨members, (fills_of_ofMembers h).1, ?_⟩
    intro numbers room fits
    cases fits with
    | object fit _ => exact fit
  | array items close =>
    obtain ⟨members, fills, inside⟩ := fills_of_ofItems known h
    refine ⟨members, fills, ?_⟩
    intro numbers room fits m hm
    cases fits with
    | array fit _ => exact fit m.2 (inside m hm)
  | flawed | null | bool | number | string | buried => simp [read] at h

end

end Record

/-! ## Payloads -/

namespace Payload

variable {α : Type} [Payload α] {text : Bytes} {x : α}

/-- A text is decoded when its root is read and nothing follows. -/
theorem decode_eq_ok_iff : decode text = .ok x ↔
    read (Document.parse text).root = .ok x ∧ (Document.parse text).trailing = false := by
  cases ended : (Document.parse text).trailing <;> simp [decode, bind_eq_ok, ended]

theorem read_of_decode (h : decode text = .ok x) : read (Document.parse text).root = .ok x :=
  (decode_eq_ok_iff.1 h).1

end Payload

end ControllerHooks
