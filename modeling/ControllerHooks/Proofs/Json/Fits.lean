import ControllerHooks.Binary64.Basic
import ControllerHooks.Proofs.Json.Ordered

/-!
# Values that fit

A value that is to be written and read again must not nest too deep, and its numbers must be of a
kind that can be read. Integers of 64 bits come back as they are; other finite numbers come back as
finite numbers.

* `Json.Within` says so of values, for numbers of any kind, `Doc.Within` of documents. `Json.Fits`
  is the case of integers.
* `Document.parse_within`: a text whose numbers are of a kind holds a document with numbers of that
  kind, however deep it nests, since what lies too deep is buried. `Doc.toJson_within`: so is
  whatever is read from it.
-/

namespace ControllerHooks

/-- An integer of 64 bits, with a sign or without. Negative zero is a real number, and is taken
for an integer here. -/
def Number.IsWord : Number → Prop
  | .int n => -0x8000000000000000 ≤ n ∧ n < 0x10000000000000000
  | .real x => x.magnitude = 0

/-- An integer of 64 bits, or a binary64 number that is finite. -/
def Number.IsFinite : Number → Prop
  | .int n => -0x8000000000000000 ≤ n ∧ n < 0x10000000000000000
  | .real x => x.magnitude < Binary64.infinity

/-- Numbers of a kind that integers of 64 bits belong to. -/
class Number.CoversWords (numbers : Number → Prop) : Prop where
  covers : ∀ {n : Number}, n.IsWord → numbers n

instance : Number.CoversWords Number.IsWord := ⟨fun word => word⟩

theorem Number.IsWord.isFinite {n : Number} (word : n.IsWord) : n.IsFinite := by
  cases n with
  | int n => exact word
  | real x =>
    have zero : x.magnitude = 0 := word
    rw [Number.IsFinite, zero]
    decide

instance : Number.CoversWords Number.IsFinite := ⟨Number.IsWord.isFinite⟩

/-- Arrays and objects nest at most `room` deep, and numbers are of a kind. -/
inductive Json.Within (numbers : Number → Prop) : (room : Nat) → Json → Prop
  | null {room : Nat} : Within numbers room .null
  | bool {room : Nat} (b : Bool) : Within numbers room (.bool b)
  | number {room : Nat} {n : Number} (kind : numbers n) : Within numbers room (.number n)
  | string {room : Nat} (s : String) : Within numbers room (.string s)
  | array {room : Nat} {items : List Json} (fit : ∀ x ∈ items, Within numbers room x) :
    Within numbers (room + 1) (.array items)
  | object {room : Nat} {members : List (String × Json)}
      (fit : ∀ m ∈ members, Within numbers room m.2) : Within numbers (room + 1) (.object members)

/-- Arrays and objects nest at most `room` deep, and numbers are integers of 64 bits. -/
abbrev Json.Fits (room : Nat) (v : Json) : Prop := v.Within Number.IsWord room

variable {numbers : Number → Prop}

theorem Json.Within.imp {others : Number → Prop} (h : ∀ {n : Number}, numbers n → others n)
    {v : Json} {room : Nat} (within : v.Within numbers room) : v.Within others room := by
  induction within with
  | null => exact .null
  | bool b => exact .bool b
  | number kind => exact .number (h kind)
  | string s => exact .string s
  | array _ ih => exact .array ih
  | object _ ih => exact .object ih

/-- A value is no deeper than it is large. -/
theorem Json.within_of_sizeOf {v : Json} {room : Nat} (large : sizeOf v ≤ room) :
    v.Within (fun _ => True) room := by
  induction room generalizing v with
  | zero => cases v <;> simp at large
  | succ room ih =>
    cases v with
    | null => exact .null
    | bool b => exact .bool b
    | number n => exact .number trivial
    | string s => exact .string s
    | array items =>
      refine .array fun x hx => ih ?_
      have smaller := List.sizeOf_lt_of_mem hx
      simp only [array.sizeOf_spec] at large
      omega
    | object members =>
      refine .object fun (key, x) hm => ih ?_
      have smaller := List.sizeOf_lt_of_mem hm
      simp only [Prod.mk.sizeOf_spec] at smaller
      simp only [object.sizeOf_spec] at large ⊢
      omega

namespace Doc

/-- Every number in the document is of a kind. -/
inductive Holds (numbers : Number → Prop) : Doc → Prop
  | flawed (opening : Opening) (flaw : Flaw) : Holds numbers (.flawed opening flaw)
  | null : Holds numbers .null
  | bool (b : Bool) : Holds numbers (.bool b)
  | number {n : Number} (kind : numbers n) : Holds numbers (.number n)
  | string (s : String) : Holds numbers (.string s)
  | array {items : List Doc} (holds : ∀ d ∈ items, Holds numbers d) (close : Close) :
    Holds numbers (.array items close)
  | object {members : List (Key × Doc)} (holds : ∀ m ∈ members, Holds numbers m.2)
      (close : Close) : Holds numbers (.object members close)
  | buried (d : Doc) : Holds numbers (.buried d)

/-- Arrays and objects nest at most `room` deep, those that are buried apart, and numbers are of a
kind. -/
inductive Within (numbers : Number → Prop) : (room : Nat) → Doc → Prop
  | flawed {room : Nat} (opening : Opening) (flaw : Flaw) :
    Within numbers room (.flawed opening flaw)
  | null {room : Nat} : Within numbers room .null
  | bool {room : Nat} (b : Bool) : Within numbers room (.bool b)
  | number {room : Nat} {n : Number} (kind : numbers n) : Within numbers room (.number n)
  | string {room : Nat} (s : String) : Within numbers room (.string s)
  | array {room : Nat} {items : List Doc} (fit : ∀ d ∈ items, Within numbers room d)
      (close : Close) : Within numbers (room + 1) (.array items close)
  | object {room : Nat} {members : List (Key × Doc)} (fit : ∀ m ∈ members, Within numbers room m.2)
      (close : Close) : Within numbers (room + 1) (.object members close)
  | buried {room : Nat} (d : Doc) : Within numbers room (.buried d)

theorem mem_ofItems {origin : Origin} {items : List Json} {d : Doc} :
    d ∈ ofItems origin items ↔ ∃ x ∈ items, d = ofJson origin x := by
  induction items with
  | nil => simp [ofItems]
  | cons x rest ih => simp [ofItems, ih]

theorem mem_ofMembers {origin : Origin} {members : List (String × Json)} {m : Key × Doc} :
    m ∈ ofMembers origin members ↔
      ∃ e ∈ members, m = (.text e.1, ofJson origin e.2) := by
  induction members with
  | nil => simp [ofMembers]
  | cons e rest ih => simp [ofMembers, ih]

theorem mem_buryItems {room : Nat} {items : List Doc} {d : Doc} (h : d ∈ buryItems room items) :
    ∃ e ∈ items, d = e.bury room := by
  induction items with
  | nil => simp [buryItems] at h
  | cons e rest ih =>
    rcases List.mem_cons.1 h with rfl | h
    · exact ⟨e, List.mem_cons_self, rfl⟩
    · exact (ih h).imp fun _ => And.imp_left (List.mem_cons_of_mem _)

theorem mem_buryMembers {room : Nat} {members : List (Key × Doc)} {m : Key × Doc}
    (h : m ∈ buryMembers room members) : ∃ n ∈ members, m.2 = n.2.bury room := by
  induction members with
  | nil => simp [buryMembers] at h
  | cons n rest ih =>
    rcases List.mem_cons.1 h with rfl | h
    · exact ⟨n, List.mem_cons_self, rfl⟩
    · exact (ih h).imp fun _ => And.imp_left (List.mem_cons_of_mem _)

/-- What is buried is no longer in the way. -/
theorem Holds.bury {d : Doc} (h : d.Holds numbers) (room : Nat) :
    (d.bury room).Within numbers room := by
  induction h generalizing room with
  | array holds close ih =>
    cases room with
    | zero => exact .buried _
    | succ room =>
      refine .array ?_ close
      intro d member
      obtain ⟨e, inside, rfl⟩ := mem_buryItems member
      exact ih e inside room
  | object holds close ih =>
    cases room with
    | zero => exact .buried _
    | succ room =>
      refine .object ?_ close
      intro m member
      obtain ⟨n, inside, same⟩ := mem_buryMembers member
      exact same ▸ ih n inside room
  | flawed opening flaw => cases room <;> exact .flawed opening flaw
  | null => cases room <;> exact .null
  | bool b => cases room <;> exact .bool b
  | number kind => cases room <;> exact .number kind
  | string s => cases room <;> exact .string s
  | buried d => cases room <;> exact .buried d

/-- A value in memory is as deep as its document. -/
theorem within_ofJson {v : Json} {room : Nat} (h : v.Within numbers room) (origin : Origin) :
    (ofJson origin v).Within numbers room := by
  induction h with
  | null => exact .null
  | bool b => exact .bool b
  | number kind => exact .number kind
  | string s => exact .string s
  | @array room items _ ih =>
    refine .array ?_ _
    intro d hd
    obtain ⟨x, hx, rfl⟩ := mem_ofItems.1 hd
    exact ih x hx
  | @object room members _ ih =>
    refine .object ?_ _
    intro m hm
    obtain ⟨e, he, rfl⟩ := mem_ofMembers.1 hm
    exact ih e he

/-! ## Reading -/

mutual

theorem toJson_within :
    (d : Doc) → ∀ {room : Nat} {v : Json}, d.Within numbers room → d.toJson = .ok v →
    v.Within numbers room
  | .flawed _ _, _, _, _, h => by simp [toJson] at h
  | .null, _, _, _, h => by cases h; exact .null
  | .bool b, _, _, _, h => by cases h; exact .bool b
  | .number _, _, _, .number kind, h => by cases h; exact .number kind
  | .string s, _, _, _, h => by cases h; exact .string s
  | .array items close, _, _, .array fit _, h => by
    simp only [toJson, bind_eq_ok, pure_eq_ok_value, Except.ok.injEq] at h
    obtain ⟨values, read, _, _, rfl⟩ := h
    exact .array (toItems_within items fit read)
  | .object members close, _, _, .object fit _, h => by
    simp only [toJson, bind_eq_ok, pure_eq_ok_value, Except.ok.injEq] at h
    obtain ⟨values, read, _, _, rfl⟩ := h
    exact .object fun m hm => toMembers_within members fit read m (Entries.mem_ofList hm)
  | .buried _, _, _, _, h => by simp [toJson] at h

theorem toItems_within : (items : List Doc) → ∀ {room : Nat} {values : List Json},
    (∀ d ∈ items, d.Within numbers room) → toItems items = .ok values →
    ∀ v ∈ values, v.Within numbers room
  | [], _, _, _, h => by cases h; simp
  | d :: rest, _, _, fit, h => by
    obtain ⟨fits, fit⟩ := List.forall_mem_cons.1 fit
    simp only [toItems, bind_eq_ok, pure_eq_ok_value, Except.ok.injEq] at h
    obtain ⟨x, head, later, tail, rfl⟩ := h
    exact List.forall_mem_cons.2 ⟨toJson_within d fits head, toItems_within rest fit tail⟩

theorem toMembers_within : (members : List (Key × Doc)) → ∀ {room : Nat}
    {values : List (String × Json)}, (∀ m ∈ members, m.2.Within numbers room) →
    toMembers members = .ok values → ∀ m ∈ values, m.2.Within numbers room
  | [], _, _, _, h => by cases h; simp
  | (key, d) :: rest, _, _, fit, h => by
    obtain ⟨fits, fit⟩ := List.forall_mem_cons.1 fit
    simp only [toMembers, bind_eq_ok, pure_eq_ok_value, Except.ok.injEq] at h
    obtain ⟨name, _, x, head, later, tail, rfl⟩ := h
    exact List.forall_mem_cons.2 ⟨toJson_within d fits head, toMembers_within rest fit tail⟩

end

end Doc

/-! ## Building -/

/-- What precedes the awaited value has numbers of a kind. -/
def Frame.Holds (numbers : Number → Prop) : Frame → Prop
  | item before => ∀ d ∈ before, d.Holds numbers
  | member before _ => ∀ m ∈ before, m.2.Holds numbers

namespace Progress

/-- All that has been built has numbers of a kind. -/
def Holds (numbers : Number → Prop) : Progress → Prop
  | value frames => ∀ f ∈ frames, f.Holds numbers
  | items frames before => (∀ f ∈ frames, f.Holds numbers) ∧ ∀ d ∈ before, d.Holds numbers
  | members frames before | nextKey frames before | colon frames before _ =>
    (∀ f ∈ frames, f.Holds numbers) ∧ ∀ m ∈ before, m.2.Holds numbers
  | done root _ => root.Holds numbers

variable {frames : List Frame} {d : Doc}

theorem fill_holds (h : ∀ f ∈ frames, f.Holds numbers) (holds : d.Holds numbers) :
    (fill frames d).Holds numbers := by
  cases frames with
  | nil => exact holds
  | cons f outer =>
    obtain ⟨before, outside⟩ := List.forall_mem_cons.1 h
    cases f <;> exact ⟨outside, List.forall_mem_cons.2 ⟨holds, before⟩⟩

theorem array_holds {items : List Doc} (h : ∀ d ∈ items, d.Holds numbers) (close : Close) :
    (array items close).Holds numbers :=
  .array (fun d hd => h d (List.mem_reverse.1 hd)) close

theorem object_holds {members : List (Key × Doc)} (h : ∀ m ∈ members, m.2.Holds numbers)
    (close : Close) : (object members close).Holds numbers :=
  .object (fun m hm => h m (List.mem_reverse.1 hm)) close

theorem enclose_holds (h : ∀ f ∈ frames, f.Holds numbers) (holds : d.Holds numbers) :
    (enclose frames d).Holds numbers := by
  induction frames generalizing d with
  | nil => exact holds
  | cons f outer ih =>
    obtain ⟨before, outside⟩ := List.forall_mem_cons.1 h
    cases f with
    | item _ => exact ih outside (array_holds (List.forall_mem_cons.2 ⟨holds, before⟩) .cut)
    | member _ _ => exact ih outside (object_holds (List.forall_mem_cons.2 ⟨holds, before⟩) .cut)

theorem stop_holds (h : ∀ f ∈ frames, f.Holds numbers) (holds : d.Holds numbers) :
    (stop frames d).Holds numbers :=
  enclose_holds h holds

theorem fail_holds (h : ∀ f ∈ frames, f.Holds numbers) (e : SyntaxError) :
    (fail frames e).Holds numbers :=
  stop_holds h (.flawed _ _)

theorem stepValue_holds {token : Token} (h : ∀ f ∈ frames, f.Holds numbers)
    (kind : ∀ n, token = .number n → numbers n) : (stepValue frames token).Holds numbers := by
  cases token with
  | leftBracket => exact ⟨h, by simp⟩
  | leftBrace => exact ⟨h, by simp⟩
  | null => exact fill_holds h .null
  | bool b => exact fill_holds h (.bool b)
  | number n => exact fill_holds h (.number (kind n rfl))
  | string s => exact fill_holds h (.string s)
  | flawed opening flaw =>
    simp only [stepValue]
    split
    · exact stop_holds h (.flawed opening flaw)
    · exact fill_holds h (.flawed opening flaw)
  | rightBracket =>
    simp only [stepValue]
    split
    · obtain ⟨before, outside⟩ := List.forall_mem_cons.1 h
      exact stop_holds outside (array_holds before .trailingComma)
    · exact fail_holds h _
  | rightBrace | comma | colon | stray => exact fail_holds h _

theorem stepKey_holds {before : List (Key × Doc)} {token : Token}
    (h : ∀ f ∈ frames, f.Holds numbers) (holds : ∀ m ∈ before, m.2.Holds numbers) :
    (stepKey frames before token).Holds numbers := by
  have inside (key : Key) : ∀ f ∈ .member before key :: frames, f.Holds numbers :=
    List.forall_mem_cons.2 ⟨holds, h⟩
  unfold stepKey
  split
  · exact ⟨h, holds⟩
  · split
    · exact stop_holds (inside _) (.flawed _ _)
    · exact ⟨h, holds⟩
  · exact fail_holds (inside _) _

theorem step_holds {progress : Progress} {token : Token} (h : progress.Holds numbers)
    (kind : ∀ n, token = .number n → numbers n) : (progress.step token).Holds numbers := by
  unfold step
  split
  case h_1 => exact stepValue_holds h kind
  case h_2 =>
    split
    · exact fill_holds h.1 (.array (by simp) _)
    · exact stepValue_holds (List.forall_mem_cons.2 ⟨h.2, h.1⟩) kind
  case h_3 =>
    split
    · exact List.forall_mem_cons.2 ⟨h.2, h.1⟩
    · exact fill_holds h.1 (array_holds h.2 _)
    · exact stop_holds h.1 (array_holds h.2 _)
  case h_4 =>
    split
    · exact fill_holds h.1 (.object (by simp) _)
    · exact stepKey_holds h.1 h.2
  case h_5 =>
    split
    · exact h
    · exact fill_holds h.1 (object_holds h.2 _)
    · exact stop_holds h.1 (object_holds h.2 _)
  case h_6 =>
    split
    · exact stop_holds h.1 (object_holds h.2 _)
    · exact stepKey_holds h.1 h.2
  case h_7 =>
    split
    · exact List.forall_mem_cons.2 ⟨h.2, h.1⟩
    · refine fail_holds ?_ _
      exact List.forall_mem_cons.2 ⟨h.2, h.1⟩
  case h_8 => exact h

theorem run_holds {progress : Progress} {tokens : List Token} (h : progress.Holds numbers)
    (holds : ∀ n, .number n ∈ tokens → numbers n) : (tokens.foldl step progress).Holds numbers := by
  induction tokens generalizing progress with
  | nil => exact h
  | cons token rest ih =>
    have stepped : (progress.step token).Holds numbers := by
      apply step_holds h
      rintro n rfl
      exact holds n List.mem_cons_self
    apply ih stepped
    intro n hn
    exact holds n (List.mem_cons_of_mem _ hn)

theorem finish_holds {progress : Progress} (h : progress.Holds numbers) :
    progress.finish.1.Holds numbers := by
  unfold finish
  split
  · obtain ⟨before, outside⟩ := List.forall_mem_cons.1 h
    exact enclose_holds outside (array_holds before _)
  · exact enclose_holds h (.flawed _ _)
  · exact enclose_holds h.1 (array_holds h.2 _)
  · exact enclose_holds h.1 (object_holds h.2 _)
  · exact enclose_holds h.1 (object_holds h.2 _)
  · refine enclose_holds ?_ (.flawed _ _)
    exact List.forall_mem_cons.2 ⟨h.2, h.1⟩
  · exact h

end Progress

theorem Document.parse_within {text : Bytes}
    (kind : ∀ n, Token.number n ∈ Token.lex (Utf8.decode text) → numbers n) :
    (parse text).root.Within numbers depthLimit := by
  have start : (Progress.value []).Holds numbers := by simp [Progress.Holds]
  exact (Progress.finish_holds (Progress.run_holds start kind)).bury depthLimit

/-- Every number of the text is an integer of 64 bits. -/
def Bytes.HasWords (text : Bytes) : Prop :=
  ∀ n, Token.number n ∈ Token.lex (Utf8.decode text) → n.IsWord

end ControllerHooks
