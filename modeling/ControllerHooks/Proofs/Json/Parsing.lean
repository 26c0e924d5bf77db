import ControllerHooks.Payload
import ControllerHooks.Proofs.Json.Lexing
import ControllerHooks.Proofs.Utf8

/-!
# A written value is read again

* `Progress.run_tokens`: the tokens of a value build the document of the value, whatever is open
  around it.
* `Document.parse_bytes_reread`: so the bytes of a value with finite numbers are the text of the
  document of its second reading.
* `Document.parse_bytes`: the bytes of a value that fits are the text of its own document.
-/

namespace ControllerHooks

namespace Progress

/-- The progress after some more tokens. -/
def run (progress : Progress) (tokens : List Token) : Progress := tokens.foldl step progress

theorem run_cons (progress : Progress) (token : Token) (rest : List Token) :
    progress.run (token :: rest) = (progress.step token).run rest := rfl

theorem run_append (progress : Progress) (first second : List Token) :
    progress.run (first ++ second) = (progress.run first).run second := List.foldl_append

/-- Items may come first in an array: none of them begins with a closing bracket. -/
theorem run_first_item (frames : List Frame) (x : Json) (more : List Json) :
    (items frames []).run (Json.itemTokens (x :: more)) =
      (value (.item [] :: frames)).run (Json.itemTokens (x :: more)) := by
  cases more <;> cases x <;> rfl

/-- Members may come first in an object. -/
theorem run_first_member (frames : List Frame) (m : String × Json) (more : List (String × Json)) :
    (members frames []).run (Json.memberTokens (m :: more)) =
      (nextKey frames []).run (Json.memberTokens (m :: more)) := by
  cases more <;> rfl

/-- The tokens of the value are built into its document, whatever is open around it. -/
def Builds (v : Json) : Prop :=
  ∀ frames, (value frames).run v.tokens = fill frames (Doc.ofJson .text v)

theorem run_items {x : Json} {more : List Json} (h : ∀ y ∈ x :: more, Builds y)
    (frames : List Frame) (before : List Doc) :
    (value (.item before :: frames)).run (Json.itemTokens (x :: more)) =
      items frames ((Doc.ofItems .text (x :: more)).reverse ++ before) := by
  induction more generalizing x before with
  | nil => exact h x List.mem_cons_self (.item before :: frames)
  | cons y more ih =>
    obtain ⟨head, tail⟩ := List.forall_mem_cons.1 h
    have rest := ih tail (Doc.ofJson .text x :: before)
    rw [Json.itemTokens, run_append, head, run_cons]
    simpa [fill, step, Doc.ofItems] using rest

theorem run_members {m : String × Json} {more : List (String × Json)}
    (h : ∀ n ∈ m :: more, Builds n.2) (frames : List Frame) (before : List (Key × Doc)) :
    (nextKey frames before).run (Json.memberTokens (m :: more)) =
      members frames ((Doc.ofMembers .text (m :: more)).reverse ++ before) := by
  induction more generalizing m before with
  | nil => exact h m List.mem_cons_self (.member before (.text m.1) :: frames)
  | cons n more ih =>
    obtain ⟨k, x⟩ := m
    obtain ⟨head, tail⟩ := List.forall_mem_cons.1 h
    have rest := ih tail ((.text k, Doc.ofJson .text x) :: before)
    have first : (nextKey frames before).run (.string k :: .colon :: x.tokens) =
        fill (.member before (.text k) :: frames) (Doc.ofJson .text x) := head _
    rw [Json.memberTokens, run_append, first, run_cons]
    simpa [fill, step, Doc.ofMembers] using rest

theorem run_array {xs : List Json} (h : ∀ x ∈ xs, Builds x) : Builds (.array xs) := by
  intro frames
  cases xs with
  | nil => rfl
  | cons x more =>
    have start : (value frames).step .leftBracket = items frames [] := rfl
    rw [Json.tokens, List.cons_append, run_cons, start, run_append, run_first_item,
      run_items h frames []]
    simp [run, step, array, Doc.ofJson, Doc.ofItems]

theorem run_object {ms : List (String × Json)} (h : ∀ m ∈ ms, Builds m.2) :
    Builds (.object ms) := by
  intro frames
  cases ms with
  | nil => rfl
  | cons m more =>
    have start : (value frames).step .leftBrace = members frames [] := rfl
    rw [Json.tokens, List.cons_append, run_cons, start, run_append, run_first_member,
      run_members h frames []]
    simp [run, step, object, Doc.ofJson, Doc.ofMembers]

mutual

theorem run_tokens : (v : Json) → Builds v
  | .null | .bool _ | .number _ | .string _ => fun _ => rfl
  | .array xs => run_array (run_each_item xs)
  | .object ms => run_object (run_each_member ms)

theorem run_each_item : (xs : List Json) → ∀ x ∈ xs, Builds x
  | [] => by simp
  | x :: more => List.forall_mem_cons.2 ⟨run_tokens x, run_each_item more⟩

theorem run_each_member : (ms : List (String × Json)) → ∀ m ∈ ms, Builds m.2
  | [] => by simp
  | (_, x) :: more => List.forall_mem_cons.2 ⟨run_tokens x, run_each_member more⟩

end

end Progress

namespace Doc

theorem buryItems_ofItems {origin : Origin} {room : Nat} {items : List Json}
    (h : ∀ x ∈ items, (ofJson origin x).bury room = ofJson origin x) :
    buryItems room (ofItems origin items) = ofItems origin items := by
  induction items with
  | nil => rfl
  | cons x rest ih =>
    obtain ⟨head, tail⟩ := List.forall_mem_cons.1 h
    simp [ofItems, buryItems, head, ih tail]

theorem buryMembers_ofMembers {origin : Origin} {room : Nat} {members : List (String × Json)}
    (h : ∀ m ∈ members, (ofJson origin m.2).bury room = ofJson origin m.2) :
    buryMembers room (ofMembers origin members) = ofMembers origin members := by
  induction members with
  | nil => rfl
  | cons m rest ih =>
    obtain ⟨head, tail⟩ := List.forall_mem_cons.1 h
    simp [ofMembers, buryMembers, head, ih tail]

/-- Nothing of a value that fits is buried. -/
theorem bury_ofJson {numbers : Number → Prop} {v : Json} {room : Nat} (fits : v.Within numbers room)
    (origin : Origin) : (ofJson origin v).bury room = ofJson origin v := by
  induction fits with
  | array _ ih => rw [ofJson, bury, buryItems_ofItems ih]
  | object _ ih => rw [ofJson, bury, buryMembers_ofMembers ih]
  | @null room | @bool room _ | @number room _ _ | @string room _ => cases room <;> rfl

end Doc

namespace Json

variable {room : Nat}

theorem lex_bytes_reread {v : Json} (finite : v.Within Number.IsFinite room) :
    Token.lex (Utf8.decode v.bytes) = v.reread.tokens := by
  have ends : Token.Ends [] := by simp [Token.Ends]
  simpa [Token.lex, Json.bytes, Utf8.decode_encode, Utf8.pieces, Token.lexFrom]
    using Token.lex_chars finite ends

theorem lex_bytes {v : Json} (fits : v.Fits room) :
    Token.lex (Utf8.decode v.bytes) = v.tokens := by
  rw [lex_bytes_reread (fits.imp Number.IsWord.isFinite), reread_of_fits fits]

theorem mem_itemTokens {items : List Json} {n : Number} (h : Token.number n ∈ itemTokens items) :
    ∃ x ∈ items, Token.number n ∈ x.tokens := by
  induction items with
  | nil => simp [itemTokens] at h
  | cons x rest ih =>
    cases rest with
    | nil => exact ⟨x, List.mem_cons_self, h⟩
    | cons y more =>
      rcases List.mem_append.1 h with here | later
      · exact ⟨x, List.mem_cons_self, here⟩
      · exact (ih (by simpa using later)).imp fun _ => And.imp_left (List.mem_cons_of_mem _)

theorem mem_memberTokens {members : List (String × Json)} {n : Number}
    (h : Token.number n ∈ memberTokens members) : ∃ m ∈ members, Token.number n ∈ m.2.tokens := by
  induction members with
  | nil => simp [memberTokens] at h
  | cons m rest ih =>
    cases rest with
    | nil => exact ⟨m, List.mem_cons_self, by simpa [memberTokens] using h⟩
    | cons y more =>
      rcases List.mem_append.1 h with here | later
      · exact ⟨m, List.mem_cons_self, by simpa using here⟩
      · exact (ih (by simpa using later)).imp fun _ => And.imp_left (List.mem_cons_of_mem _)

theorem isWord_of_mem_tokens {v : Json} (fits : v.Fits room) {n : Number}
    (h : Token.number n ∈ v.tokens) : n.IsWord := by
  induction fits with
  | number word =>
    obtain rfl : n = _ := by simpa [tokens] using h
    exact word
  | array _ ih =>
    obtain ⟨x, inside, here⟩ := mem_itemTokens (by simpa [tokens] using h)
    exact ih x inside here
  | object _ ih =>
    obtain ⟨m, inside, here⟩ := mem_memberTokens (by simpa [tokens] using h)
    exact ih m inside here
  | null | bool | string => simp [tokens] at h

/-- What is written can be taken for a request. -/
theorem hasWords_bytes {v : Json} (fits : v.Fits room) : v.bytes.HasWords := by
  intro n h
  rw [lex_bytes fits] at h
  exact isWord_of_mem_tokens fits h

end Json

/-- **Parsing.** The bytes of a value with finite numbers are the text of the document of its second
reading, and of nothing else. -/
theorem Document.parse_bytes_reread {v : Json} (finite : v.Within Number.IsFinite depthLimit) :
    parse v.bytes = ⟨Doc.ofJson .text v.reread, false⟩ := by
  have built : v.reread.tokens.foldl Progress.step (.value []) =
      .done (Doc.ofJson .text v.reread) false := Progress.run_tokens v.reread []
  simp only [parse, ofTokens, Json.lex_bytes_reread finite, built, Progress.finish,
    Doc.bury_ofJson finite.reread]

/-- The bytes of a value that fits are the text of its own document. -/
theorem Document.parse_bytes {v : Json} (fits : v.Fits depthLimit) :
    parse v.bytes = ⟨Doc.ofJson .text v, false⟩ := by
  rw [parse_bytes_reread (fits.imp Number.IsWord.isFinite), Json.reread_of_fits fits]

theorem Payload.decode_bytes {α : Type} [Payload α] {v : Json} (fits : v.Fits Document.depthLimit) :
    decode (α := α) v.bytes = read (Doc.ofJson .text v) := by
  rw [decode, Document.parse_bytes fits]
  cases (read (Doc.ofJson .text v) : Except DecodeError α) <;> rfl

end ControllerHooks
