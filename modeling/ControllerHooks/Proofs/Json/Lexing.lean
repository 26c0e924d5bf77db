import ControllerHooks.Proofs.Json.Numerals

/-!
# The tokens of a written value

A written value is cut into its tokens and nothing else, whatever follows it, provided that a
number ends where it does.

* `Token.scanString_quoted`: a string is read back, its escapes undone.
* `Json.reread`: the value with every number as it is read again. A value of integers is read as
  itself (`Json.reread_of_fits`).
* `Token.lex_chars`: a value with finite numbers gives the `Json.tokens` of its second reading.
* `Token.isFinite_of_mem_lex`: every number of a text is finite.
-/

namespace ControllerHooks

open Utf8 (Piece pieces)

mutual

/-- The tokens of a value, in the order of writing. -/
def Json.tokens : Json → List Token
  | .null => [.null]
  | .bool b => [.bool b]
  | .number n => [.number n]
  | .string s => [.string s]
  | .array items => .leftBracket :: itemTokens items ++ [.rightBracket]
  | .object members => .leftBrace :: memberTokens members ++ [.rightBrace]

def Json.itemTokens : List Json → List Token
  | [] => []
  | [x] => tokens x
  | x :: y :: rest => tokens x ++ .comma :: itemTokens (y :: rest)

def Json.memberTokens : List (String × Json) → List Token
  | [] => []
  | [(k, x)] => .string k :: .colon :: tokens x
  | (k, x) :: y :: rest => .string k :: .colon :: tokens x ++ .comma :: memberTokens (y :: rest)

end

/-! ## Second readings -/

namespace Json

mutual

/-- The value with every number as it is read where it was written. -/
def reread : Json → Json
  | .number n => .number n.reread
  | .array items => .array (rereadItems items)
  | .object members => .object (rereadMembers members)
  | value => value

def rereadItems : List Json → List Json
  | [] => []
  | x :: rest => reread x :: rereadItems rest

def rereadMembers : List (String × Json) → List (String × Json)
  | [] => []
  | (k, x) :: rest => (k, reread x) :: rereadMembers rest

end

theorem rereadItems_eq (items : List Json) : rereadItems items = items.map reread := by
  induction items with
  | nil => rfl
  | cons x rest ih => rw [rereadItems, ih, List.map_cons]

theorem rereadMembers_eq (members : List (String × Json)) :
    rereadMembers members = members.map fun m => (m.1, m.2.reread) := by
  induction members with
  | nil => rfl
  | cons m rest ih => rw [rereadMembers, ih, List.map_cons]

/-- A second reading is as deep, and its numbers are finite. -/
theorem Within.reread {v : Json} {room : Nat} (h : v.Within Number.IsFinite room) :
    v.reread.Within Number.IsFinite room := by
  induction h with
  | null => exact .null
  | bool b => exact .bool b
  | number finite => exact .number finite.reread
  | string s => exact .string s
  | array _ ih =>
    rw [Json.reread, rereadItems_eq]
    exact .array (by simpa using ih)
  | object _ ih =>
    rw [Json.reread, rereadMembers_eq]
    refine .object ?_
    intro m hm
    obtain ⟨e, he, rfl⟩ := List.mem_map.1 hm
    exact ih e he

/-- Integers are read as themselves. -/
theorem reread_of_fits {v : Json} {room : Nat} (fits : v.Fits room) : v.reread = v := by
  induction fits with
  | null | bool | string => rfl
  | number word => rw [reread, Number.reread_of_isWord word]
  | array _ ih => rw [reread, rereadItems_eq, List.map_congr_left ih, List.map_id']
  | @object _ members _ ih =>
    have same : ∀ m ∈ members, (m.1, m.2.reread) = m := fun m hm => by rw [ih m hm]
    rw [reread, rereadMembers_eq, List.map_congr_left same, List.map_id']

end Json

namespace Token

/-! ## Strings -/

theorem hexDigit?_digitChar : ∀ n < 16, hexDigit? (.char (Nat.digitChar n)) = some n := by
  decide

theorem hexUnit_control {n : Nat} (small : n < 0x20) (rest : List Piece) :
    hexUnit (pieces ['0', '0', Nat.digitChar (n / 16), Nat.digitChar (n % 16)] ++ rest) =
      .ok n := by
  have high := hexDigit?_digitChar (n / 16) (by omega)
  have low := hexDigit?_digitChar (n % 16) (by omega)
  have zero : hexDigit? (.char '0') = some 0 := rfl
  have value : n / 16 * 16 + n % 16 = n := by omega
  simp [hexUnit, pieces, zero, high, low, value]

theorem unicodeEscape_control {c : Char} (small : c.toNat < 0x20) (rest : List Piece) :
    unicodeEscape (pieces ['0', '0', Nat.digitChar (c.toNat / 16), Nat.digitChar (c.toNat % 16)] ++
      rest) = .ok (c, 4) := by
  have notLow : isLow c.toNat = false := by simp only [isLow]; grind
  have notHigh : isHigh c.toNat = false := by simp only [isHigh]; grind
  simp [unicodeEscape, hexUnit_control small, notLow, notHigh]

/-- How a character is written: by a letter after a backslash, by its number, or as itself. -/
inductive Escapes (c : Char) : List Char → Prop
  | letter {e : Char} : escaped? (.char e) = some c → Escapes c ['\\', e]
  | control : c.toNat < 0x20 →
    Escapes c ['\\', 'u', '0', '0', Nat.digitChar (c.toNat / 16), Nat.digitChar (c.toNat % 16)]
  | plain : c ≠ '"' → c ≠ '\\' → ¬ c.toNat < 0x20 → Escapes c [c]

theorem escapes (c : Char) : Escapes c (Json.escape c) := by
  unfold Json.escape
  by_cases quote : c = '"'
  · subst quote
    exact .letter rfl
  by_cases backslash : c = '\\'
  · subst backslash
    exact .letter rfl
  rw [if_neg quote, if_neg backslash]
  split
  · subst_vars
    exact .letter rfl
  split
  · subst_vars
    exact .letter rfl
  split
  · subst_vars
    exact .letter rfl
  split
  · subst_vars
    exact .letter rfl
  split
  · subst_vars
    exact .letter rfl
  split
  · rename_i small
    exact .control small
  · rename_i large
    exact .plain quote backslash large

theorem contentsFrom_escape (c : Char) (rest : List Piece) :
    contentsFrom 0 (pieces (Json.escape c) ++ rest) = (contentsFrom 0 rest).map (.char c :: ·) := by
  have written := escapes c
  generalize Json.escape c = cs at written
  cases written with
  | letter known => simp [pieces, contentsFrom, readEscape, known]
  | control small =>
    have value := unicodeEscape_control small rest
    simp only [pieces, List.map_cons, List.map_nil, List.cons_append, List.nil_append] at value
    simp [pieces, contentsFrom, readEscape, escaped?, value]
  | plain quote backslash large =>
    simp [pieces, contentsFrom, quote, backslash, isControl, large]

theorem extentFrom_escape (c : Char) {rest : List Piece} {n : Nat}
    (h : extentFrom 0 rest = .ok n) :
    extentFrom 0 (pieces (Json.escape c) ++ rest) = .ok (n + (Json.escape c).length) := by
  have written := escapes c
  generalize Json.escape c = cs at written ⊢
  cases written with
  | letter known => simp [pieces, extentFrom, skipEscape, known, h]
  | control small =>
    have unit := hexUnit_control small rest
    simp only [pieces, List.map_cons, List.map_nil, List.cons_append, List.nil_append] at unit
    simp [pieces, extentFrom, skipEscape, escaped?, unit, h]
  | plain quote backslash large =>
    simp [pieces, extentFrom, quote, backslash, isControl, large, h]

theorem contentsFrom_escaped (cs : List Char) (rest : List Piece) :
    contentsFrom 0 (pieces (cs.flatMap Json.escape) ++ .char '"' :: rest) = .ok (pieces cs) := by
  induction cs with
  | nil => rfl
  | cons c cs ih =>
    rw [List.flatMap_cons, pieces_append, List.append_assoc, contentsFrom_escape, ih]
    rfl

theorem extentFrom_escaped (cs : List Char) (rest : List Piece) :
    extentFrom 0 (pieces (cs.flatMap Json.escape) ++ .char '"' :: rest) =
      .ok ((cs.flatMap Json.escape).length + 1) := by
  induction cs with
  | nil => rfl
  | cons c cs ih =>
    rw [List.flatMap_cons, pieces_append, List.append_assoc, extentFrom_escape c ih]
    simp only [List.length_append, Except.ok.injEq]
    omega

/-- A written string is read back. -/
theorem scanString_quoted (s : String) (rest : List Piece) :
    scanString (pieces (s.toList.flatMap Json.escape) ++ .char '"' :: rest) =
      (.string s, some ((s.toList.flatMap Json.escape).length + 1)) := by
  simp [scanString, contents, contentsFrom_escaped, extentFrom_escaped, Utf8.mapM_char?_pieces]

/-! ## Values -/

theorem lexFrom_append (skipped rest : List Piece) :
    lexFrom skipped.length (skipped ++ rest) = lexFrom 0 rest := by
  induction skipped with
  | nil => rfl
  | cons p more ih => simpa [lexFrom] using ih

/-- A token that takes its first piece and the pieces of `body`. -/
theorem lexFrom_token {p : Piece} (body rest : List Piece) {token : Token}
    (notBlank : isBlank p = false)
    (scanned : scan p (body ++ rest) = (token, some body.length)) :
    lexFrom 0 (p :: (body ++ rest)) = token :: lexFrom 0 rest := by
  simp only [lexFrom, notBlank, Bool.false_eq_true, if_false, scanned, lexFrom_append]

theorem lexFrom_mark (c : Char) (rest : List Piece) {token : Token}
    (notBlank : isBlank (.char c) = false)
    (scanned : ∀ rest, scan (.char c) rest = (token, some 0)) :
    lexFrom 0 (.char c :: rest) = token :: lexFrom 0 rest :=
  lexFrom_token [] rest notBlank (scanned rest)

theorem lexFrom_quoted (s : String) (rest : List Piece) :
    lexFrom 0 (pieces (Json.quoted s) ++ rest) = .string s :: lexFrom 0 rest := by
  let body := pieces (s.toList.flatMap Json.escape) ++ [.char '"']
  have scanned : scan (.char '"') (body ++ rest) = (.string s, some body.length) := by
    simpa [body, scan, length_pieces] using scanString_quoted s rest
  have token := lexFrom_token body rest rfl scanned
  simpa [body, Json.quoted, pieces] using token

theorem scan_number {c : Char} (h : c = '-' ∨ c.isDigit = true) (rest : List Piece) :
    scan (.char c) rest = scanNumber (.char c :: rest) := by
  have begins : Piece.char c = .char '-' ∨ (digit? (.char c)).isSome := by
    rcases h with rfl | digit
    · exact .inl rfl
    · exact .inr (by simp [digit?_of_isDigit digit])
  unfold scan
  split
  all_goals first
    | simp only [begins, if_true]
    | (rename_i mark
       cases mark
       simp at h)

theorem isBlank_number {c : Char} (h : c = '-' ∨ c.isDigit = true) :
    isBlank (.char c) = false := by
  rw [Bool.eq_false_iff]
  intro blank
  simp only [isBlank, Piece.char.injEq, Bool.or_eq_true, decide_eq_true_eq] at blank
  rcases blank with ((rfl | rfl) | rfl) | rfl <;> simp at h

theorem lexFrom_number {n : Number} (finite : n.IsFinite) {rest : List Piece} (ends : Ends rest) :
    lexFrom 0 (pieces n.text ++ rest) = .number n.reread :: lexFrom 0 rest := by
  obtain ⟨c, more, text, begins⟩ := begins_number finite
  have scanned := scanNumber_text finite ends
  simp only [text, pieces_cons, List.cons_append, List.length_cons, Nat.add_sub_cancel] at scanned ⊢
  refine lexFrom_token _ _ (isBlank_number begins) ?_
  rw [scan_number begins, scanned, length_pieces]

/-- The value is cut into the tokens of its second reading, wherever it stands. -/
def Lexes (v : Json) : Prop :=
  ∀ {rest : List Piece}, Ends rest →
    lexFrom 0 (pieces v.chars ++ rest) = v.reread.tokens ++ lexFrom 0 rest

theorem lex_itemChars {items : List Json} (h : ∀ x ∈ items, Lexes x) (rest : List Piece) :
    lexFrom 0 (pieces (Json.itemChars items) ++ .char ']' :: rest) =
      Json.itemTokens (Json.rereadItems items) ++ .rightBracket :: lexFrom 0 rest := by
  have last := lexFrom_mark ']' rest rfl fun _ => rfl
  induction items with
  | nil => exact last
  | cons x more ih =>
    obtain ⟨head, tail⟩ := List.forall_mem_cons.1 h
    cases more with
    | nil =>
      rw [Json.itemChars, head (ends_cons (by simp) rest), last]
      rfl
    | cons y more =>
      rw [Json.itemChars, pieces_append, List.append_assoc, pieces_cons, List.cons_append,
        head (ends_cons (by simp) _), lexFrom_mark ',' _ rfl fun _ => rfl, ih tail]
      simp [Json.rereadItems, Json.itemTokens]

theorem lex_memberChars {members : List (String × Json)} (h : ∀ m ∈ members, Lexes m.2)
    (rest : List Piece) :
    lexFrom 0 (pieces (Json.memberChars members) ++ .char '}' :: rest) =
      Json.memberTokens (Json.rereadMembers members) ++ .rightBrace :: lexFrom 0 rest := by
  have last := lexFrom_mark '}' rest rfl fun _ => rfl
  have key (k : String) (rest : List Piece) :
      lexFrom 0 (pieces (Json.quoted k) ++ .char ':' :: rest) =
        .string k :: .colon :: lexFrom 0 rest := by
    rw [lexFrom_quoted, lexFrom_mark ':' _ rfl fun _ => rfl]
  induction members with
  | nil => exact last
  | cons m more ih =>
    obtain ⟨k, x⟩ := m
    obtain ⟨head, tail⟩ := List.forall_mem_cons.1 h
    cases more with
    | nil =>
      rw [Json.memberChars, pieces_append, List.append_assoc, pieces_cons, List.cons_append, key,
        head (ends_cons (by simp) rest), last]
      rfl
    | cons y more =>
      rw [Json.memberChars, pieces_append, pieces_append, List.append_assoc, List.append_assoc,
        pieces_cons, List.cons_append, key, pieces_cons, List.cons_append,
        head (ends_cons (by simp) _), lexFrom_mark ',' _ rfl fun _ => rfl, ih tail]
      simp [Json.rereadMembers, Json.memberTokens]

/-- **Lexing.** A value with finite numbers is cut into the tokens of its second reading. -/
theorem lex_chars {v : Json} {room : Nat} (finite : v.Within Number.IsFinite room) : Lexes v := by
  induction finite with
  | null => exact fun _ => lexFrom_token _ _ rfl rfl
  | bool b => cases b <;> exact fun _ => lexFrom_token _ _ rfl rfl
  | number finite => exact lexFrom_number finite
  | string s => exact fun _ => lexFrom_quoted s _
  | array _ ih =>
    intro rest _
    simp [Json.chars, pieces_nil, pieces_cons, pieces_append,
      lexFrom_mark '[' _ rfl fun _ => rfl, lex_itemChars ih, Json.reread, Json.tokens]
  | object _ ih =>
    intro rest _
    simp [Json.chars, pieces_nil, pieces_cons, pieces_append,
      lexFrom_mark '{' _ rfl fun _ => rfl, lex_memberChars ih, Json.reread, Json.tokens]

/-! ## Numbers of a text -/

theorem isFinite_of_scanNumber {text : List Piece} {n : Number} {size : Option Nat}
    (h : scanNumber text = (.number n, size)) : n.IsFinite := by
  unfold scanNumber at h
  split at h
  · cases h
  · split at h
    · cases h
      exact value?_isFinite ‹_›
    · cases h

theorem isFinite_of_scan {p : Piece} {rest : List Piece} {n : Number} {size : Option Nat}
    (h : scan p rest = (.number n, size)) : n.IsFinite := by
  have word {token : Token} {opening : Opening} {letters : List Char}
      (other : ∀ n, token ≠ .number n) :
      scanWord token opening letters rest ≠ (.number n, size) := by
    unfold scanWord
    split
    · simp [other]
    · simp
  have string : scanString rest ≠ (.number n, size) := by
    unfold scanString
    split <;> simp
  unfold scan at h
  split at h
  case h_11 =>
    split at h
    · exact isFinite_of_scanNumber h
    · cases h
  case h_7 => exact absurd h string
  case h_8 | h_9 | h_10 => exact absurd h (word (by simp))
  all_goals cases h

theorem isFinite_of_mem_lexFrom {skip : Nat} {text : List Piece} {n : Number}
    (h : .number n ∈ lexFrom skip text) : n.IsFinite := by
  induction text generalizing skip with
  | nil => cases skip <;> simp [lexFrom] at h
  | cons p rest ih =>
    cases skip with
    | succ skip => exact ih h
    | zero =>
      rw [lexFrom] at h
      split at h
      · exact ih h
      · split at h
        · rename_i scanned
          rcases List.mem_cons.1 h with rfl | later
          · exact isFinite_of_scan scanned
          · exact ih later
        · rename_i scanned
          obtain rfl := List.mem_singleton.1 h
          exact isFinite_of_scan scanned

/-- Whatever is read as a number is finite. -/
theorem isFinite_of_mem_lex {text : List Piece} {n : Number} (h : .number n ∈ lex text) :
    n.IsFinite :=
  isFinite_of_mem_lexFrom h

end Token

end ControllerHooks
