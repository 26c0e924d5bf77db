import ControllerHooks.Json.Doc
import ControllerHooks.Proofs.Outcome

/-!
# A well-formed document is its text

A document that can be passed over is well formed: nothing was cut off, and every array and object
is closed. The tokens of such a document are the tokens of the text that it was read from, each one
and nothing else.

* `Doc.tokens` are the tokens of a document, in the order of the text.
* `Progress.step_spells`, `Progress.run_spells`: what has been built spells the tokens so far.
* `Document.parse_spells`: a text with a well-formed document spells it.
-/

namespace ControllerHooks

def Key.token : Key → Token
  | .text s => .string s
  | .flawed flaw => .flawed .string flaw
  | .other => .stray

namespace Doc

mutual

/-- The tokens of a document. What was found missing in the text is not made up for. -/
def tokens : Doc → List Token
  | .flawed opening flaw => [.flawed opening flaw]
  | .null => [.null]
  | .bool b => [.bool b]
  | .number n => [.number n]
  | .string s => [.string s]
  | .array items _ => .leftBracket :: itemTokens items ++ [.rightBracket]
  | .object members _ => .leftBrace :: memberTokens members ++ [.rightBrace]
  | .buried d => tokens d

def itemTokens : List Doc → List Token
  | [] => []
  | [d] => tokens d
  | d :: e :: rest => tokens d ++ .comma :: itemTokens (e :: rest)

def memberTokens : List (Key × Doc) → List Token
  | [] => []
  | [(k, d)] => k.token :: .colon :: tokens d
  | (k, d) :: m :: rest => k.token :: .colon :: tokens d ++ .comma :: memberTokens (m :: rest)

end

/-- Items with a comma after each. -/
def listedItems (items : List Doc) : List Token := items.flatMap fun d => d.tokens ++ [.comma]

/-- Members with a comma after each. -/
def listedMembers (members : List (Key × Doc)) : List Token :=
  members.flatMap fun m => m.1.token :: .colon :: m.2.tokens ++ [.comma]

theorem itemTokens_concat (items : List Doc) (d : Doc) :
    itemTokens (items ++ [d]) = listedItems items ++ d.tokens := by
  induction items with
  | nil => simp [itemTokens, listedItems]
  | cons e rest ih =>
    have more :
        itemTokens (e :: (rest ++ [d])) = e.tokens ++ .comma :: itemTokens (rest ++ [d]) := by
      cases rest <;> rfl
    rw [List.cons_append, more, ih]
    simp [listedItems]

theorem memberTokens_concat (members : List (Key × Doc)) (k : Key) (d : Doc) :
    memberTokens (members ++ [(k, d)]) =
      listedMembers members ++ k.token :: .colon :: d.tokens := by
  induction members with
  | nil => simp [memberTokens, listedMembers]
  | cons m rest ih =>
    obtain ⟨l, e⟩ := m
    have more : memberTokens ((l, e) :: (rest ++ [(k, d)])) =
        l.token :: .colon :: e.tokens ++ .comma :: memberTokens (rest ++ [(k, d)]) := by
      cases rest <;> rfl
    rw [List.cons_append, more, ih]
    simp [listedMembers]

/-- After the last item a comma may follow. -/
theorem itemTokens_comma (d : Doc) (before : List Doc) :
    itemTokens (d :: before).reverse ++ [.comma] = listedItems (d :: before).reverse := by
  simp [itemTokens_concat, listedItems]

theorem memberTokens_comma (m : Key × Doc) (before : List (Key × Doc)) :
    memberTokens (m :: before).reverse ++ [.comma] = listedMembers (m :: before).reverse := by
  obtain ⟨k, d⟩ := m
  simp [memberTokens_concat, listedMembers]

/-! ## Well-formed documents -/

theorem skip_array_iff {items : List Doc} {close : Close} :
    skip (.array items close) = .ok () ↔
      skipItems items = .ok () ∧ ∃ origin, close = .closed origin := by
  cases close <;> simp [skip, unit_bind_eq_ok, Close.arrayFlaw, skipFlaw, Flaw.always]

theorem skip_object_iff {members : List (Key × Doc)} {close : Close} :
    skip (.object members close) = .ok () ↔
      skipMembers members = .ok () ∧ ∃ origin, close = .closed origin := by
  cases close <;> simp [skip, unit_bind_eq_ok, Close.objectFlaw, skipFlaw, Flaw.always]

theorem skipItems_iff {items : List Doc} :
    skipItems items = .ok () ↔ ∀ d ∈ items, d.skip = .ok () := by
  induction items with
  | nil => simp [skipItems]
  | cons d rest ih => simp [skipItems, unit_bind_eq_ok, ih]

mutual

theorem skip_bury : (d : Doc) → ∀ room, skip (bury room d) = skip d
  | .array _ _, 0 | .object _ _, 0 => rfl
  | .array items close, room + 1 => by simp [bury, skip, skipItems_bury items room]
  | .object members close, room + 1 => by simp [bury, skip, skipMembers_bury members room]
  | .flawed _ _, room | .null, room | .bool _, room | .number _, room | .string _, room
  | .buried _, room => by cases room <;> rfl

theorem skipItems_bury : (items : List Doc) → ∀ room,
    skipItems (buryItems room items) = skipItems items
  | [], _ => rfl
  | d :: rest, room => by simp [buryItems, skipItems, skip_bury d room, skipItems_bury rest room]

theorem skipMembers_bury : (members : List (Key × Doc)) → ∀ room,
    skipMembers (buryMembers room members) = skipMembers members
  | [], _ => rfl
  | (k, d) :: rest, room => by
    simp [buryMembers, skipMembers, skip_bury d room, skipMembers_bury rest room]

end

mutual

theorem tokens_bury : (d : Doc) → ∀ room, tokens (bury room d) = tokens d
  | .array _ _, 0 | .object _ _, 0 => rfl
  | .array items close, room + 1 => by simp [bury, tokens, itemTokens_bury items room]
  | .object members close, room + 1 => by simp [bury, tokens, memberTokens_bury members room]
  | .flawed _ _, room | .null, room | .bool _, room | .number _, room | .string _, room
  | .buried _, room => by cases room <;> rfl

theorem itemTokens_bury : (items : List Doc) → ∀ room,
    itemTokens (buryItems room items) = itemTokens items
  | [], _ => rfl
  | [d], room => by simp [buryItems, itemTokens, tokens_bury d room]
  | d :: e :: rest, room => by
    have later := itemTokens_bury (e :: rest) room
    simp only [buryItems] at later ⊢
    simp [itemTokens, tokens_bury d room, later]

theorem memberTokens_bury : (members : List (Key × Doc)) → ∀ room,
    memberTokens (buryMembers room members) = memberTokens members
  | [], _ => rfl
  | [(k, d)], room => by simp [buryMembers, memberTokens, tokens_bury d room]
  | (k, d) :: (l, e) :: rest, room => by
    have later := memberTokens_bury ((l, e) :: rest) room
    simp only [buryMembers] at later ⊢
    simp [memberTokens, tokens_bury d room, later]

end

end Doc

/-! ## Building -/

open Doc (itemTokens memberTokens listedItems listedMembers)

/-- The tokens of an array or object up to the value that it waits for. -/
def Frame.tokens : Frame → List Token
  | item before => .leftBracket :: listedItems before.reverse
  | member before key => .leftBrace :: listedMembers before.reverse ++ [key.token, .colon]

namespace Progress

/-- The tokens of all that is open, from the outermost inward. -/
def openTokens (frames : List Frame) : List Token := frames.reverse.flatMap Frame.tokens

theorem openTokens_cons (f : Frame) (outer : List Frame) :
    openTokens (f :: outer) = openTokens outer ++ f.tokens := by
  simp [openTokens]

/-- What has been built has these tokens. A root that is not well formed, or that something
follows, may have any. -/
def Spells : Progress → List Token → Prop
  | value frames, ts => ts = openTokens frames
  | items frames before, ts => ts = openTokens frames ++ .leftBracket :: itemTokens before.reverse
  | members frames before, ts =>
    ts = openTokens frames ++ .leftBrace :: memberTokens before.reverse
  | nextKey frames before, ts =>
    ts = openTokens frames ++ .leftBrace :: listedMembers before.reverse
  | colon frames before key, ts =>
    ts = openTokens frames ++ .leftBrace :: listedMembers before.reverse ++ [key.token]
  | done root trailing, ts => trailing = false → root.skip = .ok () → ts = root.tokens

variable {frames : List Frame} {ts : List Token} {d : Doc}

theorem fill_spells (h : ts = openTokens frames) (d : Doc) :
    (fill frames d).Spells (ts ++ d.tokens) := by
  subst h
  cases frames with
  | nil => exact fun _ _ => rfl
  | cons f outer =>
    cases f with
    | item before => simp [fill, Spells, openTokens_cons, Frame.tokens, Doc.itemTokens_concat]
    | member before key =>
      simp [fill, Spells, openTokens_cons, Frame.tokens, Doc.memberTokens_concat]

/-- What is around a stop is cut off, so it is not well formed. -/
theorem enclose_skip (bad : d.skip ≠ .ok ()) : (enclose frames d).skip ≠ .ok () := by
  induction frames generalizing d with
  | nil => exact bad
  | cons f outer ih =>
    cases f with
    | item before =>
      apply ih
      simp [Doc.skip_array_iff]
    | member before key =>
      apply ih
      simp [Doc.skip_object_iff]

theorem stop_spells (bad : d.skip ≠ .ok ()) : (stop frames d).Spells ts :=
  fun _ good => absurd good (enclose_skip bad)

theorem fail_spells (e : SyntaxError) : (fail frames e).Spells ts := by
  apply stop_spells
  simp [Doc.skip, Doc.skipFlaw, Flaw.always]

theorem flawed_skip {opening : Opening} {flaw : Flaw} (h : flaw.skip.isSome = true) :
    (Doc.flawed opening flaw).skip ≠ .ok () := by
  obtain ⟨read, skip⟩ := flaw
  cases skip with
  | none => cases h
  | some e => simp [Doc.skip, Doc.skipFlaw]

theorem array_skip {before : List Doc} {close : Close} (h : ∀ origin, close ≠ .closed origin) :
    (array before close).skip ≠ .ok () := by
  simpa [array, Doc.skip_array_iff] using fun _ => h

theorem object_skip {before : List (Key × Doc)} {close : Close}
    (h : ∀ origin, close ≠ .closed origin) : (object before close).skip ≠ .ok () := by
  simpa [object, Doc.skip_object_iff] using fun _ => h

theorem stepValue_spells (h : ts = openTokens frames) (token : Token) :
    (stepValue frames token).Spells (ts ++ [token]) := by
  cases token with
  | leftBracket => simp [stepValue, Spells, h, itemTokens]
  | leftBrace => simp [stepValue, Spells, h, memberTokens]
  | null => exact fill_spells h .null
  | bool b => exact fill_spells h (.bool b)
  | number n => exact fill_spells h (.number n)
  | string s => exact fill_spells h (.string s)
  | flawed opening flaw =>
    simp only [stepValue]
    split
    · rename_i bad
      exact stop_spells (flawed_skip bad)
    · exact fill_spells h (.flawed opening flaw)
  | rightBracket =>
    simp only [stepValue]
    split
    · exact stop_spells (array_skip (by simp))
    · exact fail_spells _
  | rightBrace | comma | colon | stray => exact fail_spells _

theorem stepKey_spells {before : List (Key × Doc)}
    (h : ts = openTokens frames ++ .leftBrace :: listedMembers before.reverse) (token : Token) :
    (stepKey frames before token).Spells (ts ++ [token]) := by
  unfold stepKey
  split
  · simp [Spells, h, Key.token]
  · split
    · rename_i bad
      exact stop_spells (flawed_skip bad)
    · simp [Spells, h, Key.token]
  · exact fail_spells _

/-- The end of an array is its last token. -/
theorem close_array_spells {before : List Doc}
    (h : ts = openTokens frames ++ .leftBracket :: itemTokens before.reverse) :
    (fill frames (array before (.closed .text))).Spells (ts ++ [.rightBracket]) := by
  have spelled := fill_spells (rfl : openTokens frames = _) (array before (.closed .text))
  simpa [h, array, Doc.tokens] using spelled

theorem close_object_spells {before : List (Key × Doc)}
    (h : ts = openTokens frames ++ .leftBrace :: memberTokens before.reverse) :
    (fill frames (object before (.closed .text))).Spells (ts ++ [.rightBrace]) := by
  have spelled := fill_spells (rfl : openTokens frames = _) (object before (.closed .text))
  simpa [h, object, Doc.tokens] using spelled

/-- One more token is one more token of what is built. -/
theorem step_spells {progress : Progress} (h : progress.Spells ts) (token : Token) :
    (progress.step token).Spells (ts ++ [token]) := by
  unfold step
  split
  case h_1 => exact stepValue_spells h token
  case h_2 =>
    split
    · rename_i bracket
      subst bracket
      exact close_array_spells h
    · apply stepValue_spells
      simpa [Spells, itemTokens, openTokens_cons, Frame.tokens, listedItems] using h
  case h_3 nonempty =>
    obtain ⟨d, rest, rfl⟩ := List.exists_cons_of_ne_nil nonempty
    have spelled : ts = openTokens _ ++ .leftBracket :: itemTokens (d :: rest).reverse := h
    split
    · simp only [Spells, spelled, openTokens_cons, Frame.tokens, ← Doc.itemTokens_comma]
      simp
    · exact close_array_spells h
    · exact stop_spells (array_skip (by simp))
  case h_4 =>
    split
    · rename_i brace
      subst brace
      exact close_object_spells h
    · apply stepKey_spells
      simpa [Spells, memberTokens, listedMembers] using h
  case h_5 nonempty =>
    obtain ⟨m, rest, rfl⟩ := List.exists_cons_of_ne_nil nonempty
    have spelled : ts = openTokens _ ++ .leftBrace :: memberTokens (m :: rest).reverse := h
    split
    · simp only [Spells, spelled, ← Doc.memberTokens_comma]
      simp
    · exact close_object_spells h
    · exact stop_spells (object_skip (by simp))
  case h_6 =>
    split
    · exact stop_spells (object_skip (by simp))
    · exact stepKey_spells h token
  case h_7 =>
    split
    · rename_i mark
      subst mark
      rw [h]
      simp [Spells, openTokens_cons, Frame.tokens]
    · exact fail_spells _
  case h_8 =>
    intro trailing
    cases trailing

theorem run_spells {progress : Progress} (h : progress.Spells ts) (tokens : List Token) :
    (tokens.foldl step progress).Spells (ts ++ tokens) := by
  induction tokens generalizing progress ts with
  | nil => simpa using h
  | cons token rest ih => simpa using ih (step_spells h token)

/-- A text that ends too early has no well-formed document. -/
theorem finish_spells {progress : Progress} (h : progress.Spells ts)
    (ended : progress.finish.2 = false) (good : progress.finish.1.skip = .ok ()) :
    ts = progress.finish.1.tokens := by
  unfold finish at ended good ⊢
  split at good
  · exact absurd good (enclose_skip (array_skip (by simp)))
  · exact absurd good (enclose_skip (by simp [Doc.skip, Doc.skipFlaw, Flaw.always]))
  · exact absurd good (enclose_skip (array_skip (by simp)))
  · exact absurd good (enclose_skip (object_skip (by simp)))
  · exact absurd good (enclose_skip (object_skip (by simp)))
  · exact absurd good (enclose_skip (by simp [Doc.skip, Doc.skipFlaw, Flaw.always]))
  · exact h ended good

end Progress

/-- The text is the text of this document, and the document is well formed. -/
structure Bytes.Spells (text : Bytes) (d : Doc) : Prop where
  wellFormed : d.skip = .ok ()
  tokens : Token.lex (Utf8.decode text) = d.tokens

/-- **Soundness of parsing.** A text with a well-formed document, and nothing after it, is the text
of this document. -/
theorem Document.parse_spells {text : Bytes} (ended : (parse text).trailing = false)
    (good : (parse text).root.skip = .ok ()) : text.Spells (parse text).root := by
  refine ⟨good, ?_⟩
  have start : (Progress.value []).Spells [] := rfl
  have spelled := Progress.run_spells start (Token.lex (Utf8.decode text))
  simp only [parse, ofTokens, Doc.skip_bury, Doc.tokens_bury] at ended good ⊢
  exact Progress.finish_spells spelled ended good

end ControllerHooks
