import ControllerHooks.Proofs.Keys.Grammar
import ControllerHooks.Proofs.ResourceTypes

/-!
# Keys of types that are well spelled

The key of a type in letters, digits and hyphens of ASCII has the parts of the type, in small
letters. Read the other way, a key of the grammar is the key of one type in small letters.

* `ResourceType.parts` are the parts that a type brings to its key; `ResourceType.lowered` is the
  type in small letters.
* `ResourceType.splitOn_key`: the parts of the key of a type.
* `ResourceKey.exists_type`: the type that a key stands for.
-/

namespace ControllerHooks

open ResourceKey (Spells IsKey)
open ResourceKey.Reading (isLetterOrDigit)

/-! ## ASCII -/

namespace Unicode

theorem ascii_cases {P : Char → Prop} (h : ∀ n ∈ List.range 128, P (Char.ofNat n)) {c : Char}
    (ascii : c.toNat < 128) : P c := by
  have := h c.toNat (List.mem_range.2 ascii)
  rwa [Char.ofNat_toNat] at this

/-- Letters and digits of ASCII, and the hyphen. -/
def isWordChar (c : Char) : Bool := c.isAlphanum || c = '-'

theorem ascii_of_le {c d : Char} (ascii : d.toNat < 128) (h : c.val ≤ d.val) : c.toNat < 128 :=
  Nat.lt_of_le_of_lt (UInt32.le_iff_toNat_le.1 h) ascii

theorem ascii_of_isUpper {c : Char} (h : c.isUpper = true) : c.toNat < 128 :=
  ascii_of_le (d := 'Z') (by decide) (of_decide_eq_true h).2

theorem isLower_iff {c : Char} : c.isLower = true ↔ 'a'.val ≤ c.val ∧ c.val ≤ 'z'.val :=
  Bool.and_eq_true_iff.trans (and_congr decide_eq_true_iff decide_eq_true_iff)

theorem isWordChar_iff {c : Char} : isWordChar c = true ↔
    ((c.isUpper = true ∨ c.isLower = true) ∨ c.isDigit = true) ∨ c = '-' :=
  Bool.or_eq_true_iff.trans (or_congr (Bool.or_eq_true_iff.trans
    (or_congr Bool.or_eq_true_iff Iff.rfl)) decide_eq_true_iff)

theorem ascii_of_isWordChar {c : Char} (h : isWordChar c = true) : c.toNat < 128 := by
  rcases isWordChar_iff.1 h with ((upper | lower) | digit) | rfl
  · exact ascii_of_isUpper upper
  · exact ascii_of_le (d := 'z') (by decide) (isLower_iff.1 lower).2
  · exact Nat.lt_of_le_of_lt (Char.isDigit_iff_toNat.1 digit).2 (by decide)
  · decide

theorem toLower_of_not_isUpper {c : Char} (h : ¬ c.isUpper = true) : c.toLower = c :=
  dif_neg fun upper => h (decide_eq_true upper)

/-- A capital letter has a small one for its lower case, and no dot or hyphen. -/
theorem toLower_eq_mark_iff {c d : Char} (mark : d = '.' ∨ d = '-') : c.toLower = d ↔ c = d := by
  by_cases upper : c.isUpper = true
  · refine ascii_cases (P := fun c => c.toLower = d ↔ c = d) ?_ (ascii_of_isUpper upper)
    rcases mark with rfl | rfl <;> decide +kernel
  · rw [toLower_of_not_isUpper upper]

theorem lowerChar_of_ascii {c : Char} (ascii : c.toNat < 128) : lowerChar c = [c.toLower] :=
  ascii_cases (P := fun c => lowerChar c = [c.toLower]) (by decide +kernel) ascii

theorem lowercase_of_ascii {text : List Char} (ascii : ∀ c ∈ text, c.toNat < 128) :
    lowercase text = text.map Char.toLower := by
  unfold lowercase
  generalize [] = before
  induction text generalizing before with
  | nil => rfl
  | cons c rest ih =>
    obtain ⟨head, tail⟩ := List.forall_mem_cons.1 ascii
    have plain : c ≠ 'Σ' := by
      rintro rfl
      exact absurd head (by decide)
    rw [lowerFrom, if_neg plain, lowerChar_of_ascii head, ih tail]
    rfl

/-- A dot stays a dot in lower case, so the parts between dots are those in lower case. -/
theorem splitOn_map_toLower (text : List Char) :
    (text.map Char.toLower).splitOn '.' = (text.splitOn '.').map (List.map Char.toLower) := by
  induction text with
  | nil => rfl
  | cons c rest ih =>
    obtain ⟨part, parts, split⟩ := List.exists_cons_of_ne_nil (List.splitOn_ne_nil '.' rest)
    rw [List.map_cons, List.splitOn_cons_eq_if_modifyHead, List.splitOn_cons_eq_if_modifyHead, ih,
      split]
    by_cases dot : c = '.'
    · simp [dot]
    · have other := mt (toLower_eq_mark_iff (.inl rfl)).1 dot
      simp [dot, other]

end Unicode

/-! ## Parts in small letters -/

namespace ResourceKey

open Unicode (isWordChar)

theorem isWordChar_of_isLetterOrDigit {c : Char} (h : isLetterOrDigit c = true) :
    isWordChar c = true := by
  simp only [isLetterOrDigit, Bool.or_eq_true, Bool.and_eq_true, decide_eq_true_eq] at h
  rcases h with ⟨low, high⟩ | digit
  · exact Unicode.isWordChar_iff.2 (.inl (.inl (.inr (Unicode.isLower_iff.2 ⟨low, high⟩))))
  · exact Unicode.isWordChar_iff.2 (.inl (.inr digit))

theorem toLower_of_isLetterOrDigit {c : Char} (h : isLetterOrDigit c = true) : c.toLower = c :=
  Unicode.ascii_cases (P := fun c => isLetterOrDigit c = true → c.toLower = c) (by decide +kernel)
    (Unicode.ascii_of_isWordChar (isWordChar_of_isLetterOrDigit h)) h

theorem isLetterOrDigit_toLower {c : Char} (h : c.isAlphanum = true) :
    isLetterOrDigit c.toLower = true :=
  Unicode.ascii_cases (P := fun c => c.isAlphanum = true → isLetterOrDigit c.toLower = true)
    (by decide +kernel) (Unicode.ascii_of_isWordChar (by simp [isWordChar, h])) h

theorem isLetterOrDigit_of_isRun {digits : List Char} (h : IsRun Char.isDigit digits) :
    ∀ c ∈ digits, isLetterOrDigit c = true :=
  fun c hc => by simp [isLetterOrDigit, h.all c hc]

/-- Every character of a version is a small letter or a digit. -/
theorem IsVersion.all {part : List Char} (h : IsVersion part) :
    ∀ c ∈ part, isLetterOrDigit c = true := by
  obtain ⟨number, stage, rfl, digits, ends⟩ := h
  have letters : ∀ c ∈ stage, isLetterOrDigit c = true := by
    rcases ends with rfl | ⟨more, run, rfl | rfl⟩
    · simp
    · exact List.forall_mem_append.2 ⟨List.all_eq_true.1 rfl, isLetterOrDigit_of_isRun run⟩
    · exact List.forall_mem_append.2 ⟨List.all_eq_true.1 rfl, isLetterOrDigit_of_isRun run⟩
  exact List.forall_mem_cons.2
    ⟨rfl, List.forall_mem_append.2 ⟨isLetterOrDigit_of_isRun digits, letters⟩⟩

variable {letter : Char → Bool} {parts : List (List Char)}

theorem Spells.all (word : ∀ c, letter c = true → isWordChar c = true) (h : Spells letter parts) :
    ∀ part ∈ parts, ∀ c ∈ part, isWordChar c = true := by
  match parts, h with
  | kind :: version :: labels, ⟨run, number, each⟩ =>
    refine List.forall_mem_cons.2 ⟨fun c hc => word c (run.all c hc), List.forall_mem_cons.2
      ⟨fun c hc => isWordChar_of_isLetterOrDigit (number.all c hc), fun label hl c hc => ?_⟩⟩
    rcases (each label hl).all c hc with letter | rfl
    · exact word c letter
    · rfl

theorem map_toLower_eq_self {part : List Char}
    (h : ∀ c ∈ part, isLetterOrDigit c = true ∨ c = '-') : part.map Char.toLower = part := by
  refine (List.map_congr_left fun c hc => ?_).trans (List.map_id' part)
  rcases h c hc with letter | rfl
  · exact toLower_of_isLetterOrDigit letter
  · rfl

theorem IsVersion.map_toLower {part : List Char} (h : IsVersion part) :
    part.map Char.toLower = part :=
  map_toLower_eq_self fun c hc => .inl (h.all c hc)

theorem IsLabel.lower {label : List Char} (h : IsLabel Char.isAlphanum label) :
    IsLabel isLetterOrDigit (label.map Char.toLower) where
  nonempty := mt List.map_eq_nil_iff.1 h.nonempty
  all := by
    refine List.forall_mem_map.2 fun c hc => ?_
    exact (h.all c hc).imp isLetterOrDigit_toLower (Unicode.toLower_eq_mark_iff (.inr rfl)).2
  first := by
    rw [List.head?_map]
    intro hyphen
    obtain ⟨c, first, same⟩ := Option.map_eq_some_iff.1 hyphen
    exact h.first ((Unicode.toLower_eq_mark_iff (.inr rfl)).1 same ▸ first)
  last := by
    rw [List.getLast?_map]
    intro hyphen
    obtain ⟨c, last, same⟩ := Option.map_eq_some_iff.1 hyphen
    exact h.last ((Unicode.toLower_eq_mark_iff (.inr rfl)).1 same ▸ last)

theorem Spells.lower (h : Spells Char.isAlphanum parts) :
    Spells isLetterOrDigit (parts.map (List.map Char.toLower)) := by
  match parts, h with
  | kind :: version :: labels, ⟨run, number, each⟩ =>
    refine ⟨⟨mt List.map_eq_nil_iff.1 run.nonempty, ?_⟩, ?_, ?_⟩
    · exact List.forall_mem_map.2 fun c hc => isLetterOrDigit_toLower (run.all c hc)
    · rwa [number.map_toLower]
    · exact List.forall_mem_map.2 fun label hl => (each label hl).lower

theorem Spells.lower_eq_self (h : Spells isLetterOrDigit parts) :
    parts.map (List.map Char.toLower) = parts := by
  match parts, h with
  | kind :: version :: labels, ⟨run, number, each⟩ =>
    rw [List.map_cons, List.map_cons, map_toLower_eq_self fun c hc => .inl (run.all c hc),
      number.map_toLower]
    congr 2
    exact (List.map_congr_left fun label hl => map_toLower_eq_self (each label hl).all).trans
      (List.map_id' labels)

end ResourceKey

/-! ## Types -/

namespace ResourceType

/-- What a type brings to its key: a kind, a version, and the labels of a group that has a name. -/
def parts (t : ResourceType) : List (List Char) :=
  t.kind.toList :: t.version.toList ::
    if t.group = "" then [] else t.group.toList.splitOn '.'

/-- The type in small letters. -/
def lowered (t : ResourceType) : ResourceType :=
  ⟨t.group.toLower, t.version.toLower, t.kind.toLower⟩

theorem parts_injective {t u : ResourceType} (h : t.parts = u.parts) : t = u := by
  obtain ⟨kind, h⟩ := List.cons.inj h
  obtain ⟨version, labels⟩ := List.cons.inj h
  have group : t.group = u.group := by
    split at labels <;> split at labels
    · rename_i core core'
      rw [core, core']
    · exact absurd labels.symm (List.splitOn_ne_nil _ _)
    · exact absurd labels (List.splitOn_ne_nil _ _)
    · have whole := congrArg ['.'].intercalate labels
      rw [List.intercalate_splitOn, List.intercalate_splitOn] at whole
      exact String.toList_injective whole
  cases t
  cases u
  obtain rfl := String.toList_injective kind
  obtain rfl := String.toList_injective version
  cases group
  rfl

theorem toList_toLower (s : String) : s.toLower.toList = s.toList.map Char.toLower :=
  String.toList_map

theorem toLower_eq_empty_iff {s : String} : s.toLower = "" ↔ s = "" := by
  rw [← String.toList_inj, toList_toLower]
  simp

theorem parts_lowered (t : ResourceType) :
    t.lowered.parts = t.parts.map (List.map Char.toLower) := by
  by_cases group : t.group = "" <;>
    simp [parts, lowered, group, toLower_eq_empty_iff, toList_toLower,
      Unicode.splitOn_map_toLower]

theorem intercalate_parts (t : ResourceType) :
    ['.'].intercalate t.parts = t.kind.toList ++ '.' :: t.dottedVersion := by
  unfold parts dottedVersion
  split
  · simp [List.intercalate]
  · rename_i group
    obtain ⟨label, labels, split⟩ :=
      List.exists_cons_of_ne_nil (List.splitOn_ne_nil '.' t.group.toList)
    have whole : ['.'].intercalate (t.group.toList.splitOn '.') = t.group.toList :=
      List.intercalate_splitOn '.'
    rw [split] at whole ⊢
    rw [List.intercalate_cons_cons, List.intercalate_cons_cons, whole]
    simp

theorem mem_of_mem_intercalate {c d : Char} {parts : List (List Char)}
    (h : c ∈ [d].intercalate parts) : c = d ∨ ∃ part ∈ parts, c ∈ part := by
  induction parts with
  | nil => simp [List.intercalate] at h
  | cons part rest ih =>
    cases rest with
    | nil => exact .inr ⟨part, List.mem_cons_self, by simpa [List.intercalate] using h⟩
    | cons next rest =>
      rw [List.intercalate_cons_cons, List.append_assoc] at h
      rcases List.mem_append.1 h with first | h
      · exact .inr ⟨part, List.mem_cons_self, first⟩
      rcases List.mem_cons.1 h with rfl | later
      · exact .inl rfl
      · exact (ih later).imp_right fun ⟨q, hq, inside⟩ => ⟨q, List.mem_cons_of_mem _ hq, inside⟩

/-- The key of a type that is well spelled has the parts of the type, in small letters. -/
theorem splitOn_key {t : ResourceType}
    (word : ∀ part ∈ t.parts, ∀ c ∈ part, Unicode.isWordChar c = true) :
    t.key.text.toList.splitOn '.' = t.lowered.parts := by
  have undotted : ∀ part ∈ t.parts, '.' ∉ part := fun part hp dot =>
    absurd (word part hp _ dot) (by decide)
  have ascii : ∀ c ∈ ['.'].intercalate t.parts, c.toNat < 128 := by
    intro c hc
    rcases mem_of_mem_intercalate hc with rfl | ⟨part, hp, inside⟩
    · decide
    · exact Unicode.ascii_of_isWordChar (word part hp c inside)
  rw [key_text, ← intercalate_parts, String.toList_ofList, Unicode.lowercase_of_ascii ascii,
    Unicode.splitOn_map_toLower, List.splitOn_intercalate '.' undotted (List.cons_ne_nil _ _),
    parts_lowered]

/-- In small letters a type is told by its key. -/
theorem splitOn_key_of_small {t : ResourceType} (h : Spells isLetterOrDigit t.parts) :
    t.key.text.toList.splitOn '.' = t.parts := by
  rw [splitOn_key (h.all fun _ => ResourceKey.isWordChar_of_isLetterOrDigit), parts_lowered,
    h.lower_eq_self]

/-- Labels that are not empty and have no dots make a group, or there are none. -/
theorem exists_parts (kind version : List Char) {labels : List (List Char)}
    (nonempty : ∀ l ∈ labels, l ≠ []) (undotted : ∀ l ∈ labels, '.' ∉ l) :
    ∃ t : ResourceType, t.parts = kind :: version :: labels := by
  cases labels with
  | nil => exact ⟨⟨"", String.ofList version, String.ofList kind⟩, by simp [parts]⟩
  | cons label labels =>
    have split := List.splitOn_intercalate '.' undotted (List.cons_ne_nil label labels)
    have named : String.ofList (['.'].intercalate (label :: labels)) ≠ "" := by
      intro empty
      rw [← String.toList_eq_nil_iff, String.toList_ofList] at empty
      rw [empty, List.splitOn_nil] at split
      exact nonempty label List.mem_cons_self (List.cons.inj split).1.symm
    refine ⟨⟨String.ofList (['.'].intercalate (label :: labels)), String.ofList version,
      String.ofList kind⟩, ?_⟩
    simp only [parts, named, if_false, String.toList_ofList, split]

end ResourceType

namespace ResourceKey

theorem eq_of_splitOn {a b : ResourceKey}
    (h : a.text.toList.splitOn '.' = b.text.toList.splitOn '.') : a = b := by
  have whole := congrArg ['.'].intercalate h
  rw [List.intercalate_splitOn, List.intercalate_splitOn] at whole
  cases a
  cases b
  exact congrArg _ (String.toList_injective whole)

/-- A key of the grammar is the key of one type in small letters, whose parts are its own. -/
theorem exists_type {key : ResourceKey} (h : IsKey key.text) :
    ∃ t : ResourceType, Spells isLetterOrDigit t.parts ∧ key.text.toList.splitOn '.' = t.parts ∧
      t.key = key ∧
      ∀ u : ResourceType, Spells isLetterOrDigit u.parts → u.key = key → u = t := by
  have h := h.spells
  have word := h.all fun _ => isWordChar_of_isLetterOrDigit
  generalize same : key.text.toList.splitOn '.' = parts at h word
  match parts, h with
  | kind :: version :: labels, ⟨run, number, each⟩ =>
    have undotted : ∀ l ∈ labels, '.' ∉ l := fun l hl dot =>
      absurd (word l (by simp [hl]) _ dot) (by decide)
    obtain ⟨t, parts⟩ := ResourceType.exists_parts kind version (fun l hl => (each l hl).nonempty)
      undotted
    have spelled : Spells isLetterOrDigit t.parts := parts ▸ ⟨run, number, each⟩
    refine ⟨t, spelled, parts.symm, ?_, ?_⟩
    · apply eq_of_splitOn
      rw [ResourceType.splitOn_key_of_small spelled, same, parts]
    · intro u small key
      apply ResourceType.parts_injective
      rw [← ResourceType.splitOn_key_of_small small, key, same, parts]

end ResourceKey

namespace ResourceType

variable {t u : ResourceType}

theorem all_of_spells (h : Spells Char.isAlphanum t.parts) :
    ∀ part ∈ t.parts, ∀ c ∈ part, Unicode.isWordChar c = true :=
  h.all fun c letter => by simp [Unicode.isWordChar, letter]

/-- The key of a type that is well spelled, in letters of any case, is a key of the grammar. -/
theorem isKey_key (h : Spells Char.isAlphanum t.parts) : IsKey t.key.text := by
  rw [ResourceKey.isKey_iff, splitOn_key (all_of_spells h), parts_lowered]
  exact h.lower

/-- Types that are well spelled have one key when they are the same but for case. -/
theorem key_eq_key_iff (ht : Spells Char.isAlphanum t.parts)
    (hu : Spells Char.isAlphanum u.parts) : t.key = u.key ↔ t.lowered = u.lowered := by
  have parts := splitOn_key (all_of_spells ht)
  have parts' := splitOn_key (all_of_spells hu)
  constructor
  · intro same
    apply parts_injective
    rw [← parts, ← parts', same]
  · intro same
    apply ResourceKey.eq_of_splitOn
    rw [parts, parts', same]

end ResourceType

end ControllerHooks
