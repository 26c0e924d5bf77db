import ControllerHooks.ResourceType

/-!
# The grammar of keys

A key is told by its parts, which stand between its dots: a kind, a version and the labels of a
group. What a reading still takes up to the next dot is a language of its own, and a character
takes the language of one reading to that of the next.

* `ResourceKey.IsKey` is the grammar, `ResourceKey.Spells` says it of the parts, in any alphabet.
* `Reading.takes_cons`: the language of a reading after one character more.
* `ResourceKey.isWellFormed_iff`: the texts that are read as keys are the texts of the grammar.
-/

namespace ControllerHooks.ResourceKey

open Reading (isLetterOrDigit)

/-! ## Parts -/

/-- Characters of one class, at least one. -/
structure IsRun (among : Char → Bool) (part : List Char) : Prop where
  nonempty : part ≠ []
  all : ∀ c ∈ part, among c = true

/-- The end of a version: nothing, or `alpha` or `beta` with a number. -/
def IsStage (part : List Char) : Prop :=
  part = [] ∨ ∃ number, IsRun Char.isDigit number ∧
    (part = "alpha".toList ++ number ∨ part = "beta".toList ++ number)

/-- A version like `v1` or `v2beta3`. -/
def IsVersion (part : List Char) : Prop :=
  ∃ number stage, part = 'v' :: (number ++ stage) ∧ IsRun Char.isDigit number ∧ IsStage stage

/-- Letters of an alphabet and hyphens, with no hyphen at either end. -/
structure IsLabel (letter : Char → Bool) (part : List Char) : Prop where
  nonempty : part ≠ []
  all : ∀ c ∈ part, letter c = true ∨ c = '-'
  first : part.head? ≠ some '-'
  last : part.getLast? ≠ some '-'

/-- The parts are a kind, a version and the labels of a group. -/
def Spells (letter : Char → Bool) : List (List Char) → Prop
  | kind :: version :: labels =>
    IsRun letter kind ∧ IsVersion version ∧ ∀ label ∈ labels, IsLabel letter label
  | _ => False

/-- The text of a key, in small letters and digits. -/
structure IsKey (text : String) : Prop where
  spells : Spells isLetterOrDigit (text.toList.splitOn '.')

theorem isKey_iff {text : String} :
    IsKey text ↔ Spells isLetterOrDigit (text.toList.splitOn '.') := ⟨IsKey.spells, IsKey.mk⟩

/-! ## What a reading takes -/

namespace Reading

/-- What may follow a reading up to the next dot. -/
def Takes : Reading → List Char → Prop
  | start, part => IsRun isLetterOrDigit part
  | kind, part => ∀ c ∈ part, isLetterOrDigit c = true
  | version, part => IsVersion part
  | versionMark, part =>
    ∃ number stage, part = number ++ stage ∧ IsRun Char.isDigit number ∧ IsStage stage
  | versionNumber, part =>
    ∃ number stage, part = number ++ stage ∧ (∀ c ∈ number, c.isDigit = true) ∧ IsStage stage
  | stage letters, part => ∃ number, part = letters ++ number ∧ IsRun Char.isDigit number
  | stageNumber begun, part => (begun = true ∨ part ≠ []) ∧ ∀ c ∈ part, c.isDigit = true
  | label, part => IsLabel isLetterOrDigit part
  | inLabel, part => (∀ c ∈ part, isLetterOrDigit c = true ∨ c = '-') ∧ part.getLast? ≠ some '-'
  | hyphen, part =>
    part ≠ [] ∧ (∀ c ∈ part, isLetterOrDigit c = true ∨ c = '-') ∧ part.getLast? ≠ some '-'
  | refused, _ => False

/-- A reading past the kind. A dot is no letter of a stage. -/
def PastKind : Reading → Prop
  | start | kind => False
  | stage letters => '.' ∉ letters
  | _ => True

theorem isRun_cons {among : Char → Bool} {c : Char} {part : List Char} :
    IsRun among (c :: part) ↔ among c = true ∧ ∀ d ∈ part, among d = true := by
  constructor
  · exact fun h => List.forall_mem_cons.1 h.all
  · exact fun h => ⟨List.cons_ne_nil c part, List.forall_mem_cons.2 h⟩

theorem isRun_iff {among : Char → Bool} {part : List Char} :
    IsRun among part ↔ part ≠ [] ∧ ∀ c ∈ part, among c = true :=
  ⟨fun h => ⟨h.nonempty, h.all⟩, fun ⟨nonempty, all⟩ => ⟨nonempty, all⟩⟩

/-- A stage begins with a letter, and the rest of its name follows. -/
theorem isStage_cons {c : Char} {part : List Char} :
    IsStage (c :: part) ↔ c = 'a' ∧ (stage ['l', 'p', 'h', 'a']).Takes part ∨
      c = 'b' ∧ (stage ['e', 't', 'a']).Takes part := by
  simp only [IsStage, reduceCtorEq, false_or, Takes]
  constructor
  · rintro ⟨number, digits, same | same⟩
    · obtain ⟨rfl, rfl⟩ := List.cons.inj same
      exact .inl ⟨rfl, number, rfl, digits⟩
    · obtain ⟨rfl, rfl⟩ := List.cons.inj same
      exact .inr ⟨rfl, number, rfl, digits⟩
  · rintro (⟨rfl, number, rfl, digits⟩ | ⟨rfl, number, rfl, digits⟩)
    · exact ⟨number, digits, .inl rfl⟩
    · exact ⟨number, digits, .inr rfl⟩

theorem versionMark_takes_cons {c : Char} {part : List Char} :
    versionMark.Takes (c :: part) ↔ c.isDigit = true ∧ versionNumber.Takes part := by
  constructor
  · rintro ⟨_ | ⟨d, number⟩, stage, same, digits, ends⟩
    · exact absurd rfl digits.nonempty
    · obtain ⟨rfl, rfl⟩ := List.cons.inj same
      obtain ⟨digit, digits⟩ := isRun_cons.1 digits
      exact ⟨digit, number, stage, rfl, digits, ends⟩
  · rintro ⟨digit, number, stage, rfl, digits, ends⟩
    exact ⟨c :: number, stage, rfl, isRun_cons.2 ⟨digit, digits⟩, ends⟩

/-- After the number of a version comes a digit more, or a stage. -/
theorem versionNumber_takes_cons {c : Char} {part : List Char} :
    versionNumber.Takes (c :: part) ↔
      c.isDigit = true ∧ versionNumber.Takes part ∨ IsStage (c :: part) := by
  constructor
  · rintro ⟨_ | ⟨d, number⟩, stage, same, digits, ends⟩
    · obtain rfl : c :: part = stage := same
      exact .inr ends
    · obtain ⟨rfl, rfl⟩ := List.cons.inj same
      obtain ⟨digit, digits⟩ := List.forall_mem_cons.1 digits
      exact .inl ⟨digit, number, stage, rfl, digits, ends⟩
  · rintro (⟨digit, number, stage, rfl, digits, ends⟩ | ends)
    · exact ⟨c :: number, stage, rfl, List.forall_mem_cons.2 ⟨digit, digits⟩, ends⟩
    · exact ⟨[], c :: part, rfl, by simp, ends⟩

theorem getLast?_hyphen_cons {part : List Char} :
    ('-' :: part).getLast? ≠ some '-' ↔ part ≠ [] ∧ part.getLast? ≠ some '-' := by
  cases part <;> simp [List.getLast?_cons]

theorem getLast?_cons_of_ne {c : Char} {part : List Char} (h : c ≠ '-') :
    (c :: part).getLast? ≠ some '-' ↔ part.getLast? ≠ some '-' := by
  cases part <;> simp [List.getLast?_cons, h]

theorem hyphen_is_no_letter {c : Char} (h : isLetterOrDigit c = true) : c ≠ '-' := by
  rintro rfl
  cases h

/-- After a character of a label comes a letter, or hyphens and then a letter. -/
theorem inLabel_takes_cons {c : Char} {part : List Char} :
    inLabel.Takes (c :: part) ↔
      isLetterOrDigit c = true ∧ inLabel.Takes part ∨ c = '-' ∧ hyphen.Takes part := by
  simp only [Takes, List.forall_mem_cons]
  constructor
  · rintro ⟨⟨letter | rfl, all⟩, last⟩
    · exact .inl ⟨letter, all, (getLast?_cons_of_ne (hyphen_is_no_letter letter)).1 last⟩
    · obtain ⟨more, last⟩ := getLast?_hyphen_cons.1 last
      exact .inr ⟨rfl, more, all, last⟩
  · rintro (⟨letter, all, last⟩ | ⟨rfl, more, all, last⟩)
    · exact ⟨⟨.inl letter, all⟩, (getLast?_cons_of_ne (hyphen_is_no_letter letter)).2 last⟩
    · exact ⟨⟨.inr rfl, all⟩, getLast?_hyphen_cons.2 ⟨more, last⟩⟩

theorem hyphen_takes_cons {c : Char} {part : List Char} :
    hyphen.Takes (c :: part) ↔ inLabel.Takes (c :: part) := by
  simp [Takes]

theorem label_takes_cons {c : Char} {part : List Char} :
    label.Takes (c :: part) ↔ isLetterOrDigit c = true ∧ inLabel.Takes part := by
  constructor
  · rintro ⟨_, all, first, last⟩
    have other : c ≠ '-' := fun same => first (congrArg some same)
    obtain ⟨head, all⟩ := List.forall_mem_cons.1 all
    exact ⟨head.resolve_right other, all, (getLast?_cons_of_ne other).1 last⟩
  · rintro ⟨letter, all, last⟩
    have other := hyphen_is_no_letter letter
    exact ⟨List.cons_ne_nil c part, List.forall_mem_cons.2 ⟨.inl letter, all⟩,
      fun same => other (Option.some.inj same), (getLast?_cons_of_ne other).2 last⟩

theorem stage_takes_cons {d c : Char} {letters part : List Char} :
    (stage (d :: letters)).Takes (c :: part) ↔ c = d ∧ (stage letters).Takes part := by
  constructor
  · rintro ⟨number, same, digits⟩
    obtain ⟨rfl, rfl⟩ := List.cons.inj same
    exact ⟨rfl, number, rfl, digits⟩
  · rintro ⟨rfl, number, rfl, digits⟩
    exact ⟨number, rfl, digits⟩

/-- After its name a stage is a number. -/
theorem stage_nil_takes {part : List Char} :
    (stage []).Takes part ↔ (stageNumber false).Takes part := by
  simp [Takes, isRun_iff]

@[simp] theorem refused_takes {part : List Char} : refused.Takes part ↔ False := Iff.rfl

/-- What a reading takes after a character is what the next one takes. -/
theorem takes_cons {r : Reading} {c : Char} {part : List Char} (plain : c ≠ '.') :
    r.Takes (c :: part) ↔ (r.step c).Takes part := by
  cases r with
  | start => by_cases letter : isLetterOrDigit c = true <;> simp [Takes, step, isRun_cons, letter]
  | kind => by_cases letter : isLetterOrDigit c = true <;> simp [Takes, step, letter, plain]
  | version => by_cases mark : c = 'v' <;> simp [Takes, step, IsVersion, mark]
  | versionMark =>
    rw [versionMark_takes_cons]
    by_cases digit : c.isDigit = true <;> simp [step, digit]
  | versionNumber =>
    rw [versionNumber_takes_cons, isStage_cons]
    by_cases alpha : c = 'a'
    · simp [step, alpha]
    by_cases beta : c = 'b'
    · simp [step, beta]
    · by_cases digit : c.isDigit = true <;> simp [step, digit, alpha, beta, plain]
  | stage letters =>
    match letters with
    | [] =>
      rw [stage_nil_takes]
      by_cases digit : c.isDigit = true <;> simp [Takes, step, digit]
    | [d] =>
      rw [stage_takes_cons, stage_nil_takes]
      by_cases next : c = d <;> simp [step, next]
    | d :: e :: letters =>
      rw [stage_takes_cons]
      by_cases next : c = d <;> simp [step, next]
  | stageNumber begun => by_cases digit : c.isDigit = true <;> simp [Takes, step, digit, plain]
  | label =>
    rw [label_takes_cons]
    by_cases letter : isLetterOrDigit c = true <;> simp [step, letter]
  | inLabel =>
    rw [inLabel_takes_cons]
    by_cases dash : c = '-'
    · simp [step, dash, show isLetterOrDigit '-' = false from rfl]
    · by_cases letter : isLetterOrDigit c = true <;> simp [step, letter, dash, plain]
  | hyphen =>
    rw [hyphen_takes_cons, inLabel_takes_cons]
    by_cases dash : c = '-'
    · simp [step, dash, show isLetterOrDigit '-' = false from rfl]
    · by_cases letter : isLetterOrDigit c = true <;> simp [step, letter, dash]
  | refused => exact Iff.rfl

/-! ## Whole texts -/

/-- A text that completes a reading. -/
def Accepts (r : Reading) (text : List Char) : Prop := (text.foldl step r).isComplete = true

theorem accepts_nil_iff {r : Reading} (later : r.PastKind) : r.Accepts [] ↔ r.Takes [] := by
  cases r with
  | start | kind => exact later.elim
  | stageNumber begun => cases begun <;> simp [Accepts, isComplete, Takes]
  | versionNumber => exact ⟨fun _ => ⟨[], [], rfl, by simp, .inl rfl⟩, fun _ => rfl⟩
  | label => exact ⟨fun none => absurd none Bool.false_ne_true, fun h => absurd rfl h.nonempty⟩
  | version | versionMark | stage | inLabel | hyphen | refused =>
    simp [Accepts, isComplete, Takes, IsVersion, isRun_iff]

theorem pastKind_step {r : Reading} (later : r.PastKind) (c : Char) : (r.step c).PastKind := by
  cases r with
  | start | kind => exact later.elim
  | stage letters =>
    match letters with
    | [] => by_cases digit : c.isDigit = true <;> simp [step, digit, PastKind]
    | [d] => by_cases next : c = d <;> simp [step, next, PastKind]
    | d :: e :: letters =>
      by_cases next : c = d
      · exact next ▸ by simpa [step, PastKind] using mt (List.mem_cons_of_mem d) later
      · simp [step, next, PastKind]
  | version | versionMark | versionNumber | stageNumber | label | inLabel | hyphen | refused =>
    simp only [step]
    repeat' split
    all_goals simp [PastKind]

/-- At a dot a reading is complete and labels follow, or nothing can follow. -/
theorem step_dot {r : Reading} (later : r.PastKind) :
    r.step '.' = if r.isComplete then label else refused := by
  cases r with
  | start | kind => exact later.elim
  | stage letters =>
    match letters with
    | [] => rfl
    | d :: letters =>
      have other : '.' ≠ d := fun same => later (same ▸ List.mem_cons_self)
      cases letters <;> simp [step, other, isComplete]
  | stageNumber begun => cases begun <;> rfl
  | version | versionMark | versionNumber | label | inLabel | hyphen | refused => rfl

/-- Past the kind, a reading goes on to the next dot, and then there are labels. -/
theorem accepts_iff {r : Reading} (later : r.PastKind) {text part : List Char}
    {labels : List (List Char)} (split : text.splitOn '.' = part :: labels) :
    r.Accepts text ↔ r.Takes part ∧ ∀ l ∈ labels, IsLabel isLetterOrDigit l := by
  induction text generalizing r part labels with
  | nil =>
    rw [List.splitOn_nil] at split
    obtain ⟨rfl, rfl⟩ := List.cons.inj split
    simpa using accepts_nil_iff later
  | cons c rest ih =>
    obtain ⟨next, more, parts⟩ := List.exists_cons_of_ne_nil (List.splitOn_ne_nil '.' rest)
    rw [List.splitOn_cons_eq_if_modifyHead, parts] at split
    have step : r.Accepts (c :: rest) ↔ (r.step c).Accepts rest := Iff.rfl
    rw [step, ih (pastKind_step later c) parts]
    by_cases dot : c = '.'
    · subst dot
      obtain ⟨rfl, rfl⟩ := List.cons.inj (by simpa using split)
      rw [step_dot later, ← accepts_nil_iff later, List.forall_mem_cons]
      cases complete : r.isComplete <;> simp [Accepts, complete, Takes]
    · obtain ⟨rfl, rfl⟩ := List.cons.inj (by simpa [dot] using split)
      rw [takes_cons dot]

theorem refused_accepts (text : List Char) : ¬ refused.Accepts text := by
  obtain ⟨part, labels, split⟩ := List.exists_cons_of_ne_nil (List.splitOn_ne_nil '.' text)
  have pastKind : refused.PastKind := trivial
  rw [accepts_iff pastKind split]
  exact fun h => h.1

/-- A kind goes on with a letter, or nothing does. -/
theorem step_early {r : Reading} (early : r = start ∨ r = kind) {c : Char} (plain : c ≠ '.') :
    r.step c = kind ∨ r.step c = refused := by
  rcases early with rfl | rfl
  · by_cases letter : isLetterOrDigit c = true <;> simp [step, letter]
  · by_cases letter : isLetterOrDigit c = true <;> simp [step, letter, plain]

/-- Up to the first dot a kind is read, then come a version and labels. -/
theorem early_accepts_iff {r : Reading} (early : r = start ∨ r = kind) {text part : List Char}
    {parts : List (List Char)} (split : text.splitOn '.' = part :: parts) :
    r.Accepts text ↔ r.Takes part ∧ ∃ v labels, parts = v :: labels ∧ IsVersion v ∧
      ∀ l ∈ labels, IsLabel isLetterOrDigit l := by
  induction text generalizing r part parts with
  | nil =>
    rw [List.splitOn_nil] at split
    obtain ⟨rfl, rfl⟩ := List.cons.inj split
    rcases early with rfl | rfl <;> simp [Accepts, isComplete]
  | cons c rest ih =>
    obtain ⟨next, more, later⟩ := List.exists_cons_of_ne_nil (List.splitOn_ne_nil '.' rest)
    rw [List.splitOn_cons_eq_if_modifyHead, later] at split
    have step : r.Accepts (c :: rest) ↔ (r.step c).Accepts rest := Iff.rfl
    rw [step]
    by_cases dot : c = '.'
    · subst dot
      obtain ⟨rfl, rfl⟩ := List.cons.inj (by simpa using split)
      rcases early with rfl | rfl
      · have refuses : start.step '.' = refused := rfl
        simp [refuses, refused_accepts, Takes, isRun_iff]
      · have goes : kind.step '.' = version := rfl
        have pastKind : version.PastKind := trivial
        rw [goes, accepts_iff pastKind later]
        simp [Takes, and_assoc]
    · obtain ⟨rfl, rfl⟩ := List.cons.inj (by simpa [dot] using split)
      rw [takes_cons dot]
      rcases step_early early dot with goes | refuses
      · rw [goes, ih (.inr rfl) later]
      · simp [refuses, refused_accepts]

end Reading

/-- The texts that are read as keys are the texts of the grammar. -/
theorem isWellFormed_iff {text : String} : isWellFormed text = true ↔ IsKey text := by
  obtain ⟨kind, parts, split⟩ :=
    List.exists_cons_of_ne_nil (List.splitOn_ne_nil '.' text.toList)
  have whole := Reading.early_accepts_iff (.inl rfl) split
  rw [isKey_iff, split]
  refine whole.trans ?_
  cases parts <;> simp [Spells, Reading.Takes, and_assoc]

instance (text : String) : Decidable (IsKey text) := decidable_of_iff _ isWellFormed_iff

end ControllerHooks.ResourceKey
