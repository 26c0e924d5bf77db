import ControllerHooks.Timestamp
import ControllerHooks.Proofs.Digits
import ControllerHooks.Proofs.Outcome

/-!
# Timestamps and their texts

* `Timestamp.valid_of_parse`: what is read is a date of the calendar and a time of day.
* `Timestamp.parse_text`: such a point in time is read back from its text, up to the fraction of
  its second.
-/

namespace ControllerHooks.Timestamp

/-! ## Steps of reading -/

section
variable {α β : Type} {text rest : List Char}

/-- The step takes a text to a value, and leaves the rest of the text. -/
def Reads (x : Scanner α) (text : List Char) (a : α) (rest : List Char) : Prop :=
  x.run text = .ok (a, rest)

theorem reads_bind_iff {x : Scanner α} {f : α → Scanner β} {b : β} :
    Reads (x >>= f) text b rest ↔ ∃ a mid, Reads x text a mid ∧ Reads (f a) mid b rest := by
  simp [Reads, bind_eq_ok, StateT.run_bind, Prod.exists]

theorem reads_pure_iff {a b : α} :
    Reads (pure a : Scanner α) text b rest ↔ b = a ∧ rest = text := by
  simp [Reads, eq_comm]

theorem reads_throw_iff {e : Error} {b : α} :
    Reads (throw e : Scanner α) text b rest ↔ False :=
  iff_of_false (fun h => by cases h) id

theorem reads_get_iff {a : List Char} :
    Reads (get : Scanner (List Char)) text a rest ↔ a = text ∧ rest = text := by
  simp [Reads, eq_comm]

theorem reads_set (s : List Char) : Reads (set s : Scanner PUnit) text ⟨⟩ s := rfl

theorem reads_modify_iff {f : List Char → List Char} {u : PUnit} :
    Reads (modify f : Scanner PUnit) text u rest ↔ rest = f text := by
  simp [Reads, eq_comm]

theorem reads_ite_iff {c : Prop} [Decidable c] {x y : Scanner α} {b : α} :
    Reads (if c then x else y) text b rest ↔
      c ∧ Reads x text b rest ∨ ¬ c ∧ Reads y text b rest := by
  by_cases h : c <;> simp [h]

/-- Beyond a guard its condition fails. -/
theorem reads_guard_iff {c : Prop} [Decidable c] {e : Error} {f : PUnit → Scanner α}
    {x : Scanner α} {b : α} :
    Reads (if c then throw e >>= f else x) text b rest ↔ ¬ c ∧ Reads x text b rest := by
  simp [reads_ite_iff, reads_bind_iff, reads_throw_iff]

theorem Reads.bind {x : Scanner α} {f : α → Scanner β} {a : α} {b : β} {mid : List Char}
    (head : Reads x text a mid) (tail : Reads (f a) mid b rest) : Reads (x >>= f) text b rest :=
  reads_bind_iff.2 ⟨a, mid, head, tail⟩

end

/-! ## Numbers -/

theorem reads_number {width : Nat} {ds rest : List Char} (some_digit : ds ≠ [])
    (all : ∀ c ∈ ds, c.isDigit = true)
    (ends : ((ds ++ rest).take width).takeWhile Char.isDigit = ds) :
    Reads (number width) (ds ++ rest) (Nat.ofDigitChars 10 ds 0) rest := by
  obtain ⟨c, more, rfl⟩ := List.exists_cons_of_ne_nil some_digit
  have digit : c.isDigit = true := all c List.mem_cons_self
  have places : Reads (digits width) (c :: more ++ rest) (c :: more) rest := by
    refine (reads_get_iff.2 ⟨rfl, rfl⟩).bind ?_
    simp only [List.cons_append, if_pos digit]
    rw [List.cons_append] at ends
    rw [ends]
    refine (reads_set _).bind (reads_pure_iff.2 ⟨rfl, ?_⟩)
    rw [← List.cons_append, List.drop_left]
  exact places.bind rfl

theorem padded_isDigit (width n : Nat) : ∀ c ∈ padded width n, c.isDigit = true := by
  intro c hc
  rcases List.mem_append.1 hc with zero | digit
  · rw [(List.mem_replicate.1 zero).2]
    rfl
  · exact Digits.isDigit_toDigits n c digit

theorem padded_ne_nil (width n : Nat) : padded width n ≠ [] := by
  simp [padded, Nat.toDigits_ne_nil]

theorem length_padded {width n : Nat} (fits : (Nat.toDigits 10 n).length ≤ width) :
    (padded width n).length = width := by
  simp only [padded, List.length_append, List.length_replicate]
  omega

theorem ofDigitChars_padded (width n : Nat) : Nat.ofDigitChars 10 (padded width n) 0 = n := by
  rw [padded, Nat.ofDigitChars_append, Nat.ofDigitChars_replicate_zero, Nat.mul_zero,
    Nat.ofDigitChars_ten_toDigits]

theorem takeWhile_isDigit {ds : List Char} (all : ∀ c ∈ ds, c.isDigit = true) :
    ds.takeWhile Char.isDigit = ds := by
  induction ds with
  | nil => rfl
  | cons c rest ih =>
    obtain ⟨digit, later⟩ := List.forall_mem_cons.1 all
    rw [List.takeWhile_cons_of_pos digit, ih later]

/-- A number of exactly so many digits. -/
theorem reads_padded {width n : Nat} (fits : (Nat.toDigits 10 n).length ≤ width)
    (rest : List Char) : Reads (number width) (padded width n ++ rest) n rest := by
  have ends : ((padded width n ++ rest).take width).takeWhile Char.isDigit = padded width n := by
    rw [List.take_append_of_le_length (Nat.le_of_eq (length_padded fits).symm),
      List.take_of_length_le (Nat.le_of_eq (length_padded fits)),
      takeWhile_isDigit (padded_isDigit width n)]
  have number := reads_number (padded_ne_nil width n) (padded_isDigit width n) ends
  rwa [ofDigitChars_padded] at number

/-- A number before something that is no digit. -/
theorem reads_unbounded {width n : Nat} {c : Char} (other : c.isDigit = false)
    (rest : List Char) : Reads (number (padded width n ++ c :: rest).length)
      (padded width n ++ c :: rest) n (c :: rest) := by
  have ends : ((padded width n ++ c :: rest).take (padded width n ++ c :: rest).length).takeWhile
      Char.isDigit = padded width n := by
    rw [List.take_length, List.takeWhile_append_of_pos (padded_isDigit width n)]
    simp [other]
  have number := reads_number (padded_ne_nil width n) (padded_isDigit width n) ends
  rwa [ofDigitChars_padded] at number

/-! ## Parts of a text -/

theorem isBlank_digit {c : Char} (h : c.isDigit = true) : Unicode.isBlank c = false := by
  have range : 48 ≤ c.toNat ∧ c.toNat ≤ 57 := by
    simpa [Char.isDigit, Char.le_def, UInt32.le_iff_toNat_le] using h
  simp only [Unicode.isBlank, Unicode.inRanges, Unicode.blankRanges]
  simp
  omega

theorem reads_blanks {text : List Char} (h : ∀ c ∈ text.head?, Unicode.isBlank c = false) :
    Reads blanks text () text := by
  refine reads_modify_iff.2 ?_
  cases text with
  | nil => rfl
  | cons c rest => simp [h c rfl]

theorem head?_padded (width n : Nat) (rest : List Char) :
    ∀ c ∈ (padded width n ++ rest).head?, c.isDigit = true := by
  intro c hc
  obtain ⟨d, more, here⟩ := List.exists_cons_of_ne_nil (padded_ne_nil width n)
  obtain rfl : d = c := by simpa [here] using hc
  exact padded_isDigit width n d (by simp [here])

theorem reads_separator {c : Char} (h : Unicode.isBlank c = false) (rest : List Char) :
    Reads (separator c) (c :: rest) () rest := by
  have front : Reads blanks (c :: rest) () (c :: rest) := reads_blanks (by simpa using h)
  refine front.bind ?_
  simp [Reads, literal]

theorem reads_field {low high n : Nat} (least : low ≤ n) (most : n ≤ high) (short : high < 100)
    (rest : List Char) : Reads (field low high) (padded 2 n ++ rest) n rest := by
  have front : Reads blanks (padded 2 n ++ rest) () (padded 2 n ++ rest) :=
    reads_blanks fun c hc => isBlank_digit (head?_padded 2 n rest c hc)
  have digits : (Nat.toDigits 10 n).length ≤ 2 :=
    (Nat.length_toDigits_le_iff (by decide) (by decide)).2 (by omega)
  have two : Reads (number 2) (padded 2 n ++ rest) n rest := reads_padded digits rest
  refine front.bind (two.bind ?_)
  rw [if_pos ⟨least, most⟩]
  rfl

/-- A year that was read, as far as it is a number of 32 bits. -/
theorem reads_bounded {y : Int} (range : -0x80000000 ≤ y ∧ y < 0x80000000) (rest : List Char) :
    Reads (if -0x80000000 ≤ y ∧ y < 0x80000000 then pure y else throw .outOfRange : Scanner Int)
      rest y rest := by
  rw [if_pos range]
  rfl

theorem reads_four {n : Nat} (four : n < 10000) (rest : List Char) :
    Reads scanYear (padded 4 n ++ rest) n rest := by
  have front : Reads blanks (padded 4 n ++ rest) () (padded 4 n ++ rest) :=
    reads_blanks fun c hc => isBlank_digit (head?_padded 4 n rest c hc)
  have digits : (Nat.toDigits 10 n).length ≤ 4 :=
    (Nat.length_toDigits_le_iff (by decide) (by decide)).2 four
  have places : Reads (number 4) (padded 4 n ++ rest) n rest := reads_padded digits rest
  have ends := reads_bounded (y := n) (by omega) rest
  have digit := head?_padded 4 n rest
  refine front.bind ((reads_get_iff.2 ⟨rfl, rfl⟩).bind ?_)
  generalize padded 4 n ++ rest = text at digit places
  split
  · simp at digit
  · simp at digit
  · exact places.bind ((reads_pure_iff.2 ⟨rfl, rfl⟩).bind ends)

theorem reads_signed {y : Int} (range : minYear ≤ y ∧ y ≤ maxYear) (rest : List Char) :
    Reads scanYear ((if y < 0 then '-' else '+') :: padded 4 y.natAbs ++ '-' :: rest) y
      ('-' :: rest) := by
  simp only [minYear, maxYear] at range
  have places : Reads (number (padded 4 y.natAbs ++ '-' :: rest).length)
      (padded 4 y.natAbs ++ '-' :: rest) y.natAbs ('-' :: rest) := reads_unbounded rfl rest
  have front : Reads blanks ((if y < 0 then '-' else '+') :: padded 4 y.natAbs ++ '-' :: rest) ()
      ((if y < 0 then '-' else '+') :: padded 4 y.natAbs ++ '-' :: rest) := by
    refine reads_blanks ?_
    by_cases negative : y < 0
    · simpa [negative] using (by decide : Unicode.isBlank '-' = false)
    · simpa [negative] using (by decide : Unicode.isBlank '+' = false)
  have ends := reads_bounded (y := y) (by omega) ('-' :: rest)
  refine front.bind ((reads_get_iff.2 ⟨rfl, rfl⟩).bind ?_)
  by_cases negative : y < 0
  · have magnitude : y = -(y.natAbs : Int) := by omega
    simp only [negative, if_true, List.cons_append]
    refine (reads_set _).bind (places.bind ?_)
    exact (reads_pure_iff.2 ⟨magnitude, rfl⟩).bind ends
  · have magnitude : y = (y.natAbs : Int) := by omega
    simp only [negative, if_false, List.cons_append]
    refine (reads_set _).bind (places.bind ?_)
    exact (reads_pure_iff.2 ⟨magnitude, rfl⟩).bind ends

theorem reads_year {y : Int} (range : minYear ≤ y ∧ y ≤ maxYear) (rest : List Char) :
    Reads scanYear (yearChars y ++ '-' :: rest) y ('-' :: rest) := by
  by_cases four : 0 ≤ y ∧ y ≤ 9999
  · have magnitude : y = (y.natAbs : Int) := by omega
    have year : Reads scanYear (padded 4 y.natAbs ++ '-' :: rest) (y.natAbs : Int) ('-' :: rest) :=
      reads_four (by omega) _
    simpa only [yearChars, if_pos four, ← magnitude] using year
  · simpa only [yearChars, if_neg four] using reads_signed range rest

/-! ## Points in time -/

/-- A date of the calendar and a time of day. -/
structure Valid (t : Timestamp) : Prop where
  year : minYear ≤ t.year ∧ t.year ≤ maxYear
  month : 1 ≤ t.month ∧ t.month ≤ 12
  day : 1 ≤ t.day ∧ t.day ≤ daysIn t.year t.month
  hour : t.hour ≤ 23
  minute : t.minute ≤ 59
  second : t.second ≤ 60

theorem daysIn_le (year : Int) (month : Nat) : daysIn year month ≤ 31 := by
  unfold daysIn
  repeat' split
  all_goals decide

theorem le_daysIn (year : Int) (month : Nat) : 28 ≤ daysIn year month := by
  unfold daysIn
  repeat' split
  all_goals decide

/-- The point in time at the start of its second. -/
def wholeSecond (t : Timestamp) : Timestamp := { t with nanosecond := 0 }

theorem reads_mark (rest : List Char) : Reads dateMark ('T' :: rest) () rest := rfl

theorem reads_no_fraction (rest : List Char) : Reads fraction ('Z' :: rest) 0 ('Z' :: rest) := rfl

theorem reads_utc : Reads offset ['Z'] 0 [] := by
  have other : ¬ isUtc ['Z'] = true := by decide
  refine (reads_get_iff.2 ⟨rfl, rfl⟩).bind ?_
  rw [if_neg other]
  exact (reads_set _).bind rfl

theorem shiftMinutes_here {d : Date} {hour minute : Nat} (hours : hour ≤ 23)
    (minutes : minute ≤ 59) :
    shiftMinutes d ((hour : Int) * 60 + minute - 0) = (d, hour * 60 + minute) := by
  rw [shiftMinutes, if_neg (by omega), if_pos (by omega)]
  congr 1

/-- **Writing and reading.** The text of a point in time is read as its second. -/
theorem parse_text {t : Timestamp} (valid : t.Valid) : parse t.text = .ok t.wholeSecond := by
  have days := daysIn_le t.year t.month
  obtain ⟨year, month, day, hour, minute, second⟩ := valid
  have dash : Unicode.isBlank '-' = false := by decide
  have colon : Unicode.isBlank ':' = false := by decide
  have mark : Unicode.isBlank 'Z' = false := by decide
  have ends : ¬ ([] : List Char) ≠ [] := by simp
  have kept : ¬ (t.year < minYear ∨ maxYear < t.year) := by omega
  have known : ¬ (t.year < minYear ∨ maxYear < t.year ∨ daysIn t.year t.month < t.day) := by omega
  have here : ¬ 1440 ≤ Int.natAbs 0 := by decide
  have hours : (t.hour * 60 + t.minute) / 60 = t.hour := by omega
  have minutes : (t.hour * 60 + t.minute) % 60 = t.minute := by omega
  have read : Reads scan t.chars t.wholeSecond [] := by
    unfold scan
    simp only [chars, List.append_assoc, List.cons_append]
    refine (reads_year year _).bind ?_
    refine (reads_separator dash _).bind ?_
    refine (reads_field month.1 month.2 (by decide) _).bind ?_
    refine (reads_separator dash _).bind ?_
    refine (reads_field day.1 (Nat.le_trans day.2 days) (by decide) _).bind ?_
    refine (reads_mark _).bind ?_
    refine (reads_field (Nat.zero_le _) hour (by decide) _).bind ?_
    refine (reads_separator colon _).bind ?_
    refine (reads_field (Nat.zero_le _) minute (by decide) _).bind ?_
    refine (reads_separator colon _).bind ?_
    refine (reads_field (Nat.zero_le _) second (by decide) _).bind ?_
    refine (reads_no_fraction _).bind ?_
    refine (reads_blanks (by simp [mark])).bind ?_
    refine reads_utc.bind ?_
    refine (reads_blanks (by simp)).bind ?_
    refine (reads_get_iff.2 ⟨rfl, rfl⟩).bind ?_
    simp only [if_neg ends, if_neg known, if_neg here, shiftMinutes_here hour minute, if_neg kept]
    exact reads_pure_iff.2 ⟨by rw [hours, minutes]; rfl, rfl⟩
  have whole : scan.run t.text.toList = .ok (t.wholeSecond, []) := by
    rw [text, String.toList_ofList]
    exact read
  rw [parse, whole]
  rfl

/-! ## What is read -/

theorem reads_field_iff {low high n : Nat} {text rest : List Char} :
    Reads (field low high) text n rest ↔ low ≤ n ∧ n ≤ high ∧
      Reads (number 2) (text.dropWhile Unicode.isBlank) n rest := by
  simp only [field, blanks, reads_bind_iff, reads_modify_iff, reads_ite_iff, reads_pure_iff,
    reads_throw_iff]
  constructor
  · rintro ⟨_, _, rfl, m, _, two, ⟨⟨least, most⟩, rfl, rfl⟩ | ⟨_, failed⟩⟩
    · exact ⟨least, most, two⟩
    · exact failed.elim
  · rintro ⟨least, most, two⟩
    exact ⟨⟨⟩, _, rfl, n, rest, two, .inl ⟨⟨least, most⟩, rfl, rfl⟩⟩

/-- A day of the calendar, in whatever year. -/
structure Date.Valid (d : Date) : Prop where
  month : 1 ≤ d.month ∧ d.month ≤ 12
  day : 1 ≤ d.day ∧ d.day ≤ daysIn d.year d.month

theorem Date.Valid.next {d : Date} (valid : d.Valid) : d.next.Valid := by
  obtain ⟨month, day⟩ := valid
  unfold Date.next
  split
  · exact ⟨month, by dsimp only; omega⟩
  · split
    · have days := le_daysIn d.year (d.month + 1)
      exact ⟨by dsimp only; omega, by dsimp only; omega⟩
    · have days := le_daysIn (d.year + 1) 1
      exact ⟨by dsimp only; omega, by dsimp only; omega⟩

theorem Date.Valid.previous {d : Date} (valid : d.Valid) : d.previous.Valid := by
  obtain ⟨month, day⟩ := valid
  unfold Date.previous
  split
  · exact ⟨month, by dsimp only; omega⟩
  · split
    · have days := le_daysIn d.year (d.month - 1)
      exact ⟨by dsimp only; omega, by dsimp only; omega⟩
    · have days : daysIn (d.year - 1) 12 = 31 := rfl
      exact ⟨by dsimp only; omega, by dsimp only; omega⟩

theorem shiftMinutes_valid {d : Date} (valid : d.Valid) {minutes : Int} (low : -1440 < minutes)
    (high : minutes < 2880) :
    (shiftMinutes d minutes).1.Valid ∧ (shiftMinutes d minutes).2 < 1440 := by
  unfold shiftMinutes
  split
  · exact ⟨valid.previous, by dsimp only; omega⟩
  · split
    · exact ⟨valid, by dsimp only; omega⟩
    · exact ⟨valid.next, by dsimp only; omega⟩

theorem valid_of_scan {t : Timestamp} {text rest : List Char} (h : Reads scan text t rest) :
    t.Valid := by
  unfold scan at h
  obtain ⟨year, _, _, h⟩ := reads_bind_iff.1 h
  obtain ⟨_, _, _, h⟩ := reads_bind_iff.1 h
  obtain ⟨month, _, months, h⟩ := reads_bind_iff.1 h
  obtain ⟨_, _, _, h⟩ := reads_bind_iff.1 h
  obtain ⟨day, _, days, h⟩ := reads_bind_iff.1 h
  obtain ⟨_, _, _, h⟩ := reads_bind_iff.1 h
  obtain ⟨hour, _, hours, h⟩ := reads_bind_iff.1 h
  obtain ⟨_, _, _, h⟩ := reads_bind_iff.1 h
  obtain ⟨minute, _, minutes, h⟩ := reads_bind_iff.1 h
  obtain ⟨_, _, _, h⟩ := reads_bind_iff.1 h
  obtain ⟨second, _, seconds, h⟩ := reads_bind_iff.1 h
  obtain ⟨nanosecond, _, _, h⟩ := reads_bind_iff.1 h
  obtain ⟨_, _, _, h⟩ := reads_bind_iff.1 h
  obtain ⟨offset, _, _, h⟩ := reads_bind_iff.1 h
  obtain ⟨_, _, _, h⟩ := reads_bind_iff.1 h
  obtain ⟨_, _, _, h⟩ := reads_bind_iff.1 h
  obtain ⟨_, h⟩ := reads_guard_iff.1 h
  obtain ⟨known, h⟩ := reads_guard_iff.1 h
  obtain ⟨near, h⟩ := reads_guard_iff.1 h
  obtain ⟨firstMonth, lastMonth, _⟩ := reads_field_iff.1 months
  obtain ⟨firstDay, _⟩ := reads_field_iff.1 days
  obtain ⟨_, lastHour, _⟩ := reads_field_iff.1 hours
  obtain ⟨_, lastMinute, _⟩ := reads_field_iff.1 minutes
  obtain ⟨_, lastSecond, _⟩ := reads_field_iff.1 seconds
  have date : Date.Valid ⟨year, month, day⟩ :=
    ⟨⟨firstMonth, lastMonth⟩, firstDay, by dsimp only; omega⟩
  have low : -1440 < (hour : Int) * 60 + minute - offset := by omega
  have high : (hour : Int) * 60 + minute - offset < 2880 := by omega
  obtain ⟨shifted, ofDay⟩ := shiftMinutes_valid date low high
  generalize shiftMinutes ⟨year, month, day⟩ (hour * 60 + minute - offset) = moved
    at h shifted ofDay
  obtain ⟨kept, h⟩ := reads_guard_iff.1 h
  obtain ⟨rfl, _⟩ := reads_pure_iff.1 h
  exact ⟨by dsimp only; omega, shifted.month, shifted.day, by dsimp only; omega,
    by dsimp only; omega, lastSecond⟩

/-- What is read is a date of the calendar and a time of day. -/
theorem valid_of_parse {s : String} {t : Timestamp} (h : parse s = .ok t) : t.Valid := by
  obtain ⟨⟨_, rest⟩, read, here⟩ := bind_eq_ok.1 h
  obtain rfl := Except.ok.inj here
  exact valid_of_scan read

end ControllerHooks.Timestamp
