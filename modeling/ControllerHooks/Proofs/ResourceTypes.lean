import ControllerHooks.ResourceType

/-!
# Keys and the types they stand for

A key is written in lower case, with dots between its parts. It tells a type from another one, but
for the case of letters, as long as neither a kind nor a version has dots of its own.

* `Unicode.caseless` is a text without its case; texts with the same lower case agree there
  (`Unicode.caseless_of_lowercase`).
* `ResourceType.sameButCase_of_key`: types without dots in kind and version that have the same key
  are the same but for case.
-/

namespace ControllerHooks

namespace Unicode

/-- A small sigma at the end of a word counts as any other. -/
def plainSigma (c : Char) : Char := if c = 'ς' then 'σ' else c

/-- A character without its case. -/
def caselessChar (c : Char) : List Char := (lowerChar c).map plainSigma

/-- A text without its case. -/
def caseless (text : List Char) : List Char := text.flatMap caselessChar

theorem caseless_append (a b : List Char) : caseless (a ++ b) = caseless a ++ caseless b :=
  List.flatMap_append

/-- Which small sigma stands where makes no difference. -/
theorem map_plainSigma_lowerFrom (before text : List Char) :
    (lowerFrom before text).map plainSigma = caseless text := by
  induction text generalizing before with
  | nil => rfl
  | cons c rest ih =>
    have sigma : ∀ final : Bool,
        [if final then 'ς' else 'σ'].map plainSigma = caselessChar 'Σ' := by decide
    rw [lowerFrom, List.map_append, ih]
    split
    · subst_vars
      rw [sigma]
      rfl
    · rfl

theorem caseless_of_lowercase {a b : List Char} (h : lowercase a = lowercase b) :
    caseless a = caseless b := by
  rw [← map_plainSigma_lowerFrom [] a, ← map_plainSigma_lowerFrom [] b]
  exact congrArg (List.map plainSigma) h

/-! ## Dots -/

theorem ofNat_eq_dot {n : Nat} (h : Char.ofNat n = '.') : n = 0x2e := by
  by_cases valid : n.isValidChar
  · rw [Char.ofNat, dif_pos valid] at h
    exact congrArg Char.toNat h
  · rw [Char.ofNat, dif_neg valid] at h
    have code : 0 = 0x2e := congrArg Char.toNat h
    cases code

theorem caseRuns_above_dot : ∀ r ∈ caseRuns, 0x2e < (r.first : Int) + r.shift := by
  decide +kernel

/-- The lower case has a dot for a dot only. -/
theorem dot_mem_lowerChar {c : Char} (h : '.' ∈ lowerChar c) : c = '.' := by
  unfold lowerChar at h
  simp only at h
  split at h
  · split at h
    · rename_i upper
      have low : 'A'.toNat ≤ c.toNat := upper.1
      have same := ofNat_eq_dot (List.mem_singleton.1 h).symm
      have : 'A'.toNat = 0x41 := rfl
      omega
    · exact (List.mem_singleton.1 h).symm
  split at h
  · exact absurd h (by decide)
  split at h
  · rename_i r found
    have member := List.mem_of_find?_eq_some found
    have inside := List.find?_some found
    simp only [Bool.and_eq_true, decide_eq_true_eq] at inside
    have same := ofNat_eq_dot (List.mem_singleton.1 h).symm
    have above := caseRuns_above_dot r member
    omega
  · exact (List.mem_singleton.1 h).symm

theorem dot_mem_caseless {text : List Char} (h : '.' ∈ caseless text) : '.' ∈ text := by
  obtain ⟨c, member, h⟩ := List.mem_flatMap.1 h
  obtain ⟨d, low, same⟩ := List.mem_map.1 h
  have plain : d = '.' := by
    unfold plainSigma at same
    split at same
    · cases same
    · exact same
  subst plain
  exact dot_mem_lowerChar low ▸ member

end Unicode

/-! ## Keys -/

namespace ResourceType

open Unicode (caseless)

/-- The same group, version and kind, but for the case of letters. -/
structure SameButCase (t u : ResourceType) : Prop where
  group : caseless t.group.toList = caseless u.group.toList
  version : caseless t.version.toList = caseless u.version.toList
  kind : caseless t.kind.toList = caseless u.kind.toList

/-- Neither the kind nor the version has dots of its own. -/
structure Undotted (t : ResourceType) : Prop where
  kind : '.' ∉ t.kind.toList
  version : '.' ∉ t.version.toList

/-- What a key says of version and group. -/
def dottedVersion (t : ResourceType) : List Char :=
  t.version.toList ++ if t.group = "" then [] else '.' :: t.group.toList

/-- A dot splits a text in one way, when there is none before it. -/
theorem split_at_dot {a b c d : List Char} (ha : '.' ∉ a) (hc : '.' ∉ c)
    (h : a ++ '.' :: b = c ++ '.' :: d) : a = c ∧ b = d := by
  induction a generalizing c with
  | nil =>
    cases c with
    | nil => simpa using h
    | cons y c =>
      obtain ⟨rfl, -⟩ := List.cons.inj h
      exact absurd List.mem_cons_self hc
  | cons x a ih =>
    cases c with
    | nil =>
      obtain ⟨rfl, -⟩ := List.cons.inj h
      exact absurd List.mem_cons_self ha
    | cons y c =>
      obtain ⟨rfl, rest⟩ := List.cons.inj h
      have ha' := mt (List.mem_cons_of_mem x) ha
      have hc' := mt (List.mem_cons_of_mem x) hc
      obtain ⟨rfl, same⟩ := ih ha' hc' rest
      exact ⟨rfl, same⟩

theorem key_text (t : ResourceType) :
    t.key.text = String.ofList (Unicode.lowercase (t.kind.toList ++ '.' :: t.dottedVersion)) := by
  have plain (s : String) : toString s = s := rfl
  have dot : ".".toList = ['.'] := rfl
  unfold key dottedVersion
  split <;> simp [plain, dot]

theorem caseless_name_of_key {t u : ResourceType} (h : t.key = u.key) :
    caseless (t.kind.toList ++ '.' :: t.dottedVersion) =
      caseless (u.kind.toList ++ '.' :: u.dottedVersion) := by
  have texts := congrArg (fun key => key.text.toList) h
  simp only [key_text, String.toList_ofList] at texts
  exact Unicode.caseless_of_lowercase texts

theorem caseless_cons_dot (text : List Char) : caseless ('.' :: text) = '.' :: caseless text := rfl

/-- With no dot in the version, a dot stands before a group only. -/
theorem dot_mem_dottedVersion {t : ResourceType} (h : '.' ∉ t.version.toList) :
    '.' ∈ caseless t.dottedVersion ↔ t.group ≠ "" := by
  have plain : '.' ∉ caseless t.version.toList := mt Unicode.dot_mem_caseless h
  by_cases group : t.group = "" <;>
    simp [dottedVersion, group, plain, Unicode.caseless_append, caseless_cons_dot]

/-- Version and group can be told apart when the versions have no dots. -/
theorem caseless_dottedVersion {t u : ResourceType} (ht : '.' ∉ t.version.toList)
    (hu : '.' ∉ u.version.toList) (h : caseless t.dottedVersion = caseless u.dottedVersion) :
    caseless t.version.toList = caseless u.version.toList ∧
      caseless t.group.toList = caseless u.group.toList := by
  have groups : t.group ≠ "" ↔ u.group ≠ "" := by
    rw [← dot_mem_dottedVersion ht, h, dot_mem_dottedVersion hu]
  by_cases core : t.group = ""
  · have core' : u.group = "" := Decidable.not_not.1 fun other => groups.2 other core
    simpa [dottedVersion, core, core'] using h
  · have core' := groups.1 core
    simp only [dottedVersion, core, core', if_false, Unicode.caseless_append,
      caseless_cons_dot] at h
    exact split_at_dot (mt Unicode.dot_mem_caseless ht) (mt Unicode.dot_mem_caseless hu) h

/-- **Keys tell types apart**, but for case, when no kind and no version has a dot. -/
theorem sameButCase_of_key {t u : ResourceType} (ht : t.Undotted) (hu : u.Undotted)
    (h : t.key = u.key) : t.SameButCase u := by
  have names := caseless_name_of_key h
  simp only [Unicode.caseless_append, caseless_cons_dot] at names
  obtain ⟨kind, rest⟩ := split_at_dot (mt Unicode.dot_mem_caseless ht.kind)
    (mt Unicode.dot_mem_caseless hu.kind) names
  obtain ⟨version, group⟩ := caseless_dottedVersion ht.version hu.version rest
  exact ⟨group, version, kind⟩

end ResourceType

end ControllerHooks
