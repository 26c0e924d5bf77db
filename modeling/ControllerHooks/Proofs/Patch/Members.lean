import ControllerHooks.Proofs.Json.Frames
import ControllerHooks.Proofs.Json.Pointers
import ControllerHooks.Proofs.Patch.Applying
import ControllerHooks.Proofs.Patch.Places

/-!
# Members and their pointers

A pointer whose way leads through objects only stands for one member, whatever its tokens are: a
number or a dash is a key like any other there.

* `Pointer.text_injective`: two lists of tokens have two texts.
* `Json.insertAt?_member`, `Json.removeAt?_member`: a member is put and taken away in the object
  around it.
* `Patch.pointer_reaches_member`: where a pointer leads through objects, what is added there is
  found there, stands alone, and is removed without a trace if it is new.
-/

namespace ControllerHooks

theorem Pointer.text_injective : Function.Injective Pointer.text := by
  intro p q same
  have read := p.parse_text
  rw [same, q.parse_text] at read
  exact (Except.ok.inj read).symm

namespace Json

section
variable {d : Json}

/-- Whatever stands somewhere is replaced by anything, and put back in its turn. -/
theorem exists_replaceAt? (ordered : d.Ordered) {path : Pointer} {old : Json}
    (stands : d.at? path.tokens = some old) (new : Json) :
    ∃ w, d.replaceAt? path new = some (old, w) ∧ w.replaceAt? path old = some (new, d) := by
  have changes : ∃ found w, modifyAt? (fun v => some (v, new)) path.tokens d = some (found, w) :=
    exists_modifyAt?_iff.2 ⟨old, old, new, stands, rfl⟩
  obtain ⟨_, w, put⟩ := changes
  obtain ⟨_, _, here, same, after⟩ := at?_modifyAt? put
  obtain ⟨rfl, rfl⟩ := Prod.mk.inj (Option.some.inj same)
  obtain rfl := Option.some.inj (stands.symm.trans here)
  have inverse (v w : Json) (_ : v.Ordered) (put : some (v, new) = some (old, w)) :
      ∃ b, some (w, old) = some (b, v) := by
    obtain ⟨rfl, rfl⟩ := Prod.mk.inj (Option.some.inj put)
    exact ⟨_, rfl⟩
  obtain ⟨b, back⟩ := ordered.modifyAt?_back inverse put
  obtain ⟨_, _, there, same, _⟩ := at?_modifyAt? back
  obtain ⟨rfl, rfl⟩ := Prod.mk.inj (Option.some.inj same)
  obtain rfl := Option.some.inj (after.symm.trans there)
  exact ⟨w, put, back⟩

variable {above : List String} {last : String} {members : List (String × Json)} {x w : Json}

/-- A member is put where the object around it gets it. -/
theorem insertAt?_member (put : d.replaceAt? ⟨above⟩ (object (Entries.insert last x members)) =
      some (object members, w)) :
    d.insertAt? ⟨above ++ [last]⟩ x = some (Entries.find? last members, w) := by
  simp only [insertAt?, Pointer.split?, List.getLast?_concat, List.dropLast_concat, Option.map_some]
  exact modifyAt?_of_put rfl put

/-- A member is taken away where the object around it loses it. -/
theorem removeAt?_member (found : Entries.find? last members = some x)
    (put : d.replaceAt? ⟨above⟩ (object (Entries.erase last members)) =
      some (object members, w)) :
    d.removeAt? false ⟨above ++ [last]⟩ = some (x, w) := by
  simp only [removeAt?, Pointer.split?, List.getLast?_concat, List.dropLast_concat, Option.map_some]
  refine modifyAt?_of_put ?_ put
  simp [removeChild?, found]

/-- A member that is put somewhere stands there, and everything beside it is left alone. -/
theorem sameBut_member (put : d.replaceAt? ⟨above⟩ (object (Entries.insert last x members)) =
      some (object members, w)) :
    w.at? (above ++ [last]) = some x ∧ SameBut [above ++ [last]] d w := by
  obtain ⟨_, _, _, same, after⟩ := at?_modifyAt? put
  obtain ⟨rfl, rfl⟩ := Prod.mk.inj (Option.some.inj same)
  refine ⟨by rw [at?_append, after, Option.bind_some, at?_insert_self], ?_⟩
  refine SameBut.modifyAt?_there (fun v result _ changed => ?_) put
  obtain ⟨rfl, rfl⟩ := Prod.mk.inj (Option.some.inj changed)
  exact .insert last x members

end

end Json

namespace Patch

theorem apply_add {path : Pointer} {x d w : Json} {old : Option Json}
    (put : d.insertAt? path x = some (old, w)) : apply [.add path x] d = .ok w :=
  apply_singleton.2 ⟨[Operation.undoInsert path old], by simp only [Operation.run, put]⟩

theorem apply_remove {path : Pointer} {x d w : Json}
    (taken : d.removeAt? false path = some (x, w)) : apply [.remove path] d = .ok w :=
  apply_singleton.2 ⟨[.add path x], by simp only [Operation.run, taken]⟩

/-- **Pointers.** A pointer is read back from its text, so that two lists of tokens never have one
text. Where all that is on the way are objects, a value is added at the last token, whatever the
tokens are: it is found there, all that stands elsewhere is left alone, and if nothing stood there
before, it is removed without a trace. -/
theorem pointer_reaches_member (tokens : List String) :
    Pointer.parse (Pointer.text ⟨tokens⟩) = .ok ⟨tokens⟩ ∧
    (∀ others, Pointer.text ⟨others⟩ = Pointer.text ⟨tokens⟩ → others = tokens) ∧
    ∀ d v : Json, d.Ordered → tokens ≠ [] →
      (∀ way, way <+: tokens → way ≠ tokens → ∃ members, d.at? way = some (.object members)) →
      ∃ result, apply [.add ⟨tokens⟩ v] d = .ok result ∧ result.at? tokens = some v ∧
        Json.SameBut [tokens] d result ∧
        (d.at? tokens = none → apply [.remove ⟨tokens⟩] result = .ok d ∧
          apply [.add ⟨tokens⟩ v, .remove ⟨tokens⟩] d = .ok d) := by
  refine ⟨Pointer.parse_text _, fun others same => ?_, fun d v ordered named through => ?_⟩
  · exact congrArg Pointer.tokens (Pointer.text_injective same)
  obtain ⟨above, last, rfl⟩ := (List.eq_nil_or_concat' tokens).resolve_left named
  obtain ⟨members, around⟩ := through above (List.prefix_append above [last]) (by simp)
  have stands : d.at? (Pointer.mk above).tokens = some (.object members) := around
  obtain ⟨result, put, back⟩ :=
    Json.exists_replaceAt? ordered stands (.object (Entries.insert last v members))
  obtain ⟨placed, beside⟩ := Json.sameBut_member put
  have added := apply_add (Json.insertAt?_member put)
  refine ⟨result, added, placed, beside, fun absent => ?_⟩
  have fresh : Entries.find? last members = none := by
    rwa [Json.at?_append, around, Option.bind_some, Json.at?_member] at absent
  have erased := (ordered.at? around).sorted.erase_insert v fresh
  have removed : apply [.remove ⟨above ++ [last]⟩] result = .ok d :=
    apply_remove
      (Json.removeAt?_member (Entries.find?_insert_self last v members) (by rwa [erased]))
  exact ⟨removed, apply_cons.2 ⟨result, added, removed⟩⟩

/-- The tokens are empty, a dash, a number and one that is escaped. -/
theorem pointer_reaches_member_of_odd_tokens :
    let tokens := ["", "-", "0", "a/b~1"]
    let inner := Json.object [("1", .null)]
    let document := Json.object [("", .object [("-", .object [("0", inner)])]), ("x", .bool true)]
    Pointer.text ⟨tokens⟩ = "//-/0/a~1b~01" ∧ document.Ordered ∧ tokens ≠ [] ∧
      (∀ way, way <+: tokens → way ≠ tokens →
        ∃ members, document.at? way = some (.object members)) ∧
      ∃ result, apply [.add ⟨tokens⟩ (.ofInt 7)] document = .ok result ∧
        result.at? tokens = some (.ofInt 7) ∧ result.at? ["", "-", "0", "1"] = some .null ∧
        apply [.remove ⟨tokens⟩] result = .ok document := by
  intro tokens inner document
  have objects {k : String} {v : Json} (h : v.Ordered) : (Json.object [(k, v)]).Ordered :=
    .object (by simp [Entries.Sorted]) (by simpa using h)
  have ordered : document.Ordered :=
    .object (by decide) (by simpa using ⟨objects (objects (objects .null)), .bool true⟩)
  have through : ∀ way, way <+: tokens → way ≠ tokens →
      ∃ members, document.at? way = some (.object members) := by
    intro way start strictly
    have short : way = [] ∨ way = [""] ∨ way = ["", "-"] ∨ way = ["", "-", "0"] ∨ way = tokens := by
      simpa [tokens] using (List.mem_inits way tokens).2 start
    rcases short with rfl | rfl | rfl | rfl | rfl
    · exact ⟨_, rfl⟩
    · exact ⟨_, rfl⟩
    · exact ⟨_, rfl⟩
    · exact ⟨_, rfl⟩
    · exact absurd rfl strictly
  obtain ⟨text, _, reaches⟩ := pointer_reaches_member tokens
  obtain ⟨result, added, found, beside, removed⟩ :=
    reaches document (.ofInt 7) ordered (by simp [tokens]) through
  obtain ⟨back, _⟩ := removed rfl
  refine ⟨rfl, ordered, by simp [tokens], through, result, added, found, ?_, back⟩
  exact beside.kept ["", "-", "0", "1"] (by decide)

end Patch

end ControllerHooks
