import ControllerHooks.Proofs.Patch.Applying
import ControllerHooks.Proofs.Patch.Places
import ControllerHooks.Proofs.Patch.Wire

/-!
# Patches that are taken back

A patch that fails half way is taken back: each operation hands out what undoes it, and this is
applied to the document in which the patch got stuck, the last operation first. Places in an array
have moved in the meantime, but by then they have moved back.

* `Operation.Does`: what an operation that moves nothing can do. `Operation.undone`: it is taken
  back by what it hands out.
* `Patch.Applied` is a run of operations with all that undoes them; `Patch.Applied.undone`: it is
  taken back.
* `Patch.failure_leaves_document`: a patch without moves that fails leaves the document alone.
-/

namespace ControllerHooks

/-! ## Operations -/

namespace Operation

variable {op : Operation} {d : Json}

/-- What an operation that moves nothing can do: it fails and leaves the document alone, or it
changes one place and hands out what changes it back. -/
inductive Does (d : Json) : Operation → Except (Mismatch × Json) (Json × List Undo) → Prop
  | fails {op : Operation} (reason : Mismatch) : Does d op (.error (reason, d))
  | adds {path : Pointer} {x w : Json} {old : Option Json} :
    d.insertAt? path x = some (old, w) → Does d (.add path x) (.ok (w, [undoInsert path old]))
  | copies {source path : Pointer} {x w : Json} {old : Option Json} :
    d.at? source.tokens = some x → d.insertAt? path x = some (old, w) →
    Does d (.copy source path) (.ok (w, [undoInsert path old]))
  | takes {path : Pointer} {old w : Json} : d.removeAt? false path = some (old, w) →
    Does d (.remove path) (.ok (w, [.add path old]))
  | replaces {path : Pointer} {x old w : Json} : d.replaceAt? path x = some (old, w) →
    Does d (.replace path x) (.ok (w, [.replace path old]))
  | looks {path : Pointer} {x : Json} : Does d (.test path x) (.ok (d, []))

theorem does_run (moveless : op.kind ≠ .move) : Does d op (op.run d) := by
  cases op with
  | add path x =>
    simp only [run]
    split
    · exact .fails .path
    · rename_i put
      exact .adds put
  | remove path =>
    simp only [run]
    split
    · exact .fails .path
    · rename_i taken
      exact .takes taken
  | replace path x =>
    simp only [run]
    split
    · exact .fails .path
    · rename_i put
      exact .replaces put
  | move => exact absurd rfl moveless
  | copy source path =>
    simp only [run]
    split
    · exact .fails .source
    · rename_i x found
      split
      · exact .fails .path
      · rename_i put
        exact .copies found put
  | test path x =>
    simp only [run]
    split
    · exact .fails .path
    · split
      · exact .looks
      · exact .fails .value

/-- A failed operation has done nothing, unless it is a move. -/
theorem document_of_error (moveless : op.kind ≠ .move) {reason : Mismatch} {left : Json}
    (failed : op.run d = .error (reason, left)) : left = d := by
  have does : Does d op (op.run d) := does_run moveless
  rw [failed] at does
  cases does
  rfl

/-- An operation that moves nothing is taken back by what it hands out. -/
theorem undone (moveless : op.kind ≠ .move) {result : Json} {undos : List Undo}
    (ran : op.run d = .ok (result, undos)) (h : d.Ordered) (value : op.ValueIs Json.Ordered) :
    result.Ordered ∧ Patch.undoAll result undos = d := by
  have single {w : Json} {undo : Undo} (back : undo.run? w = some d) :
      Patch.undoAll w [undo] = d := by
    simp [Patch.undoAll, back]
  have does : Does d op (op.run d) := does_run moveless
  rw [ran] at does
  cases does with
  | adds put => exact ⟨Json.insertAt?_ordered put h value, single (Json.insertAt?_back put h)⟩
  | copies found put =>
    exact ⟨Json.insertAt?_ordered put h (h.at? found), single (Json.insertAt?_back put h)⟩
  | takes taken => exact ⟨Json.removeAt?_ordered taken h, single (Json.removeAt?_back taken h)⟩
  | replaces put =>
    exact ⟨Json.replaceAt?_ordered put h value, single (Json.replaceAt?_back put h)⟩
  | looks => exact ⟨h, rfl⟩

end Operation

/-! ## Patches -/

namespace Patch

variable {p : Patch} {d last : Json} {undos : List Undo}

theorem undoAll_append (d : Json) (first second : List Undo) :
    undoAll d (first ++ second) = undoAll (undoAll d first) second := List.foldl_append

/-- Whatever a run without moves has made of a document is undone. -/
theorem Applied.undone (run : Applied p d last undos) (moveless : ∀ op ∈ p, op.kind ≠ .move)
    (h : d.Ordered) (values : ∀ op ∈ p, op.ValueIs Json.Ordered) : undoAll last undos = d := by
  induction run with
  | done d => rfl
  | @step op rest d mid last first later ran _ ih =>
    obtain ⟨stays, moveless⟩ := List.forall_mem_cons.1 moveless
    obtain ⟨value, values⟩ := List.forall_mem_cons.1 values
    obtain ⟨ordered, back⟩ := Operation.undone stays ran h value
    -- The later operations are undone first, which leaves what this one has made.
    rw [undoAll_append, ih moveless ordered values, back]

/-- **Failures leave no trace.** A patch without moves that fails leaves the document as it was,
however many of its operations went through before. -/
theorem failure_leaves_document (moveless : ∀ op ∈ p, op.kind ≠ .move) (ordered : d.Ordered)
    (values : ∀ op ∈ p, op.ValueIs Json.Ordered) {failure : Failure}
    (failed : p.apply d = .error failure) :
    failure.document = d ∧ ∃ (done : Patch) (op : Operation) (rest : Patch) (mid : Json),
      p = done ++ op :: rest ∧ failure.index = done.length ∧ done.apply d = .ok mid ∧
      op.run mid = .error (failure.reason, mid) := by
  obtain ⟨done, op, rest, mid, undos, left, rfl, run, bad, index, _, document⟩ :=
    applyFrom_eq_error failed
  obtain ⟨early, stays, _⟩ : (∀ op ∈ done, op.kind ≠ .move) ∧ op.kind ≠ .move ∧
      ∀ op ∈ rest, op.kind ≠ .move := by
    simpa only [List.forall_mem_append, List.forall_mem_cons] using moveless
  have given : ∀ op ∈ done, op.ValueIs Json.Ordered :=
    fun op hop => values op (List.mem_append_left _ hop)
  -- The operation that fails has done nothing, so only the run before it is undone.
  obtain rfl := Operation.document_of_error stays bad
  rw [List.append_nil, run.undone early ordered given] at document
  exact ⟨document, done, op, rest, left, rfl, by simpa using index, apply_eq_ok_iff.2 ⟨_, run⟩, bad⟩

/-- Items are put in and appended, members are overwritten, the whole document is replaced; then a
test fails. -/
theorem failure_leaves_document_after_replacement :
    let document := Json.object [("a", .array [.ofInt 1, .ofInt 2]), ("b", .null)]
    let patch : Patch :=
      [.add ⟨["a", "0"]⟩ (.ofInt 0), .add ⟨["a", "-"]⟩ (.ofInt 3), .copy ⟨["a"]⟩ ⟨["b"]⟩,
        .remove ⟨["a", "1"]⟩, .replace ⟨["b", "3"]⟩ .null, .add ⟨[]⟩ (.string "all"),
        .test ⟨[]⟩ .null]
    (∀ op ∈ patch, op.kind ≠ .move) ∧ document.Ordered ∧
      (∀ op ∈ patch, op.ValueIs Json.Ordered) ∧
      ∃ failure, patch.apply document = .error failure ∧ failure.index = 6 ∧
        failure.document = document := by
  intro document patch
  have moveless : ∀ op ∈ patch, op.kind ≠ .move := by decide
  have items : (Json.array [.ofInt 1, .ofInt 2]).Ordered :=
    .array (by simpa using ⟨.number _, .number _⟩)
  have ordered : document.Ordered := .object (by decide) (by simpa using ⟨items, .null⟩)
  have values : ∀ op ∈ patch, op.ValueIs Json.Ordered := by
    simpa [patch, Operation.ValueIs] using ⟨.number _, .number _, .null, .string _, .null⟩
  have failed : patch.apply document = .error ⟨6, ⟨[]⟩, .value, document⟩ := rfl
  obtain ⟨same, _⟩ := failure_leaves_document moveless ordered values failed
  exact ⟨moveless, ordered, values, _, failed, rfl, same⟩

end Patch

end ControllerHooks
