import ControllerHooks.Json.Pointer
import ControllerHooks.Proofs.Outcome

/-!
# Pointers and their texts

`Pointer.parse_text`: a pointer is read back from its text, whatever stands in its tokens.
-/

namespace ControllerHooks.Pointer

theorem tokensFrom_escape (c : Char) {text token : List Char} {later : List String}
    (h : tokensFrom text = .ok (token, later)) :
    tokensFrom (escape c ++ text) = .ok (c :: token, later) := by
  unfold escape
  split
  · subst_vars
    simp [tokensFrom, h]
  split
  · subst_vars
    simp [tokensFrom, h]
  · rename_i tilde slash
    rw [List.cons_append, List.nil_append, tokensFrom.eq_def]
    split <;> simp_all

theorem tokensFrom_token (cs : List Char) {text token : List Char} {later : List String}
    (h : tokensFrom text = .ok (token, later)) :
    tokensFrom (cs.flatMap escape ++ text) = .ok (cs ++ token, later) := by
  induction cs with
  | nil => exact h
  | cons c cs ih =>
    rw [List.flatMap_cons, List.append_assoc]
    exact tokensFrom_escape c ih

theorem tokensFrom_tokens (tokens : List String) :
    tokensFrom (tokens.flatMap tokenChars) = .ok ([], tokens) := by
  induction tokens with
  | nil => rfl
  | cons token rest ih =>
    have head := tokensFrom_token token.toList ih
    rw [List.append_nil] at head
    simp [tokenChars, tokensFrom, head]

/-- **Pointers.** A pointer is read back from its text. -/
theorem parse_text (p : Pointer) : parse p.text = .ok p := by
  obtain ⟨tokens⟩ := p
  cases tokens with
  | nil => rfl
  | cons token rest =>
    have all := tokensFrom_token token.toList (tokensFrom_tokens rest)
    rw [List.append_nil] at all
    simp [parse, text, tokenChars, all]

end ControllerHooks.Pointer
