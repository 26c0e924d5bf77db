/-!
# Results of fallible steps

A computation that can fault is taken apart step by step: it yields a result exactly when each of
its steps does.
-/

namespace ControllerHooks

variable {ε δ α β : Type}

@[simp] theorem pure_eq_ok_value (a : α) : (pure a : Except ε α) = .ok a := rfl

@[simp] theorem throw_eq_error (e : ε) : (throw e : Except ε α) = .error e := rfl

@[simp] theorem ok_bind (a : α) (f : α → Except ε β) : (Except.ok a >>= f) = f a := rfl

@[simp] theorem error_bind (e : ε) (f : α → Except ε β) : (Except.error e >>= f) = .error e := rfl

@[simp] theorem ok_map (a : α) (f : α → β) : Except.map f (.ok a : Except ε α) = .ok (f a) := rfl

@[simp] theorem error_map (e : ε) (f : α → β) : Except.map f (.error e) = .error e := rfl

@[simp] theorem ok_mapError (a : α) (f : ε → δ) : (Except.ok a).mapError f = .ok a := rfl

@[simp] theorem error_mapError (e : ε) (f : ε → δ) :
    (Except.error e : Except ε α).mapError f = .error (f e) := rfl

theorem bind_eq_ok {x : Except ε α} {f : α → Except ε β} {b : β} :
    (x >>= f) = .ok b ↔ ∃ a, x = .ok a ∧ f a = .ok b := by
  cases x <;> simp

/-- A step that yields nothing is a check. -/
theorem unit_bind_eq_ok {x : Except ε Unit} {f : Unit → Except ε β} {b : β} :
    (x >>= f) = .ok b ↔ x = .ok () ∧ f () = .ok b := by
  cases x <;> simp

theorem map_eq_ok {x : Except ε α} {f : α → β} {b : β} :
    x.map f = .ok b ↔ ∃ a, x = .ok a ∧ f a = b := by
  cases x <;> simp

theorem mapError_eq_ok {x : Except ε α} {f : ε → δ} {a : α} :
    x.mapError f = .ok a ↔ x = .ok a := by
  cases x <;> simp

theorem forM_eq_ok {f : α → Except ε Unit} {xs : List α} :
    xs.forM f = .ok () ↔ ∀ x ∈ xs, f x = .ok () := by
  induction xs with
  | nil => exact iff_of_true rfl (by simp)
  | cons x rest ih =>
    have step : (x :: rest).forM f = (f x >>= fun _ => rest.forM f) := rfl
    rw [step, bind_eq_ok, List.forall_mem_cons, ← ih]
    constructor
    · rintro ⟨_, head, tail⟩
      exact ⟨head, tail⟩
    · rintro ⟨head, tail⟩
      exact ⟨(), head, tail⟩

theorem mapM_eq_ok_cons {f : α → Except ε β} {x : α} {rest : List α} {ys : List β} :
    (x :: rest).mapM f = .ok ys ↔
      ∃ y later, f x = .ok y ∧ rest.mapM f = .ok later ∧ ys = y :: later := by
  simp only [List.mapM_cons, bind_eq_ok, pure_eq_ok_value, Except.ok.injEq]
  constructor
  · rintro ⟨y, hy, later, hl, rfl⟩
    exact ⟨y, later, hy, hl, rfl⟩
  · rintro ⟨y, later, hy, hl, rfl⟩
    exact ⟨y, hy, later, hl, rfl⟩

end ControllerHooks
