import ControllerHooks.Admission.Response

/-!
# Validation rules

Rules are examined in order, up to the first that does not hold. So a denial has one reason.
-/

namespace ControllerHooks

structure Rule (α : Type) where
  message : String
  holds : α → Bool

namespace Rules

variable {α : Type}

/-- The rules that are looked at: those that hold, and the first that does not. -/
def examined (subject : α) : List (Rule α) → List (Rule α)
  | [] => []
  | rule :: rest => if rule.holds subject then rule :: examined subject rest else [rule]

def evaluate (rules : List (Rule α)) (subject : α) : Verdict :=
  match rules.find? fun rule => !rule.holds subject with
  | some rule => .deny rule.message
  | none => .allow

end Rules

end ControllerHooks
