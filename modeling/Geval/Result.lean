import Geval.Core.TokenKind

/-!
# Results

The model's functions return `Result`: a value, a Go `error`, or a panic. Most safety
statements of the development say that a function never panics: its result is a value
with some property, or a Go `error`. That is `Result.Safe`, and `Result.Safe.bind` is the
rule that carries it through a `do` block.
-/

namespace Geval

variable {α β : Type}

@[simp] theorem ok_bind (a : α) (f : α → Result β) : ((.ok a : Result α) >>= f) = f a := rfl

@[simp] theorem error_bind (e : Fault) (f : α → Result β) :
    ((.error e : Result α) >>= f) = .error e := rfl

@[simp] theorem pure_eq_ok (a : α) : (pure a : Result α) = .ok a := rfl

@[simp] theorem fail_ne_ok (message : String) (a : α) : (fail message : Result α) ≠ .ok a :=
  nofun

theorem bind_eq_ok {x : Result α} {f : α → Result β} {b : β} :
    x >>= f = .ok b ↔ ∃ a, x = .ok a ∧ f a = .ok b := by
  cases x <;> simp

theorem map_eq_ok {x : Result α} {f : α → β} {b : β} :
    f <$> x = .ok b ↔ ∃ a, x = .ok a ∧ f a = b := by
  cases x <;> simp [Functor.map, Except.map]

namespace Result

/-- A value satisfying `P`, or a Go `error`: never a panic and never the model's fuel bound. -/
def Safe (P : α → Prop) : Result α → Prop
  | .ok a => P a
  | .error (.error _) => True
  | .error _ => False

@[simp] theorem safe_ok {P : α → Prop} {a : α} : Safe P (Except.ok a : Result α) ↔ P a :=
  Iff.rfl

@[simp] theorem safe_fail {P : α → Prop} (message : String) : Safe P (fail message : Result α) :=
  trivial

@[simp] theorem safe_pure {P : α → Prop} {a : α} : Safe P (pure a : Result α) ↔ P a := Iff.rfl

theorem Safe.bind {P : α → Prop} {Q : β → Prop} {x : Result α} {f : α → Result β}
    (hx : Safe P x) (hf : ∀ a, P a → Safe Q (f a)) : Safe Q (x >>= f) := by
  match x, hx with
  | .ok a, hx => exact hf a hx
  | .error (.error _), _ => trivial

theorem Safe.map {P : α → Prop} {Q : β → Prop} {x : Result α} {f : α → β} (hx : Safe P x)
    (hf : ∀ a, P a → Q (f a)) : Safe Q (f <$> x) := by
  match x, hx with
  | .ok a, hx => exact hf a hx
  | .error (.error _), _ => trivial

theorem Safe.mono {P Q : α → Prop} {x : Result α} (hx : Safe P x) (h : ∀ a, P a → Q a) :
    Safe Q x := by
  match x, hx with
  | .ok a, hx => exact h a hx
  | .error (.error _), _ => trivial

/-- A safe result whose values all satisfy `Q` is safe for `Q` as well. -/
theorem Safe.and_of_ok {P Q : α → Prop} {x : Result α} (hx : Safe P x)
    (h : ∀ a, x = .ok a → Q a) : Safe (fun a => P a ∧ Q a) x := by
  match x, hx with
  | .ok a, hx => exact ⟨hx, h a rfl⟩
  | .error (.error _), _ => trivial

/-- A safe result that is not a Go `error` is a value. -/
theorem Safe.ok_of_not_error {P : α → Prop} {x : Result α} (hx : Safe P x)
    (h : ∀ message, x ≠ .error (.error message)) : ∃ a, x = .ok a ∧ P a := by
  match x, hx with
  | .ok a, hx => exact ⟨a, rfl, hx⟩
  | .error (.error m), _ => exact absurd rfl (h m)

end Result

end Geval
