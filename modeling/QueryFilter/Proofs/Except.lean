/-!
# Results and errors

When a computation that may fail gives a result, and when an error: for one step after another, for
a change of the result, and for one that has been evaluated.
-/

namespace Except

variable {ε α β γ : Type}

theorem bind_eq_ok_iff {x : Except ε α} {f : α → Except ε β} {b : β} :
    x >>= f = .ok b ↔ ∃ a, x = .ok a ∧ f a = .ok b := by
  cases x <;> simp [bind, Except.bind]

theorem bind_eq_error_iff {x : Except ε α} {f : α → Except ε β} {e : ε} :
    x >>= f = .error e ↔ x = .error e ∨ ∃ a, x = .ok a ∧ f a = .error e := by
  cases x <;> simp [bind, Except.bind]

theorem map_eq_ok_iff {x : Except ε α} {f : α → β} {b : β} :
    x.map f = .ok b ↔ ∃ a, x = .ok a ∧ f a = b := by
  cases x <;> simp [Except.map]

theorem map_eq_error_iff {x : Except ε α} {f : α → β} {e : ε} :
    x.map f = .error e ↔ x = .error e := by
  cases x <;> simp [Except.map]

/-- The error of a computation that failed. -/
def error? : Except ε α → Option ε
  | .ok _ => none
  | .error e => some e

theorem error?_eq_some_iff {x : Except ε α} {e : ε} : x.error? = some e ↔ x = .error e := by
  cases x <;> simp [error?]

theorem error?_eq_none_iff {x : Except ε α} : x.error? = none ↔ ∃ a, x = .ok a := by
  cases x <;> simp [error?]

theorem error?_map (x : Except ε α) (f : α → β) : (x.map f).error? = x.error? := by
  cases x <;> rfl

/-- The first of two steps that fails gives the error. -/
theorem error?_bind_map (x : Except ε α) (y : Except ε β) (f : α → β → γ) :
    (x >>= fun a => y.map (f a)).error? = x.error?.or y.error? := by
  cases x with
  | error e => rfl
  | ok a => exact error?_map y (f a)

/-- Steps whose results, or kinds of errors, agree one after the other. -/
theorem mapError_bind_congr {δ : Type} {g : ε → δ} {x y : Except ε α} {f f' : α → Except ε β}
    (hx : x.mapError g = y.mapError g) (hf : ∀ a, (f a).mapError g = (f' a).mapError g) :
    (x >>= f).mapError g = (y >>= f').mapError g := by
  cases x with
  | error e =>
    cases y with
    | error e' => exact congrArg Except.error (Except.error.inj hx)
    | ok b => cases hx
  | ok a =>
    cases y with
    | error e' => cases hx
    | ok b =>
      obtain rfl : a = b := Except.ok.inj hx
      exact hf a

/-- A part of a result that has been evaluated. -/
theorem eq_of_toOption_map (f : α → β) {x : Except ε α} {a : α} (hx : x = .ok a) {b : β}
    (h : x.toOption.map f = some b) : f a = b := by
  rw [hx] at h
  exact Option.some.inj h

theorem exists_ok_of_isOk {x : Except ε α} (h : x.isOk) : ∃ a, x = .ok a := by
  cases x with
  | ok a => exact ⟨a, rfl⟩
  | error e => cases h

theorem exists_error_of_isOk_eq_false {x : Except ε α} (h : x.isOk = false) :
    ∃ e, x = .error e := by
  cases x with
  | ok a => cases h
  | error e => exact ⟨e, rfl⟩

end Except
