import Mathlib.Data.List.Forall2
import QueryFilter.Proofs.Except
import QueryFilter.Query.Compile

/-!
# Operands

What the conversion of an operand gives, by what the operand is as a value of the type, and what the
conversion of a list gives, by its elements.
-/

namespace QueryFilter

variable {field : String} {type : ColumnType}

theorem convertOperand_eq_ok_iff {raw : Json} {v : Value} :
    convertOperand field type raw = .ok v ↔ Value.ofOperand? raw type = some v := by
  unfold convertOperand
  cases Value.ofOperand? raw type <;> simp

/-- An operand that does not convert is the one that the error names. -/
theorem convertOperand_eq_error_iff {raw : Json} {e : CompileError} :
    convertOperand field type raw = .error e ↔
      Value.ofOperand? raw type = none ∧ e = .conversion field type.name raw := by
  unfold convertOperand
  cases Value.ofOperand? raw type <;> simp [eq_comm]

/-- Null is a value of every type, and any other operand is converted. -/
theorem Value.ofOperand?_of_ne_null {raw : Json} (h : raw ≠ .null) :
    ofOperand? raw type = convert? raw type := if_neg h

/-! ### Lists -/

theorem convertOperands_eq_ok_iff {raws : List Json} {vs : List Value} :
    convertOperands field type raws = .ok vs ↔
      List.Forall₂ (fun raw v => convertOperand field type raw = .ok v) raws vs := by
  induction raws generalizing vs with
  | nil =>
    rw [List.forall₂_nil_left_iff, convertOperands, Except.ok.injEq, eq_comm]
  | cons raw raws ih =>
    rw [List.forall₂_cons_left_iff, convertOperands]
    simp only [Except.bind_eq_ok_iff, ih]
    constructor
    · rintro ⟨v, hv, ws, hws, h⟩
      cases h
      exact ⟨v, ws, hv, hws, rfl⟩
    · rintro ⟨v, ws, hv, hws, rfl⟩
      exact ⟨v, hv, ws, hws, rfl⟩

/-- A list that does not convert fails as its first element does that does not. -/
theorem convertOperands_eq_error_iff {raws : List Json} {e : CompileError} :
    convertOperands field type raws = .error e ↔
      ∃ before raw after, raws = before ++ raw :: after ∧
        (∀ r ∈ before, ∃ v, convertOperand field type r = .ok v) ∧
        convertOperand field type raw = .error e := by
  induction raws with
  | nil => simp [convertOperands]
  | cons raw raws ih =>
    rw [convertOperands, Except.bind_eq_error_iff]
    constructor
    · rintro (h | ⟨v, hv, h⟩)
      · exact ⟨[], raw, raws, rfl, nofun, h⟩
      · rcases Except.bind_eq_error_iff.1 h with h | ⟨vs, -, h⟩
        · obtain ⟨before, bad, after, rfl, hbefore, hbad⟩ := ih.1 h
          exact ⟨raw :: before, bad, after, rfl,
            List.forall_mem_cons.2 ⟨⟨v, hv⟩, hbefore⟩, hbad⟩
        · cases h
    · rintro ⟨before, bad, after, hsplit, hbefore, hbad⟩
      cases before with
      | nil =>
        cases hsplit
        exact .inl hbad
      | cons first before =>
        cases hsplit
        obtain ⟨⟨v, hv⟩, hbefore⟩ := List.forall_mem_cons.1 hbefore
        have hrest := ih.2 ⟨before, bad, after, rfl, hbefore, hbad⟩
        exact .inr ⟨v, hv, Except.bind_eq_error_iff.2 (.inl hrest)⟩

end QueryFilter
