import Mathlib.Algebra.Order.Field.Rat
import Mathlib.Data.Nat.Cast.Field
import Mathlib.Tactic.NormNum
import QueryFilter.Proofs.Digits
import QueryFilter.Proofs.Operands

/-!
# Integer operands

An operand is an integer if it is a number whose exact value is one, or a text that spells one. It
is taken as it is where it fits the width, and refused otherwise: nothing is rounded and nothing
wraps around.

* `Binary.toInt?_eq_some_iff`: the integers among the binary numbers, by their exact values;
* `SpellsInteger` and `Value.readInteger?_eq_some_iff`: the integers that texts spell;
* `Json.DenotesInteger`: the integer that an operand stands for;
* `convertOperand_integer`: what is converted to the type of a width, and to what.
-/

namespace QueryFilter

/-! ### Exact values -/

namespace Binary

variable {f : Format}

/-- The exact value of a binary number. -/
def toRat (x : Binary f) : ℚ :=
  (if x.negative then -1 else 1) * (x.significand * 2 ^ x.scale) / 2 ^ f.least

/-- A ratio of natural numbers is an integer exactly if it leaves no remainder. -/
theorem natCast_div_eq_intCast_iff {a b : Nat} (hb : 0 < b) {n : Int} :
    (a : ℚ) / b = n ↔ a % b = 0 ∧ ((a / b : Nat) : Int) = n := by
  have hb' : (b : ℚ) ≠ 0 := Nat.cast_ne_zero.2 (by omega)
  constructor
  · intro h
    have hmul : (a : Int) = b * n := by
      rw [div_eq_iff hb', mul_comm] at h
      exact_mod_cast h
    have hdvd : b ∣ a := Int.natCast_dvd_natCast.1 ⟨n, hmul⟩
    refine ⟨Nat.mod_eq_zero_of_dvd hdvd, ?_⟩
    rw [Int.natCast_div, hmul, Int.mul_ediv_cancel_left n (by omega)]
  · rintro ⟨hmod, rfl⟩
    rw [Int.cast_natCast, Nat.cast_div_charZero (Nat.dvd_of_mod_eq_zero hmod)]

/-- A binary number is taken as an integer exactly if its value is one. -/
theorem toInt?_eq_some_iff {x : Binary f} {n : Int} : x.toInt? = some n ↔ x.toRat = n := by
  have hunits : x.toRat = if x.negative then -((x.units : ℚ) / (2 ^ f.least : Nat))
      else (x.units : ℚ) / (2 ^ f.least : Nat) := by
    rw [toRat, units, Nat.pow_eq, Nat.cast_mul, Nat.cast_pow, Nat.cast_pow, Nat.cast_ofNat]
    split <;> ring
  rw [toInt?, hunits, Nat.pow_eq]
  cases x.negative with
  | false =>
    simp only [Bool.false_eq_true, if_false, Option.ite_none_right_eq_some, Option.some.injEq]
    exact (natCast_div_eq_intCast_iff (Nat.two_pow_pos _)).symm
  | true =>
    have hneg : -((x.units : ℚ) / (2 ^ f.least : Nat)) = n ↔
        (x.units : ℚ) / (2 ^ f.least : Nat) = (-n : Int) := by
      rw [neg_eq_iff_eq_neg, Int.cast_neg]
    simp only [if_true, Option.ite_none_right_eq_some, Option.some.injEq]
    rw [hneg, natCast_div_eq_intCast_iff (Nat.two_pow_pos _), neg_eq_iff_eq_neg]

end Binary

/-- The exact value of a number. -/
def Json.Number.toRat : Json.Number → ℚ
  | .int n => n
  | .float x => x.toRat

/-! ### Texts of integers -/

open Text

/-- Digits with an optional sign in front spell an integer. -/
inductive SpellsInteger : List Char → Int → Prop
  | unsigned {ds : List Char} : ds ≠ [] → (∀ d ∈ ds, d.isDigit) →
    SpellsInteger ds (Nat.ofDigits 10 (ds.reverse.map digitValue) : Nat)
  | plus {ds : List Char} : ds ≠ [] → (∀ d ∈ ds, d.isDigit) →
    SpellsInteger ('+' :: ds) (Nat.ofDigits 10 (ds.reverse.map digitValue) : Nat)
  | minus {ds : List Char} : ds ≠ [] → (∀ d ∈ ds, d.isDigit) →
    SpellsInteger ('-' :: ds) (-(Nat.ofDigits 10 (ds.reverse.map digitValue) : Nat))

/-- Neither end of a spelled integer is blank. -/
theorem SpellsInteger.not_isBlank {cs : List Char} {n : Int} (h : SpellsInteger cs n) :
    (∀ c ∈ cs.head?, isBlank c = false) ∧ ∀ c ∈ cs.getLast?, isBlank c = false := by
  have hlast {c : Char} {ds : List Char} (hc : isBlank c = false) (hds : ∀ d ∈ ds, d.isDigit) :
      ∀ d ∈ (c :: ds).getLast?, isBlank d = false := fun d hd => by
    rcases List.mem_cons.1 (List.mem_of_mem_getLast? hd) with rfl | hd
    · exact hc
    · exact isBlank_of_isDigit (hds d hd)
  cases h with
  | unsigned _ hds =>
    exact ⟨fun c hc => isBlank_of_isDigit (hds c (List.mem_of_mem_head? hc)),
      fun c hc => isBlank_of_isDigit (hds c (List.mem_of_mem_getLast? hc))⟩
  | plus _ hds => exact ⟨by rintro _ ⟨⟩; rfl, hlast rfl hds⟩
  | minus _ hds => exact ⟨by rintro _ ⟨⟩; rfl, hlast rfl hds⟩

namespace Decimal

theorem readSign_minus (cs : List Char) : readSign ('-' :: cs) = (some true, cs) := rfl

theorem readSign_plus (cs : List Char) : readSign ('+' :: cs) = (some false, cs) := rfl

theorem readSign_cases (cs : List Char) :
    (∃ ds, cs = '-' :: ds) ∨ (∃ ds, cs = '+' :: ds) ∨ readSign cs = (none, cs) := by
  unfold readSign
  split
  · exact .inl ⟨_, rfl⟩
  · exact .inr (.inl ⟨_, rfl⟩)
  · exact .inr (.inr rfl)

theorem readSign_of_digits {ds : List Char} (hds : ∀ d ∈ ds, d.isDigit) :
    readSign ds = (none, ds) := by
  rcases readSign_cases ds with ⟨ds, rfl⟩ | ⟨ds, rfl⟩ | h
  · cases hds _ List.mem_cons_self
  · cases hds _ List.mem_cons_self
  · exact h

end Decimal

namespace Value

/-- Behind its sign, a text of an integer has digits only. -/
theorem readInteger?_eq_some_of_readSign {cs ds : List Char} {sign : Option Bool} {n : Int}
    (h : Decimal.readSign cs = (sign, ds)) :
    readInteger? cs = some n ↔ (ds ≠ [] ∧ ∀ d ∈ ds, d.isDigit) ∧
      (if sign = some true then -(digitsValue ds : Int) else digitsValue ds) = n := by
  have hdigits : (ds.isEmpty ∨ ¬ds.all Char.isDigit) ↔ ¬(ds ≠ [] ∧ ∀ d ∈ ds, d.isDigit) := by
    rw [List.isEmpty_iff, List.all_eq_true]
    tauto
  rw [readInteger?, h]
  simp only [hdigits, ite_not, Option.ite_none_right_eq_some, Option.some.injEq]

/-- Exactly the texts that spell an integer are read as one. -/
theorem readInteger?_eq_some_iff {cs : List Char} {n : Int} :
    readInteger? cs = some n ↔ SpellsInteger cs n := by
  constructor
  · intro h
    rcases Decimal.readSign_cases cs with ⟨ds, rfl⟩ | ⟨ds, rfl⟩ | hsign
    · obtain ⟨⟨hne, hds⟩, rfl⟩ :=
        (readInteger?_eq_some_of_readSign (Decimal.readSign_minus ds)).1 h
      rw [if_pos rfl, digitsValue_eq_ofDigits]
      exact .minus hne hds
    · obtain ⟨⟨hne, hds⟩, rfl⟩ :=
        (readInteger?_eq_some_of_readSign (Decimal.readSign_plus ds)).1 h
      rw [if_neg (by decide), digitsValue_eq_ofDigits]
      exact .plus hne hds
    · obtain ⟨⟨hne, hds⟩, rfl⟩ := (readInteger?_eq_some_of_readSign hsign).1 h
      rw [if_neg (by decide), digitsValue_eq_ofDigits]
      exact .unsigned hne hds
  · rintro (⟨hne, hds⟩ | ⟨hne, hds⟩ | ⟨hne, hds⟩)
    · refine (readInteger?_eq_some_of_readSign (Decimal.readSign_of_digits hds)).2 ⟨⟨hne, hds⟩, ?_⟩
      rw [if_neg (by decide), digitsValue_eq_ofDigits]
    · refine (readInteger?_eq_some_of_readSign (Decimal.readSign_plus _)).2 ⟨⟨hne, hds⟩, ?_⟩
      rw [if_neg (by decide), digitsValue_eq_ofDigits]
    · refine (readInteger?_eq_some_of_readSign (Decimal.readSign_minus _)).2 ⟨⟨hne, hds⟩, ?_⟩
      rw [if_pos rfl, digitsValue_eq_ofDigits]

end Value

/-! ### Operands -/

/-- An operand stands for an integer: it is a number with this exact value, or a text that spells
it, with blanks around it or not. -/
def Json.DenotesInteger (raw : Json) (n : Int) : Prop :=
  (∃ x : Json.Number, raw = .scalar (.number x) ∧ x.toRat = n) ∨
  ∃ s before core after, raw = .string s ∧ s.toList = before ++ core ++ after ∧
    (∀ c ∈ before, isBlank c) ∧ (∀ c ∈ after, isBlank c) ∧ SpellsInteger core n

/-- The integers of a width. -/
def IntWidth.InRange (w : IntWidth) (n : Int) : Prop :=
  -2 ^ (w.bits - 1) ≤ n ∧ n < 2 ^ (w.bits - 1)

theorem IntWidth.holds_iff {w : IntWidth} {n : Int} : w.holds n ↔ w.InRange n := by
  rw [holds, Bool.and_eq_true, decide_eq_true_eq, decide_eq_true_eq]
  rfl

/-- A wider type has the integers of a narrower one. -/
theorem IntWidth.InRange.mono {w w' : IntWidth} (hw : w.bits ≤ w'.bits) {n : Int}
    (h : w.InRange n) : w'.InRange n := by
  have hpow : (2 : Int) ^ (w.bits - 1) ≤ 2 ^ (w'.bits - 1) :=
    pow_le_pow_right₀ (by decide) (by omega)
  exact ⟨(neg_le_neg hpow).trans h.1, h.2.trans_le hpow⟩

namespace Value

theorem readInteger?_trim_iff {cs : List Char} {n : Int} :
    readInteger? (trim cs) = some n ↔ ∃ before core after, cs = before ++ core ++ after ∧
      (∀ c ∈ before, isBlank c) ∧ (∀ c ∈ after, isBlank c) ∧ SpellsInteger core n := by
  rw [readInteger?_eq_some_iff]
  constructor
  · intro h
    obtain ⟨before, after, hcs, hbefore, hafter⟩ := exists_eq_trim cs
    exact ⟨before, trim cs, after, hcs, hbefore, hafter, h⟩
  · rintro ⟨before, core, after, rfl, hbefore, hafter, h⟩
    rwa [trim_blanks hbefore hafter h.not_isBlank.1 h.not_isBlank.2]

/-- An operand is taken as the integer that it stands for. -/
theorem integer?_eq_some_iff {raw : Json} {n : Int} :
    integer? raw = some n ↔ raw.DenotesInteger n := by
  unfold integer? Json.DenotesInteger
  split
  · simp [Json.Number.toRat]
  · simp [Json.Number.toRat, Binary.toInt?_eq_some_iff]
  · simp [readInteger?_trim_iff]
  case _ hint hfloat hstring =>
    refine iff_of_false nofun ?_
    rintro (⟨n | x, rfl, -⟩ | ⟨s, -, -, -, rfl, -⟩)
    · exact hint n rfl
    · exact hfloat x rfl
    · exact hstring s rfl

/-- The values of a width are the integers that fit it. -/
theorem convert?_integer_eq_some_iff {w : IntWidth} {raw : Json} {v : Value} :
    convert? raw (.integer w) = some v ↔
      ∃ n, raw.DenotesInteger n ∧ w.InRange n ∧ v = .integer w n := by
  simp only [convert?, Option.bind_eq_some_iff, Option.ite_none_right_eq_some,
    Option.some.injEq, integer?_eq_some_iff, IntWidth.holds_iff, eq_comm (b := v)]

end Value

/-- Null stands for no integer. -/
theorem Json.not_denotesInteger_null {n : Int} : ¬Json.null.DenotesInteger n := by
  rintro (⟨x, ⟨⟩, -⟩ | ⟨s, -, -, -, ⟨⟩, -⟩)

/-- What converts to an integer type, and to what. -/
theorem convertOperand_integer_eq_ok_iff {field : String} {w : IntWidth} {raw : Json} {v : Value} :
    convertOperand field (.integer w) raw = .ok v ↔
      raw = .null ∧ v = .null ∨ ∃ n, raw.DenotesInteger n ∧ w.InRange n ∧ v = .integer w n := by
  rw [convertOperand_eq_ok_iff]
  by_cases hnull : raw = .null
  · subst hnull
    simp [Value.ofOperand?, Json.not_denotesInteger_null, eq_comm]
  · rw [Value.ofOperand?_of_ne_null hnull, Value.convert?_integer_eq_some_iff]
    simp [hnull]

/-- Conversion to an integer type is exact. -/
theorem convertOperand_integer (field : String) :
    (∀ (w : IntWidth) (raw : Json) (v : Value), convertOperand field (.integer w) raw = .ok v ↔
      raw = .null ∧ v = .null ∨ ∃ n, raw.DenotesInteger n ∧ w.InRange n ∧ v = .integer w n) ∧
    (∀ (w : IntWidth) (raw : Json) (e : CompileError),
      convertOperand field (.integer w) raw = .error e → e = .conversion field w.name raw) ∧
    (∀ (w w' : IntWidth) (raw : Json) (n : Int), w.bits ≤ w'.bits →
      convertOperand field (.integer w) raw = .ok (.integer w n) →
      convertOperand field (.integer w') raw = .ok (.integer w' n)) ∧
    (∀ (w : IntWidth) (raws : List Json) (vs : List Value),
      convertOperands field (.integer w) raws = .ok vs ↔
        List.Forall₂ (fun raw v => convertOperand field (.integer w) raw = .ok v) raws vs) ∧
    ∀ (w : IntWidth) (raws : List Json) (e : CompileError),
      convertOperands field (.integer w) raws = .error e ↔
        ∃ before raw after, raws = before ++ raw :: after ∧
          (∀ r ∈ before, ∃ v, convertOperand field (.integer w) r = .ok v) ∧
          convertOperand field (.integer w) raw = .error e := by
  refine ⟨fun _ _ _ => convertOperand_integer_eq_ok_iff,
    fun _ _ _ h => (convertOperand_eq_error_iff.1 h).2, fun w w' raw n hw h => ?_,
    fun _ _ _ => convertOperands_eq_ok_iff, fun _ _ _ => convertOperands_eq_error_iff⟩
  rcases convertOperand_integer_eq_ok_iff.1 h with ⟨-, ⟨⟩⟩ | ⟨n, hn, hrange, ⟨⟩⟩
  exact convertOperand_integer_eq_ok_iff.2 (.inr ⟨n, hn, hrange.mono hw, rfl⟩)

/-- The largest byte, spelled with a sign and between blanks, and the number behind it. -/
theorem convertOperand_integer_quantity :
    let largest : Json := .string " +127\n"
    largest.DenotesInteger 127 ∧
    convertOperand "quantity" (.integer .byte) largest = .ok (.integer .byte 127) ∧
    convertOperand "quantity" (.integer .long) largest = .ok (.integer .long 127) ∧
    convertOperands "quantity" (.integer .byte) [largest, .int (-128)] =
      .ok [.integer .byte 127, .integer .byte (-128)] ∧
    convertOperands "quantity" (.integer .byte) [largest, .int 128, .string "many"] =
      .error (.conversion "quantity" "byte" (.int 128)) := by
  intro largest
  obtain ⟨hexact, herror, hwider, hlist, hfirst⟩ := convertOperand_integer "quantity"
  have hdigits : SpellsInteger ('+' :: ['1', '2', '7']) 127 :=
    .plus (List.cons_ne_nil _ _) (List.all_eq_true.1 rfl)
  have hlargest : largest.DenotesInteger 127 :=
    .inr ⟨_, [' '], _, ['\n'], rfl, rfl, List.all_eq_true.1 rfl, List.all_eq_true.1 rfl, hdigits⟩
  have hbyte : convertOperand "quantity" (.integer .byte) largest = .ok (.integer .byte 127) :=
    (hexact _ _ _).2 (.inr ⟨127, hlargest, ⟨by decide, by decide⟩, rfl⟩)
  have hleast : convertOperand "quantity" (.integer .byte) (.int (-128)) =
      .ok (.integer .byte (-128)) := by decide
  obtain ⟨e, hlarge⟩ : ∃ e, convertOperand "quantity" (.integer .byte) (.int 128) = .error e :=
    Except.exists_error_of_isOk_eq_false (by decide)
  obtain rfl := herror _ _ _ hlarge
  refine ⟨hlargest, hbyte, hwider .byte .long _ _ (by decide) hbyte,
    (hlist _ _ _).2 (.cons hbyte (.cons hleast .nil)),
    (hfirst _ _ _).2 ⟨[largest], _, [.string "many"], rfl, fun r hr => ?_, hlarge⟩⟩
  rw [List.mem_singleton.1 hr]
  exact ⟨_, hbyte⟩

end QueryFilter
