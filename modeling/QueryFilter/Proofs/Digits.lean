import Mathlib.Data.List.Induction
import Mathlib.Data.List.TakeWhile
import Mathlib.Data.Nat.Digits.Defs
import QueryFilter.Text.Blank
import QueryFilter.Text.Digits

/-!
# Digits that are read back

Numbers that are written with leading zeros are read as they were, and a text of digits is what it
is with blanks around it.

* `digitsValue_lastDigits` and `digitsValue_padded`: the two ways to write a number;
* `lastDigits_digitsValue` and `lastDigits_lt_lastDigits_iff`: numbers of a fixed width are written
  in one way only, and in their order;
* `digitsValue_eq_ofDigits`: the number that digits write, by its digits in base ten;
* `exists_eq_trim` and `trim_blanks`: a text without the blanks at its ends.
-/

namespace QueryFilter.Text

/-! ### Single digits -/

theorem isDigit_digit (n : Nat) : (digit n).isDigit = true := by
  have h : ∀ k < 10, (Char.ofNat ('0'.toNat + k)).isDigit = true := by decide
  exact h _ (Nat.mod_lt n (by decide))

theorem digitValue_digit (n : Nat) : digitValue (digit n) = n % 10 := by
  have h : ∀ k < 10, digitValue (Char.ofNat ('0'.toNat + k)) = k := by decide
  exact h _ (Nat.mod_lt n (by decide))

theorem isDigit_iff {c : Char} : c.isDigit = true ↔ 48 ≤ c.toNat ∧ c.toNat ≤ 57 := by
  simp only [Char.isDigit, Bool.and_eq_true, decide_eq_true_eq, ge_iff_le, UInt32.le_iff_toNat_le]
  rfl

theorem isBlank_of_isDigit {c : Char} (h : c.isDigit = true) : isBlank c = false := by
  rw [isDigit_iff] at h
  simp only [isBlank, Bool.or_eq_false_iff, Bool.and_eq_false_iff, decide_eq_false_iff_not,
    beq_eq_false_iff_ne]
  omega

theorem digitValue_lt {c : Char} (h : c.isDigit = true) : digitValue c < 10 := by
  have hc := isDigit_iff.1 h
  show c.toNat - 48 < 10
  omega

/-- A digit is the one with its value. -/
theorem digit_eq_of_mod {c : Char} (h : c.isDigit = true) {n : Nat} (hn : n % 10 = digitValue c) :
    digit n = c := by
  have hc := isDigit_iff.1 h
  have hvalue : '0'.toNat + digitValue c = c.toNat := by
    show 48 + (c.toNat - 48) = c.toNat
    omega
  rw [digit, hn, hvalue, Char.ofNat_toNat]

/-- Digits are ordered by their values. -/
theorem digit_lt_digit_iff {a b : Nat} : digit a < digit b ↔ a % 10 < b % 10 := by
  have hnat (n : Nat) : (digit n).toNat = 48 + n % 10 := by
    have hdigit := isDigit_iff.1 (isDigit_digit n)
    have hvalue : (digit n).toNat - 48 = n % 10 := digitValue_digit n
    omega
  show (digit a).toNat < (digit b).toNat ↔ _
  rw [hnat, hnat]
  omega

/-- The value of a run of digits is that of its digits in base ten. -/
theorem digitsValue_eq_ofDigits (ds : List Char) :
    digitsValue ds = Nat.ofDigits 10 (ds.reverse.map digitValue) := by
  induction ds using List.reverseRecOn with
  | nil => rfl
  | append_singleton ds d ih =>
    rw [digitsValue_concat, ih, List.reverse_concat, List.map_cons, Nat.ofDigits_cons,
      Nat.add_comm]

/-! ### Numbers of a fixed width -/

theorem isDigit_of_mem_lastDigits {width n : Nat} {c : Char} (h : c ∈ lastDigits width n) :
    c.isDigit = true := by
  induction width generalizing n with
  | zero => cases h
  | succ width ih =>
    rcases List.mem_append.1 h with h | h
    · exact ih h
    · rw [List.mem_singleton.1 h]
      exact isDigit_digit n

theorem digitsValue_lastDigits (width n : Nat) :
    digitsValue (lastDigits width n) = n % 10 ^ width := by
  induction width generalizing n with
  | zero => simp [lastDigits, Nat.mod_one]
  | succ width ih =>
    rw [lastDigits, digitsValue_concat, ih, digitValue_digit, Nat.pow_succ', Nat.mod_mul]
    omega

theorem digitsValue_lastDigits_of_lt {width n : Nat} (h : n < 10 ^ width) :
    digitsValue (lastDigits width n) = n := by
  rw [digitsValue_lastDigits, Nat.mod_eq_of_lt h]

/-- The number that digits write is written with them again. -/
theorem lastDigits_digitsValue {ds : List Char} (h : ∀ d ∈ ds, d.isDigit) :
    lastDigits ds.length (digitsValue ds) = ds := by
  induction ds using List.reverseRecOn with
  | nil => rfl
  | append_singleton ds d ih =>
    have hd : d.isDigit := h d (by simp)
    have hlt := digitValue_lt hd
    have hinit : (10 * digitsValue ds + digitValue d) / 10 = digitsValue ds := by omega
    have hlast : digit (10 * digitsValue ds + digitValue d) = d :=
      digit_eq_of_mod hd (by omega)
    rw [List.length_append, List.length_singleton, lastDigits, digitsValue_concat, hinit, hlast,
      ih fun c hc => h c (List.mem_append_left _ hc)]

/-! ### The order of numbers of a fixed width -/

/-- Texts with beginnings of one length are compared by these, and behind equal ones by the rest. -/
theorem append_lt_append_iff {xs ys us vs : List Char} (h : xs.length = ys.length) :
    xs ++ us < ys ++ vs ↔ xs < ys ∨ xs = ys ∧ us < vs := by
  induction xs generalizing ys with
  | nil =>
    obtain rfl : ys = [] := List.length_eq_zero_iff.1 h.symm
    simp
  | cons x xs ih =>
    cases ys with
    | nil => cases h
    | cons y ys =>
      have hlength : xs.length = ys.length := Nat.succ.inj h
      rw [List.cons_append, List.cons_append, List.cons_lt_cons_iff, List.cons_lt_cons_iff,
        ih hlength, List.cons.injEq]
      tauto

/-- Numbers below a power of ten are known from as many digits. -/
theorem lastDigits_inj {width a b : Nat} (ha : a < 10 ^ width) (hb : b < 10 ^ width) :
    lastDigits width a = lastDigits width b ↔ a = b := by
  refine ⟨fun h => ?_, congrArg _⟩
  have hvalue := congrArg digitsValue h
  rwa [digitsValue_lastDigits_of_lt ha, digitsValue_lastDigits_of_lt hb] at hvalue

/-- Such numbers are ordered as their digits are. -/
theorem lastDigits_lt_lastDigits_iff {width a b : Nat} (ha : a < 10 ^ width)
    (hb : b < 10 ^ width) : lastDigits width a < lastDigits width b ↔ a < b := by
  induction width generalizing a b with
  | zero =>
    obtain rfl : a = 0 := Nat.lt_one_iff.1 ha
    obtain rfl : b = 0 := Nat.lt_one_iff.1 hb
    simp [lastDigits]
  | succ width ih =>
    have ha' : a / 10 < 10 ^ width := by omega
    have hb' : b / 10 < 10 ^ width := by omega
    have hlast : [digit a] < [digit b] ↔ a % 10 < b % 10 := by
      simp [List.cons_lt_cons_iff, digit_lt_digit_iff]
    rw [lastDigits, lastDigits, append_lt_append_iff (by simp), ih ha' hb',
      lastDigits_inj ha' hb', hlast]
    omega

/-! ### Numbers of at least a width -/

theorem isDigit_of_mem_padded {width n : Nat} {c : Char} (h : c ∈ padded width n) :
    c.isDigit = true := by
  rcases List.mem_append.1 h with h | h
  · rw [List.eq_of_mem_replicate h]
    rfl
  · exact Nat.isDigit_of_mem_toDigits (by decide) (by decide) h

theorem le_length_padded (width n : Nat) : width ≤ (padded width n).length := by
  rw [padded, List.length_append, List.length_replicate]
  omega

theorem length_padded {width n : Nat} (hwidth : 0 < width) (h : n < 10 ^ width) :
    (padded width n).length = width := by
  have := (Nat.length_toDigits_le_iff (b := 10) (by decide) hwidth).2 h
  rw [padded, List.length_append, List.length_replicate]
  omega

theorem digitsValue_padded (width n : Nat) : digitsValue (padded width n) = n := by
  have h (zeros : Nat) (cs : List Char) :
      digitsValue (List.replicate zeros '0' ++ cs) = digitsValue cs := by
    rw [digitsValue, List.foldl_append]
    congr 1
    exact Nat.ofDigitChars_replicate_zero
  rw [padded, h]
  exact Nat.ofDigitChars_ten_toDigits

/-! ### Blanks around a text -/

theorem dropWhile_of_head? {p : Char → Bool} {cs : List Char} (h : ∀ c ∈ cs.head?, p c = false) :
    cs.dropWhile p = cs := by
  cases cs with
  | nil => rfl
  | cons c cs => exact List.dropWhile_cons_of_neg (Bool.eq_false_iff.1 (h c rfl))

/-- Trimming takes away what is blank around a text that has no blank at its ends. -/
theorem trim_blanks {before core after : List Char} (hbefore : ∀ c ∈ before, isBlank c)
    (hafter : ∀ c ∈ after, isBlank c) (hfirst : ∀ c ∈ core.head?, isBlank c = false)
    (hlast : ∀ c ∈ core.getLast?, isBlank c = false) : trim (before ++ core ++ after) = core := by
  have hstart : trimStart (before ++ core ++ after) = (core ++ after).dropWhile isBlank := by
    rw [trimStart, List.append_assoc, List.dropWhile_append_of_pos hbefore]
  have hend : trimEnd (core ++ after) = core := by
    rw [trimEnd, List.reverse_append,
      List.dropWhile_append_of_pos fun c hc => hafter c (List.mem_reverse.1 hc),
      dropWhile_of_head? (by rwa [List.head?_reverse]), List.reverse_reverse]
  rw [trim, hstart]
  cases core with
  | nil => rw [List.nil_append, List.dropWhile_eq_nil_iff.2 hafter]; rfl
  | cons c core => rw [dropWhile_of_head? (by simpa using hfirst), hend]

/-- A text is its trimmed text with blanks around it. -/
theorem exists_eq_trim (cs : List Char) :
    ∃ before after, cs = before ++ trim cs ++ after ∧ (∀ c ∈ before, isBlank c) ∧
      ∀ c ∈ after, isBlank c := by
  refine ⟨cs.takeWhile isBlank, ((trimStart cs).reverse.takeWhile isBlank).reverse, ?_,
    fun c hc => List.mem_takeWhile_imp hc,
    fun c hc => List.mem_takeWhile_imp (List.mem_reverse.1 hc)⟩
  rw [List.append_assoc, trim, trimEnd, ← List.reverse_append, List.takeWhile_append_dropWhile,
    List.reverse_reverse, trimStart, List.takeWhile_append_dropWhile]

end QueryFilter.Text
