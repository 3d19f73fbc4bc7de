import Mathlib.Data.List.TakeWhile
import QueryFilter.Proofs.Codec
import QueryFilter.Proofs.Operands
import QueryFilter.Proofs.Readers

/-!
# The text of a date or time as an operand

A value that was read from a text is written in one form, whatever the text was. A day and a local
date-time are read back from it. A date-time with an offset is so only where the year is written
with four digits: the text has seconds, and the one grammar that takes them with an offset takes no
longer year.

* `Value.offsetYear?`: the year that a date-time with an offset is written with;
* `Value.Read`: the values that are read from texts;
* `Value.convert?_toText_of_read`: which of them are read back;
* `convertOperand_toText`: the same for operands, and for the filters that are made of them.
-/

namespace QueryFilter

namespace Calendar

/-! ### Characters of a text -/

theorem not_mem_of_isDigit {cs : List Char} (h : ∀ c ∈ cs, c.isDigit) {c : Char}
    (hc : c.isDigit = false) : c ∉ cs := fun hmem =>
  Bool.eq_false_iff.1 hc (h c hmem)

theorem bracket_not_mem_lastDigits (width n : Nat) : '[' ∉ Text.lastDigits width n :=
  not_mem_of_isDigit (fun _ => Text.isDigit_of_mem_lastDigits) rfl

theorem bracket_not_mem_padded (width n : Nat) : '[' ∉ Text.padded width n :=
  not_mem_of_isDigit (fun _ => Text.isDigit_of_mem_padded) rfl

/-- No bracket stands in a date-time. -/
theorem OffsetDateTime.bracket_not_mem_text (t : OffsetDateTime) : '[' ∉ t.text := by
  have hyear : '[' ∉ yearText t.stamp.date.year := by
    unfold yearText
    split
    · exact bracket_not_mem_padded _ _
    · split <;> simp [bracket_not_mem_padded]
  have hfraction : '[' ∉ fractionText t.stamp.time.nano := by
    unfold fractionText
    split
    · exact List.not_mem_nil
    · split
      · simp [bracket_not_mem_lastDigits]
      · split <;> simp [bracket_not_mem_lastDigits]
  have hoffset : '[' ∉ offsetText t.offset := by
    unfold offsetText
    split <;> simp [bracket_not_mem_lastDigits]
  simp [text, DateTime.text, Date.text, Time.text, hyear, hfraction, hoffset,
    bracket_not_mem_lastDigits]

end Calendar

/-- The types of dates and times in the common calendar. -/
def ColumnType.IsTemporal : ColumnType → Prop
  | date | datetime | instant | offsetDateTime | zonedDateTime => True
  | _ => False

namespace Value

open Calendar

/-! ### Values that are read -/

/-- The year that a date-time with an offset is written with: that of an instant in UTC, and that of
any other in local time. -/
def offsetYear? : Value → Option Int
  | instant t => some t.date.year
  | offsetDateTime t | zoned t _ => some t.stamp.date.year
  | _ => none

/-- Unless a value has no offset, its year is written with four digits and no sign. -/
def HasFourDigitYear (v : Value) : Prop := ∀ year ∈ v.offsetYear?, 0 ≤ year ∧ year ≤ 9999

instance (v : Value) : Decidable v.HasFourDigitYear :=
  inferInstanceAs (Decidable (∀ year ∈ v.offsetYear?, 0 ≤ year ∧ year ≤ 9999))

/-- The dates and times that are read from a text. A region has the shape of an identifier. -/
inductive Read : ColumnType → Value → Prop
  | date (d : Date) : Read .date (.date d)
  | datetime (t : DateTime) : Read .datetime (.datetime t)
  | instant (t : DateTime) : Read .instant (.instant t)
  | offsetDateTime (t : OffsetDateTime) : Read .offsetDateTime (.offsetDateTime t)
  | unzoned (t : OffsetDateTime) : Read .zonedDateTime (.zoned t none)
  | zoned (t : OffsetDateTime) {zone : String} (h : isZone zone.toList) :
    Read .zonedDateTime (.zoned t (some zone))

theorem read_of_readZoned? {cs : List Char} {v : Value} (h : readZoned? cs = some v) :
    Read .zonedDateTime v := by
  unfold readZoned? at h
  dsimp only at h
  split at h
  · obtain ⟨t, -, rfl⟩ := Option.map_eq_some_iff.1 h
    exact .unzoned t
  · split at h
    · rename_i hzone
      obtain ⟨t, -, rfl⟩ := Option.map_eq_some_iff.1 h
      exact .zoned t (by rw [String.toList_ofList]; exact hzone.2)
    · cases h

theorem read_of_convert? {type : ColumnType} (htype : type.IsTemporal) {raw : Json} {v : Value}
    (h : convert? raw type = some v) : Read type v := by
  cases type with
  | date | datetime | instant | offsetDateTime =>
    obtain ⟨cs, -, h⟩ := Option.bind_eq_some_iff.1 h
    obtain ⟨t, -, rfl⟩ := Option.map_eq_some_iff.1 h
    constructor
  | zonedDateTime =>
    obtain ⟨cs, -, h⟩ := Option.bind_eq_some_iff.1 h
    exact read_of_readZoned? h
  | _ => exact htype.elim

/-! ### Values that are read back -/

theorem hasFourDigitYear_iff {v : Value} {year : Int} (h : v.offsetYear? = some year) :
    v.HasFourDigitYear ↔ 0 ≤ year ∧ year ≤ 9999 := by
  simp [HasFourDigitYear, h]

theorem text?_toText {v : Value} {cs : List Char} (h : v.toText = String.ofList cs) :
    text? (.string v.toText) = some cs := by
  rw [text?, h, String.toList_ofList]

theorem readZoned?_text (t : OffsetDateTime) :
    readZoned? t.text = (OffsetDateTime.read? t.text).map (zoned · none) := by
  have hstamp : ∀ c ∈ t.text, (c != '[') = true := fun c hc =>
    bne_iff_ne.2 fun heq => t.bracket_not_mem_text (heq ▸ hc)
  rw [readZoned?, List.takeWhile_eq_self_iff.2 hstamp, List.dropWhile_eq_nil_iff.2 hstamp]

theorem readZoned?_brackets (t : OffsetDateTime) {zone : String} (h : isZone zone.toList) :
    readZoned? (t.text ++ '[' :: (zone.toList ++ [']'])) =
      (OffsetDateTime.read? t.text).map (zoned · (some zone)) := by
  have hstamp : ∀ c ∈ t.text, (c != '[') = true := fun c hc =>
    bne_iff_ne.2 fun heq => t.bracket_not_mem_text (heq ▸ hc)
  have hlast : (zone.toList ++ [']']).getLast? = some ']' := List.getLast?_concat
  have hzone : (zone.toList ++ [']']).dropLast = zone.toList := List.dropLast_concat
  rw [readZoned?, List.takeWhile_append_of_pos hstamp, List.dropWhile_append_of_pos hstamp,
    List.takeWhile_cons_of_neg (by decide), List.dropWhile_cons_of_neg (by decide),
    List.append_nil]
  dsimp only
  rw [hzone, if_pos ⟨hlast, h⟩, String.ofList_toList]

/-- A value is read back from its text unless it has an offset and a year that is not written with
four digits. -/
theorem convert?_toText_of_read {type : ColumnType} {v : Value} (h : Read type v) :
    convert? (.string v.toText) type = if v.HasFourDigitYear then some v else none := by
  cases h with
  | date d =>
    rw [convert?, text?_toText rfl, Option.bind_some, Date.read?_text]
    rfl
  | datetime t =>
    rw [convert?, text?_toText rfl, Option.bind_some, DateTime.read?_text]
    rfl
  | instant t =>
    have hread : (OffsetDateTime.read? t.instantText).map (fun u => instant u.utc) =
        ((OffsetDateTime.read? t.instantText).map OffsetDateTime.utc).map instant := by
      rw [Option.map_map]
      rfl
    rw [convert?, text?_toText rfl, Option.bind_some, hread, OffsetDateTime.read?_instantText,
      if_congr (hasFourDigitYear_iff rfl) rfl rfl]
    split <;> rfl
  | offsetDateTime t =>
    rw [convert?, text?_toText rfl, Option.bind_some, OffsetDateTime.read?_text_self,
      if_congr (hasFourDigitYear_iff rfl) rfl rfl]
    split <;> rfl
  | unzoned t =>
    rw [convert?, text?_toText rfl, Option.bind_some, readZoned?_text,
      OffsetDateTime.read?_text_self, if_congr (hasFourDigitYear_iff rfl) rfl rfl]
    split <;> rfl
  | zoned t hzone =>
    rename_i zone
    have htext : (zoned t (some zone)).toText =
        String.ofList (t.text ++ '[' :: (zone.toList ++ [']'])) := by
      rw [← String.toList_inj]
      simp [toText]
    rw [convert?, text?_toText htext, Option.bind_some, readZoned?_brackets t hzone,
      OffsetDateTime.read?_text_self, if_congr (hasFourDigitYear_iff rfl) rfl rfl]
    split <;> rfl

theorem Read.isNull {type : ColumnType} {v : Value} (h : Read type v) : v.isNull = false := by
  cases h <;> rfl

end Value

/-! ### Operands -/

theorem ColumnType.IsTemporal.isComparable {type : ColumnType} (h : type.IsTemporal) :
    type.isComparable := by
  cases type with
  | foreign => exact h.elim
  | _ => rfl

theorem Value.read_of_convertOperand {type : ColumnType} (htype : type.IsTemporal)
    {field s : String} {v : Value} (h : convertOperand field type (.string s) = .ok v) :
    v.Read type := by
  rw [convertOperand_eq_ok_iff, ofOperand?_of_ne_null (by simp)] at h
  exact read_of_convert? htype h

/-- A column is compared with the value of its operand. -/
theorem columnPredicate_compare {σ : Type} {field : String} (column : Column σ) {type : ColumnType}
    (htype : type.isComparable) (op : Comparison) {raw : Json.Scalar} {v : Value}
    (hnull : v.isNull = false) (h : convertOperand field type (.scalar raw) = .ok v) :
    columnPredicate field column type (.single (.compare op) raw) =
      .ok (.test (.compare column op v false)) := by
  have htest : singleTest field column type (.compare op) raw v =
      .ok (.compare column op v false) := by
    cases op <;> simp [singleTest, hnull, htype]
  rw [columnPredicate, h]
  exact congrArg (Except.map Predicate.test) htest

theorem columnPredicate_of_error {σ : Type} {field : String} (column : Column σ)
    {type : ColumnType} (op : SingleOperator) {raw : Json.Scalar} {e : CompileError}
    (h : convertOperand field type (.scalar raw) = .error e) :
    columnPredicate field column type (.single op raw) = .error e := by
  rw [columnPredicate, h]
  rfl

/-- A leaf whose operand is a text is read back from its document. -/
theorem Document.expressions_encode_text {field : String} (hfield : ¬IsConnectiveKey field)
    (op : Comparison) (s : String) :
    let leaf := Expression.leaf field (.single (.compare op) (.string s))
    (encode leaf).expressions = .ok [leaf] := by
  intro leaf
  have hleaf : ∀ l ∈ leaf.leaves, l.2.Valid ∧ ¬IsConnectiveKey l.1 :=
    List.forall_mem_singleton.2 ⟨nofun, hfield⟩
  rw [expressions_encode, decodeMember_encodeMember hleaf]
  rfl

/-- **Canonical text.** A date or time that was read from a text is written in one form. This form
is read as the same value, unless the value has an offset and a year that is not written with four
digits: then it is refused. A comparison with this text can be built, its document is read as it
was, and it compares a column of the type with the value under the same condition. -/
theorem convertOperand_toText {type : ColumnType} (htype : type.IsTemporal) {field s : String}
    {v : Value} (h : convertOperand field type (.string s) = .ok v) :
    (convertOperand field type (.string v.toText) =
      if v.HasFourDigitYear then .ok v
      else .error (.conversion field type.name (.string v.toText))) ∧
    ∀ op : Comparison, ∃ c : Condition,
      Expression.single field (.single (.compare op)) (.string v.toText) = .ok (.leaf field c) ∧
      (¬IsConnectiveKey field →
        (Document.encode (.leaf field c)).expressions = .ok [.leaf field c]) ∧
      ∀ (σ : Type) (column : Column σ),
        columnPredicate field column type c = .ok (.test (.compare column op v false)) ↔
          v.HasFourDigitYear := by
  have hread := Value.read_of_convertOperand htype h
  have hback : Value.ofOperand? (.string v.toText) type =
      if v.HasFourDigitYear then some v else none := by
    rw [Value.ofOperand?_of_ne_null (by simp), Value.convert?_toText_of_read hread]
  have hok (hyear : v.HasFourDigitYear) : convertOperand field type (.string v.toText) = .ok v :=
    convertOperand_eq_ok_iff.2 (by rw [hback, if_pos hyear])
  have herror (hyear : ¬v.HasFourDigitYear) : convertOperand field type (.string v.toText) =
      .error (.conversion field type.name (.string v.toText)) :=
    convertOperand_eq_error_iff.2 ⟨by rw [hback, if_neg hyear], rfl⟩
  refine ⟨?_, fun op => ⟨.single (.compare op) (.string v.toText), ?_, ?_, fun σ column => ?_⟩⟩
  · split
    · exact hok ‹_›
    · exact herror ‹_›
  · exact Expression.single_eq_ok_iff.2 ⟨_, _, rfl, rfl, nofun, rfl⟩
  · exact fun hfield => Document.expressions_encode_text hfield op _
  · constructor
    · intro hcolumn
      by_contra hyear
      rw [columnPredicate_of_error column _ (herror hyear)] at hcolumn
      cases hcolumn
    · intro hyear
      exact columnPredicate_compare column htype.isComparable op hread.isNull (hok hyear)

/-- The last day of February, half a second into a leap second, is an instant of the next day. -/
theorem convertOperand_toText_leap :
    let v := Value.instant ⟨⟨2024, 3, 1, by decide⟩, ⟨7, 30, 60, 500000000, by decide⟩⟩
    ColumnType.instant.IsTemporal ∧
    convertOperand "at" .instant (.string "2024-02-29T23:30:60.5-08:00") = .ok v ∧
    v.toText = "2024-03-01T07:30:60.500Z" ∧
    convertOperand "at" .instant (.string v.toText) = .ok v := by
  intro v
  have htype : ColumnType.instant.IsTemporal := trivial
  have h : convertOperand "at" .instant (.string "2024-02-29T23:30:60.5-08:00") = .ok v :=
    convertOperand_eq_ok_iff.2 (by decide +kernel)
  exact ⟨htype, h, by decide +kernel,
    (convertOperand_toText htype h).1.trans (if_pos (by decide))⟩

/-- The last hour of the year 9999, an hour west of Greenwich, is an instant of a year that is
written with five digits and a sign, and its text is refused. -/
theorem instant_not_read_back :
    let v := Value.instant ⟨⟨10000, 1, 1, by decide⟩, ⟨0, 59, 59, 0, by decide⟩⟩
    convertOperand "at" .instant (.string "9999-12-31T23:59:59-01:00") = .ok v ∧
    v.toText = "+10000-01-01T00:59:59Z" ∧
    convertOperand "at" .instant (.string v.toText) =
      .error (.conversion "at" "instant" (.string "+10000-01-01T00:59:59Z")) := by
  intro v
  exact ⟨convertOperand_eq_ok_iff.2 (by decide +kernel), by decide +kernel,
    convertOperand_eq_error_iff.2 (by decide +kernel)⟩

end QueryFilter
