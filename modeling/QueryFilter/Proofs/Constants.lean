import QueryFilter.Proofs.Declarations
import QueryFilter.Proofs.Operands

/-!
# The constants of an enumeration

An operand of an enumeration is the place of a constant or its name. A place is looked up, and a
name is searched from the first constant on, so the two mean the same constant unless an earlier one
has the same name. A definition may list a name twice: then the second constant of the name is only
reached by its place, and its own name, which is its text, leads to the first one.

* `IsFirst`: whether a constant is the first one with its name;
* `Json.DenotesConstant`: the place of the constant that an operand stands for;
* `Value.constant?_eq_some_iff`: what is converted, and to what;
* `nodup_iff_isFirst`: in a list without repetition every constant is the first one with its name;
* `Attribute.Definition.convertOperand_constant`: the two ways to give a constant of a definition.
-/

namespace QueryFilter

/-! ### Constants by place and by name -/

/-- Whether a constant is the first one with its name. -/
def IsFirst (constants : List String) (i : Nat) (c : String) : Prop :=
  constants[i]? = some c ∧ ∀ j < i, constants[j]? ≠ some c

variable {constants : List String}

/-- The first place of a name is where a search ends. -/
theorem isFirst_iff_idxOf {i : Nat} {c : String} :
    IsFirst constants i c ↔ constants[i]? = some c ∧ constants.idxOf c = i := by
  refine and_congr_right fun hc => ?_
  obtain ⟨hi, rfl⟩ := List.getElem?_eq_some_iff.1 hc
  rw [List.idxOf, List.findIdx_eq hi, beq_self_eq_true]
  constructor
  · intro h
    refine ⟨rfl, fun j hj => ?_⟩
    have hne := h j hj
    rw [List.getElem?_eq_getElem (Nat.lt_trans hj hi)] at hne
    simpa using hne
  · rintro ⟨-, h⟩ j hj
    rw [List.getElem?_eq_getElem (Nat.lt_trans hj hi)]
    simpa using h j hj

/-- A name of a constant has a first place. -/
theorem exists_isFirst {i : Nat} {c : String} (h : constants[i]? = some c) :
    ∃ j ≤ i, IsFirst constants j c := by
  have hfirst : IsFirst constants (constants.idxOf c) c :=
    isFirst_iff_idxOf.2 ⟨List.getElem?_idxOf (List.mem_of_getElem? h), rfl⟩
  refine ⟨_, ?_, hfirst⟩
  by_contra hlt
  exact hfirst.2 i (by omega) h

/-- Without repetition, every constant is the first one with its name. -/
theorem nodup_iff_isFirst :
    constants.Nodup ↔ ∀ i c, constants[i]? = some c → IsFirst constants i c := by
  rw [List.nodup_iff_getElem?_ne_getElem?]
  constructor
  · intro h i c hc
    refine ⟨hc, fun j hj heq => ?_⟩
    obtain ⟨hi, -⟩ := List.getElem?_eq_some_iff.1 hc
    exact h j i hj hi (heq.trans hc.symm)
  · intro h i j hij hj heq
    have hc := List.getElem?_eq_getElem hj
    exact (h j _ hc).2 i hij (heq.trans hc)

/-! ### Operands -/

/-- The place of the constant that an operand stands for: a number is the place, and a text is the
name of the first constant that has it. -/
inductive Json.DenotesConstant (constants : List String) : Json → Nat → Prop
  | place {i : Nat} : i < constants.length → DenotesConstant constants (.int i) i
  | name {i : Nat} {c : String} : IsFirst constants i c → DenotesConstant constants (.string c) i

/-- An operand is converted to the constant that it stands for. -/
theorem Value.constant?_eq_some_iff {raw : Json} {v : Value} :
    constant? constants raw = some v ↔ ∃ i c, raw.DenotesConstant constants i ∧
      constants[i]? = some c ∧ v = .enumeration i c := by
  constructor
  · intro h
    unfold constant? at h
    split at h
    · split at h
      · rename_i n hn
        obtain ⟨i, rfl⟩ := Int.eq_ofNat_of_zero_le hn
        obtain ⟨c, hc, rfl⟩ := Option.map_eq_some_iff.1 h
        exact ⟨i, c, .place (List.getElem?_eq_some_iff.1 hc).1, hc, rfl⟩
      · cases h
    · rename_i s
      obtain ⟨c, hc, rfl⟩ := Option.map_eq_some_iff.1 h
      have hmem : s ∈ constants := List.idxOf_lt_length_iff.1 (List.getElem?_eq_some_iff.1 hc).1
      have hfirst := isFirst_iff_idxOf.2 ⟨List.getElem?_idxOf hmem, rfl⟩
      exact ⟨_, c, .name hfirst, hc, rfl⟩
    · cases h
  · rintro ⟨i, c, hraw, hc, rfl⟩
    cases hraw with
    | place hi => simp [constant?, hc]
    | name hfirst => simp [constant?, (isFirst_iff_idxOf.1 hfirst).2, hc]

variable {field name : String}

/-- What converts to an enumeration, and to what. -/
theorem convertOperand_enumeration_eq_ok_iff {raw : Json} (hraw : raw ≠ .null) {v : Value} :
    convertOperand field (.enumeration name constants) raw = .ok v ↔
      ∃ i c, raw.DenotesConstant constants i ∧ constants[i]? = some c ∧ v = .enumeration i c := by
  rw [convertOperand_eq_ok_iff, Value.ofOperand?_of_ne_null hraw, Value.convert?,
    Value.constant?_eq_some_iff]

/-- What stands for no constant is refused. -/
theorem convertOperand_enumeration_eq_error {raw : Json} (hraw : raw ≠ .null)
    (h : ∀ i, ¬raw.DenotesConstant constants i) :
    convertOperand field (.enumeration name constants) raw =
      .error (.conversion field name raw) := by
  cases hc : convertOperand field (.enumeration name constants) raw with
  | ok v =>
    obtain ⟨i, c, hi, -⟩ := (convertOperand_enumeration_eq_ok_iff hraw).1 hc
    exact absurd hi (h i)
  | error e =>
    obtain ⟨-, rfl⟩ := convertOperand_eq_error_iff.1 hc
    rfl

theorem convertOperand_place {i : Nat} {c : String} (h : constants[i]? = some c) :
    convertOperand field (.enumeration name constants) (.int i) = .ok (.enumeration i c) :=
  (convertOperand_enumeration_eq_ok_iff (by simp)).2
    ⟨i, c, .place (List.getElem?_eq_some_iff.1 h).1, h, rfl⟩

/-- By its name, a constant is reached at its first place. -/
theorem convertOperand_name_eq_ok_iff {c : String} {i : Nat} :
    convertOperand field (.enumeration name constants) (.string c) = .ok (.enumeration i c) ↔
      IsFirst constants i c := by
  rw [convertOperand_enumeration_eq_ok_iff (by simp)]
  constructor
  · rintro ⟨j, c', hraw, hc, heq⟩
    cases heq
    cases hraw with
    | name hfirst => exact hfirst
  · intro hfirst
    exact ⟨i, c, .name hfirst, hfirst.1, rfl⟩

theorem exists_name_of_convertOperand {raw : Json} {v : Value} (hraw : raw ≠ .null)
    (h : convertOperand field (.enumeration name constants) raw = .ok v) :
    ∃ i c, v = .enumeration i c ∧ constants[i]? = some c := by
  obtain ⟨i, c, -, hc, rfl⟩ := (convertOperand_enumeration_eq_ok_iff hraw).1 h
  exact ⟨i, c, rfl, hc⟩

/-- A number is refused unless it is a place. -/
theorem convertOperand_number_eq_error {x : Json.Number}
    (h : ∀ i < constants.length, x ≠ .int i) :
    convertOperand field (.enumeration name constants) (.scalar (.number x)) =
      .error (.conversion field name (.scalar (.number x))) := by
  refine convertOperand_enumeration_eq_error (by simp) ?_
  rintro i (hi | -)
  exact h i hi rfl

/-- A text is refused unless it is a name. -/
theorem convertOperand_string_eq_error {s : String} (h : s ∉ constants) :
    convertOperand field (.enumeration name constants) (.string s) =
      .error (.conversion field name (.string s)) := by
  refine convertOperand_enumeration_eq_error (by simp) ?_
  rintro i (- | hfirst)
  exact h (List.mem_of_getElem? hfirst.1)

/-- The places and the names mean the same constants if no name is listed twice, and only then. -/
theorem nodup_iff_convertOperand_place (field name : String) :
    constants.Nodup ↔ ∀ (i : Nat) (c : String), constants[i]? = some c →
      convertOperand field (.enumeration name constants) (.int i) =
        convertOperand field (.enumeration name constants) (.string c) := by
  rw [nodup_iff_isFirst]
  refine forall₃_congr fun i c hc => ?_
  rw [convertOperand_place hc, eq_comm, convertOperand_name_eq_ok_iff]

/-- The texts of the constants lead back to them if no name is listed twice, and only then. -/
theorem nodup_iff_convertOperand_toText (field name : String) :
    constants.Nodup ↔ ∀ raw v, raw ≠ .null →
      convertOperand field (.enumeration name constants) raw = .ok v →
      convertOperand field (.enumeration name constants) (.string v.toText) = .ok v := by
  rw [nodup_iff_isFirst]
  constructor
  · intro hfirst raw v hraw hv
    obtain ⟨i, c, rfl, hc⟩ := exists_name_of_convertOperand hraw hv
    exact convertOperand_name_eq_ok_iff.2 (hfirst i c hc)
  · intro hback i c hc
    exact convertOperand_name_eq_ok_iff.1 (hback (.int i) _ (by simp) (convertOperand_place hc))

namespace Attribute.Definition

variable {d : Definition} {a : Attribute}

/-- A definition of an enumeration that is taken lists its constants. -/
theorem eq_of_toAttribute_enum (htype : d.type = some "enum") (h : d.toAttribute = .ok a) :
    a = ⟨d.name, .basic (.enumeration (d.enumName.getD d.name) d.constants)⟩ := by
  obtain ⟨hconsistent, hdeclares⟩ := toAttribute_eq_ok_iff.1 h
  cases hdeclares with
  | basic ht hdeclared =>
    rcases declaresType_iff.1 hdeclared with ⟨-, rfl⟩ | ⟨hne, -⟩
    · rfl
    · exact absurd (Option.some.inj (ht.symm.trans htype)) hne
  | embedded hembedded =>
    simpa [htype, hembedded] using hconsistent.kind_cases
  | association hassociation =>
    simpa [htype, hassociation] using hconsistent.kind_cases

/-- **The constants of an enumeration.** A definition that is taken lists constants, and each of
them is reached by its place and by its name. The name leads to the first place that has it, so the
two operands, and the text of the constant, lead to the same constant exactly if no earlier one has
the same name; they do so for all constants exactly if no name is listed twice. A number that is no
place is refused, and so is a text that is no name. -/
theorem convertOperand_constant (htype : d.type = some "enum") (h : d.toAttribute = .ok a)
    (field : String) :
    let name := d.enumName.getD d.name
    let convert := convertOperand field (.enumeration name d.constants)
    a = ⟨d.name, .basic (.enumeration name d.constants)⟩ ∧
    (∀ (i : Nat) (c : String), d.constants[i]? = some c →
      convert (.int i) = .ok (.enumeration i c) ∧
      ∃ j ≤ i, IsFirst d.constants j c ∧ convert (.string c) = .ok (.enumeration j c)) ∧
    (∀ x : Json.Number, (∀ i < d.constants.length, x ≠ .int i) →
      convert (.scalar (.number x)) = .error (.conversion field name (.scalar (.number x)))) ∧
    (∀ s ∉ d.constants, convert (.string s) = .error (.conversion field name (.string s))) ∧
    (∀ raw v, raw ≠ .null → convert raw = .ok v → ∃ i c, v = .enumeration i c ∧
      d.constants[i]? = some c ∧
      (convert (.string v.toText) = .ok v ↔ IsFirst d.constants i c)) ∧
    (d.constants.Nodup ↔ ∀ (i : Nat) (c : String), d.constants[i]? = some c →
      convert (.int i) = convert (.string c)) ∧
    (d.constants.Nodup ↔
      ∀ raw v, raw ≠ .null → convert raw = .ok v → convert (.string v.toText) = .ok v) := by
  intro name convert
  refine ⟨eq_of_toAttribute_enum htype h, fun i c hc => ⟨convertOperand_place hc, ?_⟩,
    fun x => convertOperand_number_eq_error, fun s => convertOperand_string_eq_error,
    fun raw v hraw hv => ?_, nodup_iff_convertOperand_place field name,
    nodup_iff_convertOperand_toText field name⟩
  · obtain ⟨j, hj, hfirst⟩ := exists_isFirst hc
    exact ⟨j, hj, hfirst, convertOperand_name_eq_ok_iff.2 hfirst⟩
  · obtain ⟨i, c, rfl, hc⟩ := exists_name_of_convertOperand hraw hv
    exact ⟨i, c, rfl, hc, convertOperand_name_eq_ok_iff⟩

/-- The second of three constants is reached by its place, by its name and from its text. -/
theorem convertOperand_constant_status :
    let d : Definition := { Definition.named "status" with
      type := some "enum", constants := ["OPEN", "DONE", "LATE"] }
    let convert := convertOperand "status" (.enumeration "status" d.constants)
    d.type = some "enum" ∧
    d.toAttribute = .ok ⟨"status", .basic (.enumeration "status" d.constants)⟩ ∧
    convert (.int 1) = .ok (.enumeration 1 "DONE") ∧
    convert (.string "DONE") = .ok (.enumeration 1 "DONE") ∧
    convert (.int 3) = .error (.conversion "status" "status" (.int 3)) := by
  intro d convert
  have htaken : d.toAttribute = .ok ⟨"status", .basic (.enumeration "status" d.constants)⟩ := rfl
  obtain ⟨-, hboth, hnumber, -, -, hagree, -⟩ :=
    convertOperand_constant (d := d) rfl htaken "status"
  have hplace := (hboth 1 "DONE" rfl).1
  refine ⟨rfl, htaken, hplace, ?_, hnumber _ (by decide)⟩
  exact (hagree.1 (by decide) 1 "DONE" rfl).symm.trans hplace

/-- A definition may list a name twice. The second constant of the name is reached by its place, but
its name, which is its text, leads to the first one. -/
theorem constant_listed_twice :
    let d : Definition := { Definition.named "status" with
      type := some "enum", constants := ["OPEN", "DONE", "OPEN"] }
    let convert := convertOperand "status" (.enumeration "status" d.constants)
    d.toAttribute = .ok ⟨"status", .basic (.enumeration "status" d.constants)⟩ ∧
    d.constants[2]? = some "OPEN" ∧
    convert (.int 2) = .ok (.enumeration 2 "OPEN") ∧
    (Value.enumeration 2 "OPEN").toText = "OPEN" ∧
    convert (.string "OPEN") = .ok (.enumeration 0 "OPEN") ∧
    convert (.int 2) ≠ convert (.string "OPEN") := by
  decide

end Attribute.Definition

end QueryFilter
