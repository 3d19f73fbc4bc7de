import QueryFilter.Document.Basic
import QueryFilter.Proofs.Expression

/-!
# Decoding what was encoded

A field whose name spells a connective is read back as that connective, and its value is never an
array of documents. So a built tree is recovered exactly when no leaf has such a field, and is
refused as malformed otherwise.
-/

namespace QueryFilter

/-- The keys that stand for a connective in a document. -/
def IsConnectiveKey (key : String) : Prop := ∃ op : Connective, agreeIgnoringCase key op.token

theorem Connective.ofKey?_eq_none_iff {key : String} :
    Connective.ofKey? key = none ↔ ¬IsConnectiveKey key := by
  unfold Connective.ofKey? IsConnectiveKey
  constructor
  · rintro h ⟨op, hop⟩
    cases op with
    | and =>
      rw [if_pos hop] at h
      cases h
    | or =>
      rw [if_pos hop] at h
      split at h <;> cases h
  · intro h
    rw [if_neg fun ha => h ⟨.and, ha⟩, if_neg fun ho => h ⟨.or, ho⟩]

instance (key : String) : Decidable (IsConnectiveKey key) :=
  decidable_of_iff (¬Connective.ofKey? key = none) (by
    rw [Connective.ofKey?_eq_none_iff, Classical.not_not])

theorem Connective.ofKey?_token (op : Connective) : Connective.ofKey? op.token = some op := by
  cases op <;> decide

theorem Operator.parse_token (op : Operator) (field : Option String) :
    Operator.parse op.token field = .ok op := by
  have h : Operator.parse? op.token = some op := by
    rcases op with (c | _ | ⟨a, b⟩) | m | s
    · cases c <;> decide
    · decide
    · cases a <;> cases b <;> decide
    · cases m <;> decide
    · cases s <;> decide
  rw [Operator.parse, h]

namespace Document

open Expression

/-! ### Leaves -/

/-- The operator of a condition is left out for equality and written for all others. -/
theorem encodeCondition_cases (c : Condition) :
    (∃ v, c = .single (.compare .equal) v ∧ encodeCondition c = .scalar v) ∨
      encodeCondition c = .object [(c.operator.token, c.operand)] := by
  rcases c with ⟨(_ | _ | _ | _ | _ | _) | _ | _, v⟩ | ⟨op, vs⟩
  · exact .inl ⟨v, rfl, rfl⟩
  all_goals exact .inr rfl

/-- No leaf becomes an array. -/
theorem encodeCondition_ne_array (c : Condition) (vs : List Json) :
    encodeCondition c ≠ .array vs := by
  rcases encodeCondition_cases c with ⟨v, -, h⟩ | h <;> rw [h] <;> nofun

theorem decodeOperator_operand {field : String} {c : Condition} (h : c.Valid) :
    decodeOperator field [(c.operator.token, c.operand)] = .ok (.leaf field c) := by
  have hof : of field c.operator c.operand = .ok (.leaf field c) :=
    of_eq_ok_iff.2 ⟨c, rfl, rfl, h, rfl⟩
  rw [decodeOperator, Operator.parse_token]
  cases c <;> exact hof

theorem decodeLeaf_encodeCondition {field : String} {c : Condition} (h : c.Valid) :
    decodeLeaf field (encodeCondition c) = .ok (.leaf field c) := by
  rcases encodeCondition_cases c with ⟨v, rfl, he⟩ | he
  · rw [he]
    exact single_eq_ok_iff.2 ⟨_, v, rfl, rfl, h, rfl⟩
  · rw [he]
    exact decodeOperator_operand h

/-! ### Members and sub-documents -/

theorem decodeMember_leaf {field : String} {v : Json} (h : ¬IsConnectiveKey field) :
    decodeMember field v = decodeLeaf field v := by
  rw [decodeMember.eq_def, Connective.ofKey?_eq_none_iff.2 h]

/-- A member under a connective is refused when its value is no array. -/
theorem decodeMember_of_ne_array {key : String} {v : Json} (h : IsConnectiveKey key)
    (hv : ∀ vs, v ≠ .array vs) : decodeMember key v = .error (.connectiveNeedsArray key) := by
  cases hk : Connective.ofKey? key with
  | none => exact absurd h (Connective.ofKey?_eq_none_iff.1 hk)
  | some op =>
    cases v with
    | array vs => exact absurd rfl (hv vs)
    | scalar s => rw [decodeMember.eq_def, hk]
    | object ms => rw [decodeMember.eq_def, hk]

theorem decodeMember_compound (op : Connective) (vs : List Json) :
    decodeMember op.token (.array vs) = (decodeElements op.token vs).map (.compound op) := by
  rw [decodeMember.eq_def, Connective.ofKey?_token]

theorem decodeMembers_singleton (m : String × Json) :
    decodeMembers [m] = (decodeMember m.1 m.2).map fun e => [e] := by
  rw [decodeMembers, decodeMembers]
  cases decodeMember m.1 m.2 <;> rfl

/-- A sub-document with one member is that member's expression, with nothing around it. -/
theorem decodeElements_cons_singleton (key : String) (m : String × Json) (vs : List Json) :
    decodeElements key (.object [m] :: vs) =
      (decodeMember m.1 m.2).bind fun e => (decodeElements key vs).map fun es => e :: es := by
  rw [decodeElements, decodeMembers_singleton]
  cases decodeMember m.1 m.2 with
  | error err => rfl
  | ok e => cases decodeElements key vs <;> rfl

/-- Sub-documents are read back when each of them is. -/
theorem decodeElements_encodeAll {key : String} {es : List Expression}
    (h : ∀ e ∈ es, decodeMember (encodeMember e).1 (encodeMember e).2 = .ok e) :
    decodeElements key (encodeAll es) = .ok es := by
  induction es with
  | nil => rfl
  | cons e es ih =>
    rw [encodeAll, decodeElements_cons_singleton, h e List.mem_cons_self,
      ih fun d hd => h d (List.mem_cons_of_mem e hd)]
    rfl

/-- Where some sub-document is refused and the others are read, the first refusal is the result. -/
theorem decodeElements_encodeAll_error (key : String) {es : List Expression}
    {P : ExpressionError → Prop}
    (h : ∀ e ∈ es, (∃ d, decodeMember (encodeMember e).1 (encodeMember e).2 = .ok d) ∨
      ∃ err, decodeMember (encodeMember e).1 (encodeMember e).2 = .error err ∧ P err)
    (hbad : ∃ e ∈ es, ∃ err, decodeMember (encodeMember e).1 (encodeMember e).2 = .error err) :
    ∃ err, decodeElements key (encodeAll es) = .error err ∧ P err := by
  induction es with
  | nil =>
    obtain ⟨e, he, -⟩ := hbad
    cases he
  | cons e es ih =>
    rw [encodeAll, decodeElements_cons_singleton]
    rcases h e List.mem_cons_self with ⟨d, hd⟩ | ⟨err, herr, hp⟩
    · -- the first sub-document is read, so the one that is refused comes after it
      obtain ⟨e', he', err', herr'⟩ := hbad
      have hmem : e' ∈ es := by
        rcases List.mem_cons.1 he' with rfl | hmem
        · rw [hd] at herr'
          cases herr'
        · exact hmem
      obtain ⟨err, herr, hp⟩ :=
        ih (fun c hc => h c (List.mem_cons_of_mem e hc)) ⟨e', hmem, err', herr'⟩
      exact ⟨err, by rw [hd, herr]; rfl, hp⟩
    · -- the first refusal ends the list
      exact ⟨err, by rw [herr]; rfl, hp⟩

/-! ### Trees -/

/-- A tree whose leaves can be told from compounds is read back. -/
theorem decodeMember_encodeMember {e : Expression}
    (h : ∀ l ∈ e.leaves, l.2.Valid ∧ ¬IsConnectiveKey l.1) :
    decodeMember (encodeMember e).1 (encodeMember e).2 = .ok e := by
  induction e with
  | leaf f c =>
    obtain ⟨hv, hf⟩ := h (f, c) (by simp [leaves])
    rw [encodeMember, decodeMember_leaf hf, decodeLeaf_encodeCondition hv]
  | compound op es ih =>
    have hes : decodeElements op.token (encodeAll es) = .ok es :=
      decodeElements_encodeAll fun e he =>
        ih e he fun l hl => h l (mem_leaves_compound.2 ⟨e, he, hl⟩)
    rw [encodeMember, decodeMember_compound, hes]
    rfl

/-- A tree is refused as malformed when the field of some leaf is taken for a connective. -/
theorem decodeMember_encodeMember_error {e : Expression} (h : ∀ l ∈ e.leaves, l.2.Valid)
    (hk : ∃ l ∈ e.leaves, IsConnectiveKey l.1) :
    ∃ err, decodeMember (encodeMember e).1 (encodeMember e).2 = .error err ∧
      err.code = .malformedDocument := by
  induction e with
  | leaf f c =>
    obtain ⟨l, hl, hk⟩ := hk
    obtain rfl : l = (f, c) := by simpa [leaves] using hl
    exact ⟨_, decodeMember_of_ne_array hk (encodeCondition_ne_array c), rfl⟩
  | compound op es ih =>
    have hv : ∀ e ∈ es, ∀ l ∈ e.leaves, l.2.Valid := fun e he l hl =>
      h l (mem_leaves_compound.2 ⟨e, he, hl⟩)
    -- a child with such a leaf is refused by induction, and any other one is read back
    have each : ∀ e ∈ es, (∃ d, decodeMember (encodeMember e).1 (encodeMember e).2 = .ok d) ∨
        ∃ err, decodeMember (encodeMember e).1 (encodeMember e).2 = .error err ∧
          err.code = .malformedDocument := by
      intro e he
      by_cases hke : ∃ l ∈ e.leaves, IsConnectiveKey l.1
      · exact .inr (ih e he (hv e he) hke)
      · exact .inl ⟨e, decodeMember_encodeMember fun l hl =>
          ⟨hv e he l hl, fun hl' => hke ⟨l, hl, hl'⟩⟩⟩
    obtain ⟨l, hl, hkl⟩ := hk
    obtain ⟨e, he, hle⟩ := mem_leaves_compound.1 hl
    obtain ⟨err, herr, -⟩ := ih e he (hv e he) ⟨l, hle, hkl⟩
    obtain ⟨err, herr, hcode⟩ := decodeElements_encodeAll_error op.token each
      ⟨e, he, err, herr⟩
    exact ⟨err, by rw [encodeMember, decodeMember_compound, herr]; rfl, hcode⟩

theorem expressions_encode (e : Expression) :
    (encode e).expressions =
      (decodeMember (encodeMember e).1 (encodeMember e).2).map fun d => [d] :=
  decodeMembers_singleton (encodeMember e)

/-- **Codec round trip.** The document of a built tree spells that tree alone exactly when no leaf
has a field that spells a connective; otherwise it is refused as malformed. -/
theorem expressions_encode_iff {e : Expression} (h : e.Built) :
    ((encode e).expressions = .ok [e] ↔ ∀ l ∈ e.leaves, ¬IsConnectiveKey l.1) ∧
      ((∃ l ∈ e.leaves, IsConnectiveKey l.1) → ∃ err, (encode e).expressions = .error err ∧
        err.code.text = "AERO_FILTER_MALFORMED_DOCUMENT") := by
  have refused (hk : ∃ l ∈ e.leaves, IsConnectiveKey l.1) :
      ∃ err, (encode e).expressions = .error err ∧
        err.code.text = "AERO_FILTER_MALFORMED_DOCUMENT" := by
    obtain ⟨err, herr, hcode⟩ := decodeMember_encodeMember_error h.valid hk
    refine ⟨err, ?_, by rw [hcode]; rfl⟩
    rw [expressions_encode, herr]
    rfl
  refine ⟨⟨fun hok l hl hk => ?_, fun hk => ?_⟩, refused⟩
  · obtain ⟨err, herr, -⟩ := refused ⟨l, hl, hk⟩
    rw [hok] at herr
    cases herr
  · rw [expressions_encode, decodeMember_encodeMember fun l hl => ⟨h.valid l hl, hk l hl⟩]
    rfl

/-- Compounds with no child, with one child and with the same field twice are read back, and a
field that spells a connective deep in a tree is refused. -/
theorem expressions_encode_nested :
    let leaf := Expression.leaf "a" (.single (.compare .notEqual) .null)
    let list := Expression.leaf "a" (.list .oneOf [.null, .bool true])
    let e := anyOf [leaf, allOf [], allOf [list], leaf.and list]
    let colliding := allOf [leaf, anyOf [.leaf "$Or" (.list .noneOf [.null])]]
    e.Built ∧ colliding.Built ∧ (encode e).expressions = .ok [e] ∧
      ∃ err, (encode colliding).expressions = .error err ∧
        err.code.text = "AERO_FILTER_MALFORMED_DOCUMENT" := by
  intro leaf list e colliding
  have he : e.Built := built_iff.2 (by decide)
  have hc : colliding.Built := built_iff.2 (by decide)
  exact ⟨he, hc, (expressions_encode_iff he).1.2 (by decide),
    (expressions_encode_iff hc).2 (by decide)⟩

end Document

end QueryFilter
