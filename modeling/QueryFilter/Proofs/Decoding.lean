import Mathlib.Data.List.Forall2
import QueryFilter.Proofs.Codec
import QueryFilter.Proofs.Except

/-!
# What documents spell

Decoding reads one leaf from each member of a document that is no connective, wherever it is
nested. Its value says what the condition is, and the condition is one that the constructors
accept.

* `Spells`: the values that spell a condition;
* `decodeLeaf_eq_ok_iff`: these are the values that are decoded, for conditions that are valid;
* `Document.leafMembers`: the members of a document that stand for leaves, from left to right;
* `leafMembers_of_expressions`: they spell the leaves of what is decoded, one by one;
* `built_of_expressions`: what is decoded can be built.
-/

namespace QueryFilter

/-- The values that spell a condition. A scalar is compared for equality and an array lists what
is allowed; any other condition is an object whose one member is its operator with its operand. -/
inductive Spells : Json → Condition → Prop
  | scalar (v : Json.Scalar) : Spells (.scalar v) (.single (.compare .equal) v)
  | array (vs : List Json.Scalar) : Spells (.array (vs.map .scalar)) (.list .oneOf vs)
  | operator (c : Condition) : Spells (.object [(c.operator.token, c.operand)]) c

/-- An operator that joins no filters is read from its own token only. -/
theorem Operator.token_of_parse {token : String} {field : Option String} {op : Operator}
    (h : Operator.parse token field = .ok op) (hop : op.isStructural = false) :
    op.token = token := by
  unfold Operator.parse Operator.parse? at h
  cases hk : Connective.ofKey? token with
  | some c =>
    rw [hk] at h
    cases h
    cases hop
  | none =>
    rw [hk] at h
    cases ht : Operator.ofToken? token with
    | none => simp [ht] at h
    | some o =>
      obtain rfl : o = op := by simpa [ht] using h
      simpa using List.find?_some ht

namespace Document

open Expression

/-! ### Leaves -/

theorem decodeOperator_eq_ok_iff {field : String} {ms : Json.Members} {e : Expression} :
    decodeOperator field ms = .ok e ↔
      ∃ c : Condition, ms = [(c.operator.token, c.operand)] ∧ c.Valid ∧ e = .leaf field c := by
  constructor
  · intro h
    unfold decodeOperator at h
    split at h
    · rename_i token operand
      cases hp : Operator.parse token (some field) with
      | error err =>
        rw [hp] at h
        cases h
      | ok op =>
        rw [hp] at h
        have hof : of field op operand = .ok e := by
          dsimp only at h
          split at h
          · cases h
          · cases h
          · exact h
        obtain ⟨c, rfl, rfl, hc, rfl⟩ := of_eq_ok_iff.1 hof
        have hop : c.operator.isStructural = false := by cases c <;> rfl
        exact ⟨c, by rw [Operator.token_of_parse hp hop], hc, rfl⟩
    · cases h
  · rintro ⟨c, rfl, hc, rfl⟩
    exact decodeOperator_operand hc

/-- A leaf is decoded from the values that spell a valid condition. -/
theorem decodeLeaf_eq_ok_iff {field : String} {v : Json} {e : Expression} :
    decodeLeaf field v = .ok e ↔ ∃ c : Condition, Spells v c ∧ c.Valid ∧ e = .leaf field c := by
  constructor
  · intro h
    cases v with
    | scalar s =>
      rw [decodeLeaf] at h
      obtain ⟨o, s', ho, hs, hc, rfl⟩ := single_eq_ok_iff.1 h
      cases ho
      cases hs
      exact ⟨_, .scalar s, hc, rfl⟩
    | array vs =>
      rw [decodeLeaf] at h
      obtain ⟨o, ss, ho, rfl, hc, rfl⟩ := list_eq_ok_iff.1 h
      cases ho
      exact ⟨_, .array ss, hc, rfl⟩
    | object ms =>
      obtain ⟨c, rfl, hc, rfl⟩ := decodeOperator_eq_ok_iff.1 h
      exact ⟨c, .operator c, hc, rfl⟩
  · rintro ⟨c, hv, hc, rfl⟩
    cases hv with
    | scalar s => exact single_eq_ok_iff.2 ⟨_, s, rfl, rfl, hc, rfl⟩
    | array ss => exact list_eq_ok_iff.2 ⟨_, ss, rfl, rfl, hc, rfl⟩
    | operator => exact decodeOperator_operand hc

/-! ### Members that stand for leaves -/

mutual

/-- The leaves under a member: the member itself, or those in the sub-documents of a connective. -/
def leafMembersOf (key : String) (v : Json) : List (String × Json) :=
  if IsConnectiveKey key then
    match v with
    | .array elements => leafMembersOfElements elements
    | _ => []
  else [(key, v)]

/-- The leaves in sub-documents. -/
def leafMembersOfElements : List Json → List (String × Json)
  | [] => []
  | .object ms :: vs => leafMembersOfAll ms ++ leafMembersOfElements vs
  | _ :: vs => leafMembersOfElements vs

/-- The leaves under the members of a document. -/
def leafMembersOfAll : List (String × Json) → List (String × Json)
  | [] => []
  | (key, v) :: ms => leafMembersOf key v ++ leafMembersOfAll ms

end

/-- The members of a document that stand for leaves, from left to right. -/
def leafMembers (d : Document) : List (String × Json) := leafMembersOfAll d.members

/-- A member spells a leaf: its key is the field and its value spells the condition. -/
def SpellsLeaf (m : String × Json) (l : String × Condition) : Prop :=
  m.1 = l.1 ∧ Spells m.2 l.2 ∧ l.2.Valid

/-- A member that is no connective is decoded to the leaf that it spells. -/
theorem decodeMember_eq_ok_of_not {key : String} {v : Json} {e : Expression}
    (hkey : ¬IsConnectiveKey key) (h : decodeMember key v = .ok e) :
    ∃ c, SpellsLeaf (key, v) (key, c) ∧ e = .leaf key c := by
  rw [decodeMember_leaf hkey] at h
  obtain ⟨c, hv, hc, rfl⟩ := decodeLeaf_eq_ok_iff.1 h
  exact ⟨c, ⟨rfl, hv, hc⟩, rfl⟩

/-- A connective is decoded from the sub-documents in its array. -/
theorem decodeMember_eq_ok_of_isConnectiveKey {key : String} {v : Json} {e : Expression}
    (hkey : IsConnectiveKey key) (h : decodeMember key v = .ok e) :
    ∃ op vs es, v = .array vs ∧ decodeElements key vs = .ok es ∧ e = .compound op es := by
  cases hk : Connective.ofKey? key with
  | none => exact absurd hkey (Connective.ofKey?_eq_none_iff.1 hk)
  | some op =>
    rw [decodeMember.eq_def, hk] at h
    cases v with
    | array vs =>
      obtain ⟨es, hes, rfl⟩ := Except.map_eq_ok_iff.1 h
      exact ⟨op, vs, es, rfl, hes, rfl⟩
    | scalar s => cases h
    | object ms => cases h

/-- The leaves of a sub-document are those of its members, whether it has one or several. -/
theorem leaves_joinMembers (es : List Expression) : (joinMembers es).leaves = leavesOfAll es := by
  match es with
  | [e] => rw [joinMembers, leavesOfAll, leavesOfAll, List.append_nil]
  | [] | _ :: _ :: _ => rfl

-- The three parts follow the decoder: members, sub-documents, and the members of one document.
mutual

theorem leafMembersOf_of_decodeMember (key : String) (v : Json) {e : Expression}
    (h : decodeMember key v = .ok e) :
    List.Forall₂ SpellsLeaf (leafMembersOf key v) e.leaves := by
  by_cases hkey : IsConnectiveKey key
  · obtain ⟨op, vs, es, rfl, hes, rfl⟩ := decodeMember_eq_ok_of_isConnectiveKey hkey h
    rw [leafMembersOf, if_pos hkey]
    exact leafMembersOfElements_of_decodeElements key vs hes
  · obtain ⟨c, hc, rfl⟩ := decodeMember_eq_ok_of_not hkey h
    rw [leafMembersOf.eq_def, if_neg hkey]
    exact .cons hc .nil

theorem leafMembersOfElements_of_decodeElements (key : String) (vs : List Json)
    {es : List Expression} (h : decodeElements key vs = .ok es) :
    List.Forall₂ SpellsLeaf (leafMembersOfElements vs) (leavesOfAll es) := by
  match vs with
  | [] =>
    cases h
    exact .nil
  | .object ms :: vs =>
    obtain ⟨ds, hds, h⟩ := Except.bind_eq_ok_iff.1 h
    obtain ⟨rest, hrest, h⟩ := Except.bind_eq_ok_iff.1 h
    cases h
    rw [leafMembersOfElements, leavesOfAll, leaves_joinMembers]
    exact List.rel_append (leafMembersOfAll_of_decodeMembers ms hds)
      (leafMembersOfElements_of_decodeElements key vs hrest)
  | .scalar _ :: _ | .array _ :: _ => cases h

theorem leafMembersOfAll_of_decodeMembers (ms : List (String × Json)) {es : List Expression}
    (h : decodeMembers ms = .ok es) :
    List.Forall₂ SpellsLeaf (leafMembersOfAll ms) (leavesOfAll es) := by
  match ms with
  | [] =>
    cases h
    exact .nil
  | (key, v) :: ms =>
    obtain ⟨e, he, h⟩ := Except.bind_eq_ok_iff.1 h
    obtain ⟨rest, hrest, h⟩ := Except.bind_eq_ok_iff.1 h
    cases h
    rw [leafMembersOfAll, leavesOfAll]
    exact List.rel_append (leafMembersOf_of_decodeMember key v he)
      (leafMembersOfAll_of_decodeMembers ms hrest)

end

/-- The members that stand for leaves spell the leaves of what is decoded, one by one. -/
theorem leafMembers_of_expressions {d : Document} {es : List Expression}
    (h : d.expressions = .ok es) :
    List.Forall₂ SpellsLeaf d.leafMembers (leavesOfAll es) :=
  leafMembersOfAll_of_decodeMembers d.members h

/-- What is decoded can be built by the constructors. -/
theorem built_of_expressions {d : Document} {es : List Expression} (h : d.expressions = .ok es) :
    ∀ e ∈ es, e.Built := by
  intro e he
  refine built_iff.2 fun l hl => ?_
  have hmem : l ∈ leavesOfAll es := by
    rw [leavesOfAll_eq_flatMap]
    exact List.mem_flatMap.2 ⟨e, he, hl⟩
  obtain ⟨i, hi, rfl⟩ := List.getElem_of_mem hmem
  have hspells := leafMembers_of_expressions h
  exact (hspells.get (hspells.length_eq ▸ hi) hi).2.2

end Document

end QueryFilter
