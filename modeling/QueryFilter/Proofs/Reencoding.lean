import QueryFilter.Proofs.Grammar
import QueryFilter.Query.Report

/-!
# Encoding again what was decoded

A filter has many spellings: with and without the operator for equality, lists with and without
theirs, connectives in any case, several conditions in one sub-document. Whatever a document spells,
what is decoded is among the trees that encoding keeps apart, so it can be encoded and decoded again
and stays what it is.

* `Expression.Encodable`: the trees that are read back from their documents;
* `Condition.WellFormed`: the operators and operands that a leaf may have, by their tokens;
* `Document.Denotes.encodable`: what a member stands for can be encoded;
* `Document.reencode`: decode a document and encode each of its expressions again;
* `Document.reencode_of_expressions`: what is decoded, alone or joined as in the log, is read back.
-/

namespace QueryFilter

open Expression

/-! ### Trees that are read back -/

/-- The trees that are read back from their documents: the condition of each leaf is valid, and its
field is not taken for a connective. -/
def Expression.Encodable (e : Expression) : Prop :=
  ∀ l ∈ e.leaves, l.2.Valid ∧ ¬IsConnectiveKey l.1

theorem Expression.encodable_leaf {field : String} {c : Condition} :
    (leaf field c).Encodable ↔ c.Valid ∧ ¬IsConnectiveKey field := by
  simp [Encodable, leaves]

theorem Expression.encodable_compound {op : Connective} {es : List Expression} :
    (compound op es).Encodable ↔ ∀ e ∈ es, e.Encodable := by
  constructor
  · exact fun h e he l hl => h l (mem_leaves_compound.2 ⟨e, he, hl⟩)
  · intro h l hl
    obtain ⟨e, he, hl⟩ := mem_leaves_compound.1 hl
    exact h e he l hl

theorem Expression.encodable_iff_built {e : Expression} :
    e.Encodable ↔ e.Built ∧ ∀ l ∈ e.leaves, ¬IsConnectiveKey l.1 := by
  rw [built_iff]
  exact forall₂_and

/-- The operators and operands that a leaf may have. A list belongs to the two operators of
membership and is not empty; any other operator that joins no filters has one scalar, which is null
for the two null tests only. -/
structure Condition.WellFormed (c : Condition) : Prop where
  notStructural : c.operator.isStructural = false
  single : c.operator.isList = false → ∃ v : Json.Scalar, c.operand = .scalar v ∧
    (v = .null → c.operator.token = "$eq" ∨ c.operator.token = "$ne")
  list : c.operator.isList = true → (c.operator.token = "$in" ∨ c.operator.token = "$nin") ∧
    ∃ vs : List Json.Scalar, vs ≠ [] ∧ c.operand = .array (vs.map .scalar)

theorem Condition.Valid.wellFormed {c : Condition} (h : c.Valid) : c.WellFormed where
  notStructural := by cases c <;> rfl
  single hlist := by
    cases c with
    | single op v =>
      refine ⟨v, rfl, fun hv => ?_⟩
      rcases Document.acceptsNull_iff.1 (h hv) with rfl | rfl
      · exact .inl rfl
      · exact .inr rfl
    | list op vs => cases hlist
  list hlist := by
    cases c with
    | single op v => cases hlist
    | list op vs =>
      refine ⟨?_, vs, h, rfl⟩
      cases op with
      | oneOf => exact .inl rfl
      | noneOf => exact .inr rfl

namespace Document

theorem expressions_encode_of_encodable {e : Expression} (h : e.Encodable) :
    (encode e).expressions = .ok [e] := by
  rw [expressions_encode, decodeMember_encodeMember h]
  rfl

/-! ### What is decoded can be encoded -/

-- The three parts follow the grammar: members, sub-documents, and the members of one document.
mutual

theorem Denotes.encodable {key : String} {v : Json} {e : Expression} :
    Denotes key v e → e.Encodable
  | .connective _ _ hvs => encodable_compound.2 hvs.encodable
  | .leaf hkey _ hc => encodable_leaf.2 ⟨hc, not_isConnectiveKey_iff.2 hkey⟩

theorem DenotesEach.encodable {vs : List Json} {es : List Expression} :
    DenotesEach vs es → ∀ e ∈ es, e.Encodable
  | .nil => nofun
  | .single h hvs => List.forall_mem_cons.2 ⟨h.encodable, hvs.encodable⟩
  | .conjunction _ h hvs =>
    List.forall_mem_cons.2 ⟨encodable_compound.2 h.encodable, hvs.encodable⟩

theorem DenotesAll.encodable {ms : Json.Members} {es : List Expression} :
    DenotesAll ms es → ∀ e ∈ es, e.Encodable
  | .nil => nofun
  | .cons h hms => List.forall_mem_cons.2 ⟨h.encodable, hms.encodable⟩

end

theorem encodable_of_expressions {d : Document} {es : List Expression}
    (h : d.expressions = .ok es) : ∀ e ∈ es, e.Encodable :=
  ((decodeMembers_eq_ok_iff d.members es).1 h).encodable

/-! ### Documents of what is decoded -/

/-- Decode a document and encode each of its expressions again. -/
def reencode (d : Document) : Except ExpressionError (List Document) :=
  d.expressions.map (List.map encode)

/-- **Encoding again.** The leaves of what a document spells have operators and operands that the
constructors accept, and no field is taken for a connective. Each of its expressions is read back
from its own document, which stays the same when it is decoded and encoded once more. So is the
conjunction of all, whose document is logged before a compilation. -/
theorem reencode_of_expressions {d : Document} {es : List Expression}
    (h : d.expressions = .ok es) :
    (∀ l ∈ leavesOfAll es, l.2.WellFormed ∧ ¬IsConnectiveKey l.1) ∧
    (∀ e ∈ es, (encode e).expressions = .ok [e] ∧ (encode e).reencode = .ok [encode e]) ∧
    (encode (allOf es)).expressions = .ok [allOf es] ∧
    ∀ (τ : Type) (C : Catalog τ) config root plan m, config.logExpressions →
      Log.Event.filterDocument.record
        [("document", (encode (allOf es)).toText), ("root", C.typeName root)] ∈
          (Report.compileFilter C config root es plan m).records := by
  have hes := encodable_of_expressions h
  have hall : (allOf es).Encodable := encodable_compound.2 hes
  refine ⟨fun l hl => ?_, fun e he => ?_, expressions_encode_of_encodable hall, ?_⟩
  · obtain ⟨hc, hkey⟩ := hall l hl
    exact ⟨hc.wellFormed, hkey⟩
  · have hread := expressions_encode_of_encodable (hes e he)
    refine ⟨hread, ?_⟩
    rw [reencode, hread]
    rfl
  · intro τ C config root plan m hlog
    simp [Report.compileFilter, Report.beginRecords, hlog]

/-- Equality with its operator, a list without one, a connective in capitals, and sub-documents
with two members and with none. -/
theorem reencode_of_expressions_nested :
    let d : Document := ⟨[("status", .object [("$eq", .string "A")]),
      ("$OR", .array [.object [("qty", .object [("$lt", .int 30)]), ("item", .array [.null])],
        .object []])]⟩
    let anyDocument : Document := ⟨[("$or", .array [.object [("$and", .array
      [.object [("qty", .object [("$lt", .int 30)])],
        .object [("item", .object [("$in", .array [.null])])]])],
      .object [("$and", .array [])]])]⟩
    d.reencode = .ok [⟨[("status", .string "A")]⟩, anyDocument] ∧
      anyDocument.reencode = .ok [anyDocument] := by
  intro d anyDocument
  let status := Expression.leaf "status" (.single (.compare .equal) (.string "A"))
  let quantity := Expression.leaf "qty" (.single (.compare .less) (.number (.int 30)))
  let item := Expression.leaf "item" (.list .oneOf [.null])
  let any := anyOf [allOf [quantity, item], allOf []]
  have h : d.expressions = .ok [status, any] := by decide
  obtain ⟨-, heach, -⟩ := reencode_of_expressions h
  have hany : encode any = anyDocument := by decide
  refine ⟨by rw [reencode, h]; decide, ?_⟩
  rw [← hany]
  exact (heach any (by simp)).2

end Document

end QueryFilter
