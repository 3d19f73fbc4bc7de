import QueryFilter.Proofs.Decoding

/-!
# The grammar of filter documents

Which documents are decoded, what they are decoded to, and which error refuses the others. The
grammar is stated member by member, and the error by a list of everything in a document that can be
at fault, in the order in which it is written.

* `Document.WellFormed`: the members that a document may have;
* `Document.Denotes`: what a member stands for;
* `Document.entries` and `Entry.defect?`: the members and sub-documents of a document from left to
  right, each before its own parts, and what is wrong with one of them by itself;
* `Document.expressions_grammar`: a document is decoded if its members are well formed, and refused
  for its first defect otherwise.
-/

namespace QueryFilter

theorem Connective.ofKey?_eq_some_iff {key : String} {op : Connective} :
    Connective.ofKey? key = some op ↔ agreeIgnoringCase key op.token := by
  have hne (h : agreeIgnoringCase key Connective.and.token) :
      ¬agreeIgnoringCase key Connective.or.token := by
    intro h'
    simp only [agreeIgnoringCase, beq_iff_eq] at h h'
    exact absurd (h.symm.trans h') (by decide)
  unfold Connective.ofKey?
  split
  · rename_i h
    cases op
    · simp [h]
    · simp [hne h]
  · rename_i h
    cases op
    · simp [h]
    · simp

namespace Document

open Expression

/-! ### Well-formed members -/

/-- The values of a field. -/
inductive LeafValue : Json → Prop
  | scalar (v : Json.Scalar) : LeafValue (.scalar v)
  | list {vs : List Json.Scalar} (hvs : vs ≠ []) : LeafValue (.array (vs.map .scalar))
  | membership (op : Membership) {vs : List Json.Scalar} (hvs : vs ≠ []) :
    LeafValue (.object [(op.token, .array (vs.map .scalar))])
  | comparison (op : SingleOperator) {v : Json.Scalar}
    (hv : v = .null → op = .compare .equal ∨ op = .compare .notEqual) :
    LeafValue (.object [(op.token, .scalar v)])

/-- The members that a document may have: a connective in any case with sub-documents that are well
formed, and any other key as a field with a value. -/
inductive WellFormed : String → Json → Prop
  | connective {key : String} (op : Connective) {docs : List Json.Members}
    (hkey : agreeIgnoringCase key op.token)
    (hdocs : ∀ ms ∈ docs, ∀ m ∈ ms, WellFormed m.1 m.2) : WellFormed key (.array (docs.map .object))
  | leaf {key : String} {v : Json}
    (hkey : ∀ op : Connective, ¬agreeIgnoringCase key op.token) (hv : LeafValue v) :
    WellFormed key v

theorem acceptsNull_iff {op : SingleOperator} :
    op.acceptsNull ↔ op = .compare .equal ∨ op = .compare .notEqual := by
  rcases op with c | _ | ⟨anchor, ignoreCase⟩
  · cases c <;> decide
  · decide
  · simp [SingleOperator.acceptsNull]

/-- The values of a field are those that spell a valid condition. -/
theorem leafValue_iff {v : Json} : LeafValue v ↔ ∃ c : Condition, Spells v c ∧ c.Valid := by
  constructor
  · intro h
    cases h with
    | scalar v => exact ⟨_, .scalar v, fun _ => rfl⟩
    | list hvs => exact ⟨_, .array _, hvs⟩
    | @membership op vs hvs => exact ⟨_, .operator (.list op vs), hvs⟩
    | @comparison op v hv =>
      exact ⟨_, .operator (.single op v), fun hnull => acceptsNull_iff.2 (hv hnull)⟩
  · rintro ⟨c, hv, hc⟩
    cases hv with
    | scalar v => exact .scalar v
    | array vs => exact .list hc
    | operator =>
      cases c with
      | single op v => exact .comparison op fun hnull => acceptsNull_iff.1 (hc hnull)
      | list op vs => exact .membership op hc

/-! ### What members stand for -/

mutual

/-- What a member stands for: the joined sub-documents of a connective, or a leaf. -/
inductive Denotes : String → Json → Expression → Prop
  | connective {key : String} (op : Connective) {vs : List Json} {es : List Expression}
    (hkey : agreeIgnoringCase key op.token) (hvs : DenotesEach vs es) :
    Denotes key (.array vs) (.compound op es)
  | leaf {key : String} {v : Json} {c : Condition}
    (hkey : ∀ op : Connective, ¬agreeIgnoringCase key op.token) (hv : Spells v c) (hc : c.Valid) :
    Denotes key v (.leaf key c)

/-- What sub-documents stand for. One with a single member stands for what its member does, and any
other for the conjunction of its members. -/
inductive DenotesEach : List Json → List Expression → Prop
  | nil : DenotesEach [] []
  | single {key : String} {v : Json} {e : Expression} {vs : List Json} {es : List Expression}
    (h : Denotes key v e) (hvs : DenotesEach vs es) :
    DenotesEach (.object [(key, v)] :: vs) (e :: es)
  | conjunction {ms : Json.Members} {ds : List Expression} {vs : List Json} {es : List Expression}
    (hlength : ms.length ≠ 1) (h : DenotesAll ms ds) (hvs : DenotesEach vs es) :
    DenotesEach (.object ms :: vs) (.compound .and ds :: es)

/-- What the members of a document stand for, one by one. -/
inductive DenotesAll : List (String × Json) → List Expression → Prop
  | nil : DenotesAll [] []
  | cons {key : String} {v : Json} {e : Expression} {ms : Json.Members} {es : List Expression}
    (h : Denotes key v e) (hms : DenotesAll ms es) : DenotesAll ((key, v) :: ms) (e :: es)

end

/-! ### Defects -/

/-- What is wrong with a list of operands. -/
def listDefect? (field : String) (op : Membership) (vs : List Json) : Option ExpressionError :=
  if vs = [] then some (.noValues field op)
  else (vs.find? (·.scalar?.isNone)).map (.compositeElement field)

/-- What is wrong with the operand of an operator. -/
def operandDefect? (field : String) : Operator → Json → Option ExpressionError
  | .structural op, _ => some (.structural field op)
  | .list op, .array vs => listDefect? field op vs
  | .list op, _ => some (.operatorNeedsArray field op)
  | .single op, .scalar v =>
    if v = .null ∧ ¬op.acceptsNull then some (.nullOperand field op) else none
  | .single op, _ => some (.compositeOperand field op)

/-- What is wrong with the value of a field. -/
def leafDefect? (field : String) : Json → Option ExpressionError
  | .scalar _ => none
  | .array vs => listDefect? field .oneOf vs
  | .object [(token, operand)] =>
    match Operator.parse? token with
    | some op => operandDefect? field op operand
    | none => some (.unknownOperator token (some field))
  | .object ms => some (.operatorCount field ms.length)

/-- What may be at fault in a document: a member, or an element of the array of a connective. -/
inductive Entry
  | member (key : String) (value : Json)
  | element (key : String) (value : Json)
  deriving DecidableEq, Repr

/-- What is wrong with a part of a document by itself, whatever its own parts are. -/
def Entry.defect? : Entry → Option ExpressionError
  | member key v =>
    if IsConnectiveKey key then
      match v with
      | .array _ => none
      | _ => some (.connectiveNeedsArray key)
    else leafDefect? key v
  | element _ (.object _) => none
  | element key v => some (.elementNotDocument key v)

mutual

/-- A member and, behind it, what is nested in it. -/
def entriesOf (key : String) (v : Json) : List Entry :=
  .member key v ::
    if IsConnectiveKey key then
      match v with
      | .array vs => entriesOfEach key vs
      | _ => []
    else []

/-- The elements of an array under a connective, each before what is nested in it. -/
def entriesOfEach (key : String) : List Json → List Entry
  | [] => []
  | .object ms :: vs => .element key (.object ms) :: (entriesOfAll ms ++ entriesOfEach key vs)
  | v :: vs => .element key v :: entriesOfEach key vs

/-- The members of a document, each before what is nested in it. -/
def entriesOfAll : List (String × Json) → List Entry
  | [] => []
  | (key, v) :: ms => entriesOf key v ++ entriesOfAll ms

end

/-- Everything in a document that may be at fault, in depth-first order. -/
def entries (d : Document) : List Entry := entriesOfAll d.members

/-! ### The first defect -/

theorem error?_list (field : String) (op : Membership) (vs : List Json) :
    (Expression.list field (.list op) vs).error? = listDefect? field op vs := by
  have hscalars : ∀ vs : List Json, (scalars field vs).error? =
      (vs.find? (·.scalar?.isNone)).map (.compositeElement field) := by
    intro vs
    induction vs with
    | nil => rfl
    | cons v vs ih =>
      cases v with
      | scalar s =>
        rw [scalars, Except.error?_map, ih]
        rfl
      | array _ | object _ => rfl
  cases vs with
  | nil => rfl
  | cons v vs =>
    rw [Expression.list, if_neg (by simp), Except.error?_map, hscalars, listDefect?,
      if_neg (List.cons_ne_nil v vs)]

theorem error?_single (field : String) (op : SingleOperator) (v : Json.Scalar) :
    (single field (.single op) (.scalar v)).error? =
      operandDefect? field (.single op) (.scalar v) := by
  unfold single operandDefect?
  dsimp only
  split <;> rfl

theorem error?_decodeLeaf (field : String) (v : Json) :
    (decodeLeaf field v).error? = leafDefect? field v := by
  cases v with
  | scalar s =>
    rw [decodeLeaf, error?_single, operandDefect?, leafDefect?, if_neg]
    exact fun h => h.2 rfl
  | array vs => exact error?_list field .oneOf vs
  | object ms =>
    rcases ms with _ | ⟨⟨token, operand⟩, _ | ⟨m, ms⟩⟩
    · rfl
    · simp only [decodeLeaf, decodeOperator, leafDefect?, Operator.parse]
      cases Operator.parse? token with
      | none => rfl
      | some op =>
        cases op with
        | structural op => cases operand <;> rfl
        | list op =>
          cases operand with
          | array vs => exact error?_list field op vs
          | scalar _ | object _ => rfl
        | single op =>
          cases operand with
          | scalar s => exact error?_single field op s
          | array _ | object _ => rfl
    · rfl

mutual

theorem error?_decodeMember (key : String) (v : Json) :
    (decodeMember key v).error? = (entriesOf key v).findSome? Entry.defect? := by
  by_cases hkey : IsConnectiveKey key
  · cases hk : Connective.ofKey? key with
    | none => exact absurd hkey (Connective.ofKey?_eq_none_iff.1 hk)
    | some op =>
      rw [decodeMember.eq_def, hk, entriesOf.eq_def, if_pos hkey, List.findSome?_cons,
        Entry.defect?.eq_def]
      match v with
      | .scalar _ | .object _ => simp [hkey, Except.error?]
      | .array vs =>
        simp only [hkey, if_true]
        rw [Except.error?_map]
        exact error?_decodeElements key vs
  · rw [decodeMember_leaf hkey, error?_decodeLeaf, entriesOf.eq_def, if_neg hkey,
      List.findSome?_singleton, Entry.defect?.eq_def]
    exact (if_neg hkey).symm

theorem error?_decodeElements (key : String) (vs : List Json) :
    (decodeElements key vs).error? = (entriesOfEach key vs).findSome? Entry.defect? := by
  match vs with
  | [] => rfl
  | .object ms :: vs =>
    rw [entriesOfEach, List.findSome?_cons, List.findSome?_append, ← error?_decodeMembers ms,
      ← error?_decodeElements key vs]
    exact Except.error?_bind_map _ _ _
  | .scalar _ :: _ | .array _ :: _ => rfl

theorem error?_decodeMembers (ms : List (String × Json)) :
    (decodeMembers ms).error? = (entriesOfAll ms).findSome? Entry.defect? := by
  match ms with
  | [] => rfl
  | (key, v) :: ms =>
    rw [entriesOfAll, List.findSome?_append, ← error?_decodeMember key v,
      ← error?_decodeMembers ms]
    exact Except.error?_bind_map _ _ _

end

/-! ### Well-formed members have no defects -/

theorem not_isConnectiveKey_iff {key : String} :
    ¬IsConnectiveKey key ↔ ∀ op : Connective, ¬agreeIgnoringCase key op.token := not_exists

theorem leafDefect?_eq_none_iff (field : String) {v : Json} :
    leafDefect? field v = none ↔ LeafValue v := by
  rw [← error?_decodeLeaf, Except.error?_eq_none_iff, leafValue_iff]
  constructor
  · rintro ⟨e, he⟩
    obtain ⟨c, hv, hc, -⟩ := decodeLeaf_eq_ok_iff.1 he
    exact ⟨c, hv, hc⟩
  · rintro ⟨c, hv, hc⟩
    exact ⟨_, decodeLeaf_eq_ok_iff.2 ⟨c, hv, hc, rfl⟩⟩

theorem wellFormed_of_not_isConnectiveKey {key : String} {v : Json} (hkey : ¬IsConnectiveKey key) :
    WellFormed key v ↔ LeafValue v := by
  constructor
  · rintro (⟨op, hop, -⟩ | ⟨-, hv⟩)
    · exact absurd ⟨op, hop⟩ hkey
    · exact hv
  · exact .leaf (not_isConnectiveKey_iff.1 hkey)

/-- Values that are documents with well-formed members. -/
def AreDocuments (vs : List Json) : Prop :=
  ∃ docs : List Json.Members, vs = docs.map .object ∧ ∀ ms ∈ docs, ∀ m ∈ ms, WellFormed m.1 m.2

theorem areDocuments_cons_iff {v : Json} {vs : List Json} :
    AreDocuments (v :: vs) ↔
      (∃ ms : Json.Members, v = .object ms ∧ ∀ m ∈ ms, WellFormed m.1 m.2) ∧ AreDocuments vs := by
  constructor
  · rintro ⟨docs, hdocs, h⟩
    obtain ⟨ms, docs, rfl, rfl, rfl⟩ := List.map_eq_cons_iff.1 hdocs.symm
    obtain ⟨hms, h⟩ := List.forall_mem_cons.1 h
    exact ⟨⟨ms, rfl, hms⟩, docs, rfl, h⟩
  · rintro ⟨⟨ms, rfl, hms⟩, docs, rfl, h⟩
    exact ⟨ms :: docs, rfl, List.forall_mem_cons.2 ⟨hms, h⟩⟩

theorem wellFormed_of_isConnectiveKey {key : String} {v : Json} (hkey : IsConnectiveKey key) :
    WellFormed key v ↔ ∃ vs, v = .array vs ∧ AreDocuments vs := by
  constructor
  · rintro (⟨op, hop, hdocs⟩ | ⟨hnot, -⟩)
    · exact ⟨_, rfl, _, rfl, hdocs⟩
    · exact absurd hkey (not_isConnectiveKey_iff.2 hnot)
  · rintro ⟨_, rfl, docs, rfl, hdocs⟩
    obtain ⟨op, hop⟩ := hkey
    exact .connective op hop hdocs

-- The three parts follow the list of entries: members, elements, and the members of one document.
mutual

theorem wellFormed_iff (key : String) (v : Json) :
    WellFormed key v ↔ ∀ x ∈ entriesOf key v, x.defect? = none := by
  rw [entriesOf.eq_def, List.forall_mem_cons, Entry.defect?.eq_def]
  by_cases hkey : IsConnectiveKey key
  · rw [wellFormed_of_isConnectiveKey hkey]
    match v with
    | .scalar _ | .object _ => simp [hkey]
    | .array vs => simp [hkey, areDocuments_iff key vs]
  · rw [wellFormed_of_not_isConnectiveKey hkey, ← leafDefect?_eq_none_iff key]
    simp [hkey]

theorem areDocuments_iff (key : String) (vs : List Json) :
    AreDocuments vs ↔ ∀ x ∈ entriesOfEach key vs, x.defect? = none := by
  match vs with
  | [] => exact iff_of_true ⟨[], rfl, nofun⟩ nofun
  | .scalar _ :: _ | .array _ :: _ =>
    rw [areDocuments_cons_iff, entriesOfEach, List.forall_mem_cons, Entry.defect?] <;> simp
  | .object ms :: vs =>
    rw [areDocuments_cons_iff, entriesOfEach, List.forall_mem_cons, List.forall_mem_append,
      ← wellFormedAll_iff ms, ← areDocuments_iff key vs]
    simp [Entry.defect?]

theorem wellFormedAll_iff (ms : List (String × Json)) :
    (∀ m ∈ ms, WellFormed m.1 m.2) ↔ ∀ x ∈ entriesOfAll ms, x.defect? = none := by
  match ms with
  | [] => exact iff_of_true nofun nofun
  | (key, v) :: ms =>
    rw [List.forall_mem_cons, entriesOfAll, List.forall_mem_append, wellFormed_iff key v,
      wellFormedAll_iff ms]

end

/-! ### Decoding gives what members stand for -/

theorem denotesAll_cons_iff {key : String} {v : Json} {ms : Json.Members} {es : List Expression} :
    DenotesAll ((key, v) :: ms) es ↔
      ∃ e rest, Denotes key v e ∧ DenotesAll ms rest ∧ es = e :: rest := by
  constructor
  · rintro (_ | ⟨he, hms⟩)
    exact ⟨_, _, he, hms, rfl⟩
  · rintro ⟨e, rest, he, hms, rfl⟩
    exact .cons he hms

theorem denotesAll_nil_iff {es : List Expression} : DenotesAll [] es ↔ es = [] := by
  constructor
  · rintro (_ | _)
    rfl
  · rintro rfl
    exact .nil

theorem DenotesAll.length_eq {ms : Json.Members} {es : List Expression} (h : DenotesAll ms es) :
    ms.length = es.length := by
  induction ms generalizing es with
  | nil => rw [denotesAll_nil_iff.1 h]; rfl
  | cons m ms ih =>
    obtain ⟨e, rest, -, hrest, rfl⟩ := denotesAll_cons_iff.1 h
    rw [List.length_cons, List.length_cons, ih hrest]

theorem denotesAll_iff_forall₂ {ms : Json.Members} {es : List Expression} :
    DenotesAll ms es ↔ List.Forall₂ (fun m e => Denotes m.1 m.2 e) ms es := by
  induction ms generalizing es with
  | nil => rw [denotesAll_nil_iff, List.forall₂_nil_left_iff]
  | cons m ms ih =>
    rw [denotesAll_cons_iff, List.forall₂_cons_left_iff]
    simp only [ih]

/-- A sub-document stands for what its members stand for, joined. -/
theorem denotesEach_cons_iff {ms : Json.Members} {vs : List Json} {es : List Expression} :
    DenotesEach (.object ms :: vs) es ↔
      ∃ ds rest, DenotesAll ms ds ∧ DenotesEach vs rest ∧ es = joinMembers ds :: rest := by
  constructor
  · rintro (_ | ⟨h, hvs⟩ | ⟨hlength, h, hvs⟩)
    · exact ⟨_, _, .cons h .nil, hvs, rfl⟩
    · refine ⟨_, _, h, hvs, ?_⟩
      rw [h.length_eq] at hlength
      rw [joinMembers]
      rintro e rfl
      exact hlength rfl
  · rintro ⟨ds, rest, h, hvs, rfl⟩
    rcases ms with _ | ⟨⟨key, v⟩, _ | ⟨⟨key', v'⟩, ms⟩⟩
    · cases denotesAll_nil_iff.1 h
      exact .conjunction (by simp) h hvs
    · obtain ⟨e, es, he, hes, rfl⟩ := denotesAll_cons_iff.1 h
      cases denotesAll_nil_iff.1 hes
      exact .single he hvs
    · obtain ⟨d, ds, -, hds, rfl⟩ := denotesAll_cons_iff.1 h
      obtain ⟨d', ds, -, -, rfl⟩ := denotesAll_cons_iff.1 hds
      exact .conjunction (by simp) h hvs

theorem denotes_of_isConnectiveKey {key : String} {v : Json} {e : Expression} {op : Connective}
    (hkey : Connective.ofKey? key = some op) :
    Denotes key v e ↔ ∃ vs es, v = .array vs ∧ DenotesEach vs es ∧ e = .compound op es := by
  constructor
  · rintro (⟨op', hop, hvs⟩ | ⟨hnot, -, -⟩)
    · cases hkey.symm.trans (Connective.ofKey?_eq_some_iff.2 hop)
      exact ⟨_, _, rfl, hvs, rfl⟩
    · exact absurd (Connective.ofKey?_eq_some_iff.1 hkey) (hnot op)
  · rintro ⟨vs, es, rfl, hvs, rfl⟩
    exact .connective op (Connective.ofKey?_eq_some_iff.1 hkey) hvs

theorem denotes_of_not_isConnectiveKey {key : String} {v : Json} {e : Expression}
    (hkey : ¬IsConnectiveKey key) :
    Denotes key v e ↔ ∃ c : Condition, Spells v c ∧ c.Valid ∧ e = .leaf key c := by
  constructor
  · rintro (⟨op, hop, -⟩ | ⟨-, hv, hc⟩)
    · exact absurd ⟨op, hop⟩ hkey
    · exact ⟨_, hv, hc, rfl⟩
  · rintro ⟨c, hv, hc, rfl⟩
    exact .leaf (not_isConnectiveKey_iff.1 hkey) hv hc

mutual

theorem decodeMember_eq_ok_iff (key : String) (v : Json) (e : Expression) :
    decodeMember key v = .ok e ↔ Denotes key v e := by
  cases hk : Connective.ofKey? key with
  | none =>
    have hkey : ¬IsConnectiveKey key := Connective.ofKey?_eq_none_iff.1 hk
    rw [decodeMember_leaf hkey, decodeLeaf_eq_ok_iff, denotes_of_not_isConnectiveKey hkey]
  | some op =>
    rw [denotes_of_isConnectiveKey hk, decodeMember.eq_def, hk]
    match v with
    | .scalar _ | .object _ => simp
    | .array vs =>
      simp only [Except.map_eq_ok_iff, decodeElements_eq_ok_iff key vs, Json.array.injEq]
      constructor
      · rintro ⟨es, hes, rfl⟩
        exact ⟨vs, es, rfl, hes, rfl⟩
      · rintro ⟨_, es, rfl, hes, rfl⟩
        exact ⟨es, hes, rfl⟩

theorem decodeElements_eq_ok_iff (key : String) (vs : List Json) (es : List Expression) :
    decodeElements key vs = .ok es ↔ DenotesEach vs es := by
  match vs with
  | [] =>
    constructor
    · intro h
      cases h
      exact .nil
    · rintro (_ | _)
      rfl
  | .scalar _ :: _ | .array _ :: _ => exact iff_of_false nofun nofun
  | .object ms :: vs =>
    rw [denotesEach_cons_iff, decodeElements]
    simp only [Except.bind_eq_ok_iff, decodeMembers_eq_ok_iff ms, decodeElements_eq_ok_iff key vs]
    constructor
    · rintro ⟨ds, hds, rest, hrest, h⟩
      cases h
      exact ⟨ds, rest, hds, hrest, rfl⟩
    · rintro ⟨ds, rest, hds, hrest, rfl⟩
      exact ⟨ds, hds, rest, hrest, rfl⟩

theorem decodeMembers_eq_ok_iff (ms : List (String × Json)) (es : List Expression) :
    decodeMembers ms = .ok es ↔ DenotesAll ms es := by
  match ms with
  | [] =>
    rw [denotesAll_nil_iff, decodeMembers, Except.ok.injEq]
    exact eq_comm
  | (key, v) :: ms =>
    rw [denotesAll_cons_iff, decodeMembers]
    simp only [Except.bind_eq_ok_iff, decodeMember_eq_ok_iff key v, decodeMembers_eq_ok_iff ms]
    constructor
    · rintro ⟨e, he, rest, hrest, h⟩
      cases h
      exact ⟨e, rest, he, hrest, rfl⟩
    · rintro ⟨e, rest, he, hrest, rfl⟩
      exact ⟨e, he, rest, hrest, rfl⟩

end

/-- **The grammar of documents.** A document is decoded exactly if its members are well formed. It
is decoded to what its members stand for, one expression for each of them in their order, and it is
refused for what is wrong with the first part that is at fault. -/
theorem expressions_grammar (d : Document) :
    ((∃ es, d.expressions = .ok es) ↔ ∀ m ∈ d.members, WellFormed m.1 m.2) ∧
    (∀ es, d.expressions = .ok es ↔
      List.Forall₂ (fun m e => Denotes m.1 m.2 e) d.members es) ∧
    ∀ e, d.expressions = .error e ↔ d.entries.findSome? Entry.defect? = some e := by
  have herror : d.expressions.error? = d.entries.findSome? Entry.defect? :=
    error?_decodeMembers d.members
  refine ⟨?_, fun es => ?_, fun e => ?_⟩
  · rw [← Except.error?_eq_none_iff, herror, List.findSome?_eq_none_iff, wellFormedAll_iff]
    rfl
  · rw [← denotesAll_iff_forall₂]
    exact decodeMembers_eq_ok_iff d.members es
  · rw [← herror, Except.error?_eq_some_iff]

end Document

end QueryFilter
