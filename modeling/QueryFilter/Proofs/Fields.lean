import Mathlib.Data.List.Induction
import QueryFilter.Document.Fields
import QueryFilter.Proofs.Decoding

/-!
# The fields of a document are those of its leaves

The fields are read off a document without decoding it. Where the document can be decoded, they
are the fields of the leaves, in the same order, so no field of a filter goes unnoticed.

* `fields_eq_map`: the fields are mentioned by the members that stand for leaves;
* `FieldRef.ofLeaf`: how a leaf is mentioned by the member that spells it;
* `FirstUses`: the names of a list, each once and in the order of their first uses;
* `fields_of_expressions`: the fields of a document and their names are those of its leaves.
-/

namespace QueryFilter.Document

open Expression

/-! ### Mentions -/

mutual

theorem fieldsOfMember_eq_map (key : String) (v : Json) :
    fieldsOfMember key v = (leafMembersOf key v).map fun m => .ofMember m.1 m.2 := by
  rw [fieldsOfMember.eq_def, leafMembersOf.eq_def]
  cases hk : Connective.ofKey? key with
  | none => rw [if_neg (Connective.ofKey?_eq_none_iff.1 hk), List.map_singleton]
  | some op =>
    have hkey : IsConnectiveKey key := by
      by_contra hkey
      rw [Connective.ofKey?_eq_none_iff.2 hkey] at hk
      cases hk
    rw [if_pos hkey]
    match v with
    | .array elements => exact fieldsOfElements_eq_map elements
    | .scalar _ | .object _ => rfl

theorem fieldsOfElements_eq_map (vs : List Json) :
    fieldsOfElements vs = (leafMembersOfElements vs).map fun m => .ofMember m.1 m.2 := by
  match vs with
  | [] => rfl
  | .object ms :: vs =>
    rw [fieldsOfElements, leafMembersOfElements, fieldsOfMembers_eq_map ms,
      fieldsOfElements_eq_map vs, List.map_append]
  | .scalar _ :: vs | .array _ :: vs =>
    rw [fieldsOfElements, leafMembersOfElements, fieldsOfElements_eq_map vs] <;> nofun

theorem fieldsOfMembers_eq_map (ms : List (String × Json)) :
    fieldsOfMembers ms = (leafMembersOfAll ms).map fun m => .ofMember m.1 m.2 := by
  match ms with
  | [] => rfl
  | (key, v) :: ms =>
    rw [fieldsOfMembers, leafMembersOfAll, fieldsOfMember_eq_map key v,
      fieldsOfMembers_eq_map ms, List.map_append]

end

/-- The fields of any document are mentioned by the members that stand for leaves. -/
theorem fields_eq_map (d : Document) :
    d.fields = d.leafMembers.map fun m => .ofMember m.1 m.2 :=
  fieldsOfMembers_eq_map d.members

/-- The mention of a leaf by the member that spells it: its field, its operand, and its operator
where one is written, that is, where the value is an object. -/
def FieldRef.ofLeaf (m : String × Json) (l : String × Condition) : FieldRef where
  name := l.1
  operator :=
    match m.2 with
    | .object _ => some l.2.operator.token
    | _ => none
  value := l.2.operand

theorem SpellsLeaf.ofMember_eq {m : String × Json} {l : String × Condition}
    (h : SpellsLeaf m l) : FieldRef.ofMember m.1 m.2 = .ofLeaf m l := by
  obtain ⟨key, v⟩ := m
  obtain ⟨field, c⟩ := l
  obtain ⟨hfield, hv, -⟩ := h
  obtain rfl : key = field := hfield
  cases hv <;> rfl

/-- Members and the leaves that they spell have the same mentions. -/
theorem map_ofMember_eq_zipWith {ms : List (String × Json)} {ls : List (String × Condition)}
    (h : List.Forall₂ SpellsLeaf ms ls) :
    (ms.map fun m => FieldRef.ofMember m.1 m.2) = List.zipWith .ofLeaf ms ls := by
  induction h with
  | nil => rfl
  | cons hm _ ih => rw [List.map_cons, List.zipWith_cons_cons, ih, hm.ofMember_eq]

theorem map_name_zipWith_ofLeaf {ms : List (String × Json)} {ls : List (String × Condition)}
    (h : List.Forall₂ SpellsLeaf ms ls) :
    (List.zipWith FieldRef.ofLeaf ms ls).map (·.name) = ls.map (·.1) := by
  induction h with
  | nil => rfl
  | cons _ _ ih => rw [List.zipWith_cons_cons, List.map_cons, ih, FieldRef.ofLeaf, List.map_cons]

/-! ### Names -/

/-- The names of a list of uses, each once and in the order of their first uses. -/
structure FirstUses (uses names : List String) : Prop where
  mem_iff : ∀ name, name ∈ names ↔ name ∈ uses
  order : names.Pairwise fun a b => uses.idxOf a < uses.idxOf b

theorem distinctNames_concat (names : List String) (name : String) :
    distinctNames (names ++ [name]) =
      if name ∈ distinctNames names then distinctNames names
      else distinctNames names ++ [name] := by
  rw [distinctNames, List.foldl_concat]
  rfl

theorem firstUses_distinctNames (uses : List String) : FirstUses uses (distinctNames uses) := by
  induction uses using List.reverseRecOn with
  | nil => exact ⟨fun _ => Iff.rfl, .nil⟩
  | append_singleton uses name ih =>
    -- the first uses so far stay where they are
    have hkeep : (distinctNames uses).Pairwise fun a b =>
        (uses ++ [name]).idxOf a < (uses ++ [name]).idxOf b := by
      refine ih.order.imp_of_mem fun ha hb hab => ?_
      rwa [List.idxOf_append_of_mem ((ih.mem_iff _).1 ha),
        List.idxOf_append_of_mem ((ih.mem_iff _).1 hb)]
    rw [distinctNames_concat]
    by_cases hname : name ∈ distinctNames uses
    · rw [if_pos hname]
      refine ⟨fun n => ?_, hkeep⟩
      have hmem := (ih.mem_iff name).1 hname
      rw [ih.mem_iff, List.mem_append, List.mem_singleton]
      exact ⟨.inl, fun h => h.elim id fun h => h ▸ hmem⟩
    · rw [if_neg hname]
      refine ⟨fun n => by simp only [List.mem_append, ih.mem_iff], ?_⟩
      refine List.pairwise_append.2 ⟨hkeep, List.pairwise_singleton _ _, fun a ha b hb => ?_⟩
      obtain rfl := List.mem_singleton.1 hb
      have ha' := (ih.mem_iff a).1 ha
      have hb' : b ∉ uses := fun h => hname ((ih.mem_iff b).2 h)
      rw [List.idxOf_append_of_mem ha', List.idxOf_append_of_notMem hb']
      exact Nat.lt_add_right _ (List.idxOf_lt_length_of_mem ha')

/-! ### Decoded documents -/

/-- **Fields and leaves.** In a document that can be decoded, the members that stand for leaves
spell the leaves of the filter one by one. The fields of the document are the mentions of these
leaves, in order, and their names are those of the leaves in the order of their first uses. -/
theorem fields_of_expressions {d : Document} {es : List Expression}
    (h : d.expressions = .ok es) :
    List.Forall₂ SpellsLeaf d.leafMembers (leavesOfAll es) ∧
      d.fields = List.zipWith .ofLeaf d.leafMembers (leavesOfAll es) ∧
      FirstUses ((leavesOfAll es).map (·.1)) d.fieldNames := by
  have hspells := leafMembers_of_expressions h
  have hfields : d.fields = List.zipWith .ofLeaf d.leafMembers (leavesOfAll es) := by
    rw [fields_eq_map, map_ofMember_eq_zipWith hspells]
  refine ⟨hspells, hfields, ?_⟩
  rw [fieldNames, hfields, map_name_zipWith_ofLeaf hspells]
  exact firstUses_distinctNames _

/-- Sub-documents with two members and with none under a connective in capitals, and a field that
is mentioned with and without an operator. -/
theorem fields_of_expressions_nested :
    let d : Document := ⟨[("status", .string "A"),
      ("$OR", .array [.object [("qty", .object [("$lt", .int 30)]), ("item", .array [.null])],
        .object []]),
      ("status", .object [("$eq", .null)])]⟩
    ∃ es, d.expressions = .ok es ∧
      d.fields = [⟨"status", none, .string "A"⟩, ⟨"qty", some "$lt", .int 30⟩,
        ⟨"item", none, .array [.null]⟩, ⟨"status", some "$eq", .null⟩] ∧
      FirstUses ["status", "qty", "item", "status"] d.fieldNames := by
  intro d
  let leaf (field : String) (op : SingleOperator) (v : Json.Scalar) : Expression :=
    .leaf field (.single op v)
  have h : d.expressions = .ok [leaf "status" (.compare .equal) (.string "A"),
      anyOf [allOf [leaf "qty" (.compare .less) (.number (.int 30)),
        .leaf "item" (.list .oneOf [.null])], allOf []],
      leaf "status" (.compare .equal) .null] := by decide
  obtain ⟨-, hfields, hnames⟩ := fields_of_expressions h
  exact ⟨_, h, hfields, hnames⟩

end QueryFilter.Document
