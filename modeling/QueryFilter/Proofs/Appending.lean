import QueryFilter.Proofs.Fields
import QueryFilter.Proofs.Reencoding

/-!
# Appending to documents

Appending wraps the JSON of a document, and decoding takes single members out of what wraps them.
The two fit together: the filter so far becomes the first child of a new compound, however many
members its document has, and the appended expression becomes the second.

* `Expression.joined`: a filter and what is appended to it;
* `Document.expressions_append`, `Document.fields_append`: what one step does to the filter and to
  the fields;
* `Document.appendAll`, `Expression.joinAll`: the same for steps one after another;
* `Document.appendAll_joins`: what the documents of a whole history spell and mention.
-/

namespace QueryFilter

/-! ### Filters -/

namespace Expression

/-- A filter, which is a list of expressions joined by `and`, and an expression under a connective.
The filter is one child, also where it is a conjunction itself. -/
def joined (op : Connective) (e : Expression) : List Expression → Expression
  | [] => e
  | [x] => compound op [x, e]
  | xs => compound op [allOf xs, e]

/-- The filter after steps that each add an expression under a connective. -/
def joinAll (es : List Expression) (steps : List (Connective × Expression)) : List Expression :=
  steps.foldl (fun xs s => [joined s.1 s.2 xs]) es

theorem joined_of_ne_nil (op : Connective) (e : Expression) {xs : List Expression} (h : xs ≠ []) :
    joined op e xs = compound op [Document.joinMembers xs, e] := by
  rcases xs with _ | ⟨x, _ | ⟨y, xs⟩⟩
  · exact absurd rfl h
  · rfl
  · rfl

/-- No leaf is dropped, and none moves. -/
theorem leaves_joined (op : Connective) (e : Expression) (xs : List Expression) :
    (joined op e xs).leaves = leavesOfAll xs ++ e.leaves := by
  rcases xs with _ | ⟨x, _ | ⟨y, xs⟩⟩
  · rfl
  all_goals simp [joined, allOf, leaves, leavesOfAll]

theorem leavesOfAll_joinAll (es : List Expression) (steps : List (Connective × Expression)) :
    leavesOfAll (joinAll es steps) = leavesOfAll es ++ steps.flatMap fun s => s.2.leaves := by
  induction steps generalizing es with
  | nil => simp [joinAll]
  | cons s steps ih =>
    have hjoined : leavesOfAll [joined s.1 s.2 es] = leavesOfAll es ++ s.2.leaves := by
      rw [leavesOfAll, leavesOfAll, List.append_nil, leaves_joined]
    rw [joinAll, List.foldl_cons, ← joinAll, ih, hjoined, List.flatMap_cons, List.append_assoc]

end Expression

namespace Document

open Expression

/-- The document after steps that each append an expression under a connective. -/
def appendAll (d : Document) (steps : List (Connective × Expression)) : Document :=
  steps.foldl (fun d s => d.append s.1 s.2) d

/-! ### One step -/

theorem append_empty (op : Connective) (e : Expression) : empty.append op e = encode e := rfl

theorem append_of_ne_empty (op : Connective) {d : Document} (e : Expression) (h : d ≠ empty) :
    d.append op e = ⟨[(op.token, .array [.object d.members, .object [encodeMember e]])]⟩ := by
  have hmembers : d.members ≠ [] := fun hm => h (congrArg Document.mk hm)
  rw [append, List.isEmpty_eq_false_iff.2 hmembers]
  rfl

/-- Only the document without members spells the filter without conditions. -/
theorem eq_empty_iff {d : Document} {xs : List Expression} (h : d.expressions = .ok xs) :
    d = empty ↔ xs = [] := by
  have hlength := ((decodeMembers_eq_ok_iff d.members xs).1 h).length_eq
  rw [← List.length_eq_zero_iff, ← hlength, List.length_eq_zero_iff]
  constructor
  · rintro rfl
    rfl
  · exact fun hm => congrArg Document.mk hm

theorem expressions_append (op : Connective) {d : Document} {e : Expression} {xs : List Expression}
    (h : d.expressions = .ok xs) (he : e.Encodable) :
    (d.append op e).expressions = .ok [joined op e xs] := by
  by_cases hd : d = empty
  · obtain rfl := (eq_empty_iff h).1 hd
    rw [hd, append_empty, expressions_encode_of_encodable he]
    rfl
  · have hxs : xs ≠ [] := fun hx => hd ((eq_empty_iff h).2 hx)
    -- the sub-documents are the document as it was and the one member of the expression
    have helements : decodeElements op.token [.object d.members, .object [encodeMember e]] =
        .ok [joinMembers xs, e] := by
      rw [decodeElements, show decodeMembers d.members = .ok xs from h,
        decodeElements_cons_singleton, decodeMember_encodeMember he]
      rfl
    rw [append_of_ne_empty op e hd, expressions, decodeMembers_singleton, decodeMember_compound,
      helements, joined_of_ne_nil op e hxs]
    rfl

theorem fieldsOfMember_compound (op : Connective) (vs : List Json) :
    fieldsOfMember op.token (.array vs) = fieldsOfElements vs := by
  rw [fieldsOfMember.eq_def, Connective.ofKey?_token]

/-- The fields are read off without decoding, so this holds of documents that are refused too. -/
theorem fields_append (op : Connective) (d : Document) (e : Expression) :
    (d.append op e).fields = d.fields ++ (encode e).fields := by
  by_cases hd : d = empty
  · rw [hd, append_empty]
    rfl
  · rw [append_of_ne_empty op e hd]
    simp only [fields, encode, fieldsOfMembers, fieldsOfMember_compound, fieldsOfElements,
      List.append_nil]

/-! ### Steps one after another -/

theorem expressions_appendAll {d : Document} {es : List Expression}
    {steps : List (Connective × Expression)} (h : d.expressions = .ok es)
    (hsteps : ∀ s ∈ steps, s.2.Encodable) :
    (d.appendAll steps).expressions = .ok (joinAll es steps) := by
  induction steps generalizing d es with
  | nil => exact h
  | cons s steps ih =>
    obtain ⟨hs, hsteps⟩ := List.forall_mem_cons.1 hsteps
    exact ih (expressions_append s.1 h hs) hsteps

theorem fields_appendAll (d : Document) (steps : List (Connective × Expression)) :
    (d.appendAll steps).fields = d.fields ++ steps.flatMap fun s => (encode s.2).fields := by
  induction steps generalizing d with
  | nil => simp [appendAll]
  | cons s steps ih =>
    rw [appendAll, List.foldl_cons, ← appendAll, ih, fields_append, List.flatMap_cons,
      List.append_assoc]

/-- **Appending.** In a history that starts with a document that can be decoded, each step spells
one expression, which joins the filter so far and the appended expression; on the empty document
that is the appended expression alone. So no leaf is dropped or moved. The fields of a document
grow by those of the appended expressions, whatever the first document is. -/
theorem appendAll_joins (d : Document) (steps : List (Connective × Expression)) :
    (d.appendAll steps).fields = d.fields ++ steps.flatMap (fun s => (encode s.2).fields) ∧
    ∀ es, d.expressions = .ok es →
      (∀ s ∈ steps, s.2.Built ∧ ∀ l ∈ s.2.leaves, ¬IsConnectiveKey l.1) →
      (∀ before op e after, steps = before ++ (op, e) :: after → ∃ xs,
        (d.appendAll before).expressions = .ok xs ∧
        (d.appendAll before = empty ↔ xs = []) ∧
        (d.appendAll (before ++ [(op, e)])).expressions = .ok [joined op e xs]) ∧
      (d.appendAll steps).expressions = .ok (joinAll es steps) ∧
      leavesOfAll (joinAll es steps) = leavesOfAll es ++ steps.flatMap fun s => s.2.leaves := by
  refine ⟨fields_appendAll d steps, fun es h hsteps => ?_⟩
  have hencodable : ∀ s ∈ steps, s.2.Encodable := fun s hs => encodable_iff_built.2 (hsteps s hs)
  refine ⟨?_, expressions_appendAll h hencodable, leavesOfAll_joinAll es steps⟩
  rintro before op e after rfl
  obtain ⟨hbefore, hrest⟩ := List.forall_mem_append.1 hencodable
  have hxs := expressions_appendAll h hbefore
  refine ⟨_, hxs, eq_empty_iff hxs, ?_⟩
  rw [appendAll, List.foldl_concat]
  exact expressions_append op hxs (hrest (op, e) List.mem_cons_self)

/-- A document with two members, to which a condition on the same field is added twice. -/
theorem appendAll_joins_status :
    let d : Document := ⟨[("status", .string "A"), ("qty", .object [("$gt", .int 1)])]⟩
    let leaf (field : String) (op : Comparison) (v : Json.Scalar) : Expression :=
      .leaf field (.single (.compare op) v)
    let status (text : String) := leaf "status" .equal (.string text)
    let qty := leaf "qty" .greater (.number (.int 1))
    let steps := [(Connective.or, status "B"), (Connective.and, status "A")]
    (d.appendAll steps).expressions =
        .ok [((allOf [status "A", qty]).or (status "B")).and (status "A")] ∧
      (d.appendAll steps).fields = [⟨"status", none, .string "A"⟩, ⟨"qty", some "$gt", .int 1⟩,
        ⟨"status", none, .string "B"⟩, ⟨"status", none, .string "A"⟩] := by
  intro d leaf status qty steps
  have h : d.expressions = .ok [status "A", qty] := by decide
  have hsteps : ∀ s ∈ steps, s.2.Built ∧ ∀ l ∈ s.2.leaves, ¬IsConnectiveKey l.1 := by
    simp only [built_iff]
    decide
  obtain ⟨hfields, hdecodes⟩ := appendAll_joins d steps
  obtain ⟨-, hfilter, -⟩ := hdecodes _ h hsteps
  exact ⟨hfilter, hfields⟩

end Document

end QueryFilter
