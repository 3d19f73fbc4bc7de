import QueryFilter.Proofs.Compositional
import QueryFilter.Proofs.FieldPath
import QueryFilter.Proofs.Places

/-!
# Leaves that resolve

Which leaves a compilation accepts, and which attribute it then reads. A leaf is accepted exactly
when it keeps the limits, its segments before the last lead from type to type, the last one names
an attribute, and the condition suits that attribute.

* `Condition.Suits`: what may be asked of an attribute;
* `Registry.Leads`: where segments lead from a type;
* `Registry.Accepts`: the leaves that resolve;
* `Registry.compileQuery_leaf`: these are the leaves that compile, and the attribute that they name
  is the one that is read.
-/

namespace QueryFilter

/-! ### Conditions on attributes -/

/-- Whether an operand is a value of a type of columns. -/
def Json.Scalar.ConvertsTo (type : ColumnType) (v : Json.Scalar) : Prop :=
  ∃ value, Value.ofOperand? (.scalar v) type = some value

/-- Whether an operator may be used on columns of a type. Only texts are compared without regard
to case, and only values with an order are compared by it. -/
def SingleOperator.AllowedOn (type : ColumnType) : SingleOperator → Prop
  | .compare c => c.isOrdering → ∀ name, type ≠ .foreign name
  | .equalIgnoringCase => type = .text
  | .occurs _ _ => True

/-- Whether a condition may be set for an attribute. A column is compared with operands of its
type, and a link to one entity is tested for null. -/
def Condition.Suits : AttributeKind → Condition → Prop
  | .basic type, .single op v => v.ConvertsTo type ∧ op.AllowedOn type
  | .basic type, .list _ vs => ∀ v ∈ vs, v.ConvertsTo type
  | .association _ false, .single (.compare .equal) v => v = .null
  | .association _ false, .single (.compare .notEqual) v => v = .null
  | _, _ => False

variable {σ : Type}

theorem exists_convertOperand_iff (field : String) {type : ColumnType} {v : Json.Scalar} :
    (∃ value, convertOperand field type (.scalar v) = .ok value) ↔ v.ConvertsTo type := by
  simp only [convertOperand_eq_ok_iff, Json.Scalar.ConvertsTo]

theorem exists_convertOperands_iff (field : String) {type : ColumnType} {vs : List Json.Scalar} :
    (∃ values, convertOperands field type (vs.map .scalar) = .ok values) ↔
      ∀ v ∈ vs, v.ConvertsTo type := by
  induction vs with
  | nil => simp [convertOperands]
  | cons v vs ih =>
    rw [List.forall_mem_cons, ← ih, ← exists_convertOperand_iff field, List.map_cons,
      convertOperands]
    constructor
    · rintro ⟨values, h⟩
      obtain ⟨value, hv, h⟩ := Except.bind_eq_ok_iff.1 h
      obtain ⟨rest, hvs, -⟩ := Except.bind_eq_ok_iff.1 h
      exact ⟨⟨value, hv⟩, rest, hvs⟩
    · rintro ⟨⟨value, hv⟩, rest, hvs⟩
      refine ⟨value :: rest, ?_⟩
      rw [hv, hvs]
      rfl

theorem isComparable_iff {type : ColumnType} :
    type.isComparable ↔ ∀ name, type ≠ .foreign name := by
  cases type <;> simp [ColumnType.isComparable]

theorem exists_singleTest_iff (field : String) (column : Column σ) {type : ColumnType}
    {op : SingleOperator} (raw : Json.Scalar) (value : Value) :
    (∃ t, singleTest field column type op raw value = .ok t) ↔ op.AllowedOn type := by
  rcases op with c | _ | ⟨anchor, ignoreCase⟩
  · rw [SingleOperator.AllowedOn, ← isComparable_iff]
    by_cases h : type.isComparable <;> cases c <;> simp [singleTest, Comparison.isOrdering, h]
  · rw [SingleOperator.AllowedOn]
    by_cases h : type = .text <;> simp [singleTest, h]
  · simp [singleTest, SingleOperator.AllowedOn]

/-- The condition at the end of a path is accepted when it suits the attribute. -/
theorem exists_endPredicate_iff {field : String} {column : Column σ} {kind : AttributeKind}
    {c : Condition} : (∃ p, endPredicate field column kind c = .ok p) ↔ c.Suits kind := by
  constructor
  · rintro ⟨p, h⟩
    rcases endPredicate_eq_ok h with ⟨type, op, raw, value, t, rfl, rfl, hv, ht, -⟩ |
      ⟨type, op, raws, values, rfl, rfl, hvs, -⟩ | ⟨target, rfl, ⟨rfl, -⟩ | ⟨rfl, -⟩⟩
    · exact ⟨(exists_convertOperand_iff field).1 ⟨value, hv⟩,
        (exists_singleTest_iff field column raw value).1 ⟨t, ht⟩⟩
    · exact (exists_convertOperands_iff field).1 ⟨values, hvs⟩
    · rfl
    · rfl
  · intro h
    unfold Condition.Suits at h
    split at h
    · rename_i type op v
      obtain ⟨value, hv⟩ := (exists_convertOperand_iff field).2 h.1
      obtain ⟨t, ht⟩ := (exists_singleTest_iff field column v value).2 h.2
      exact ⟨.test t, Except.bind_eq_ok_iff.2
        ⟨value, hv, Except.bind_eq_ok_iff.2 ⟨t, ht, rfl⟩⟩⟩
    · obtain ⟨values, hvs⟩ := (exists_convertOperands_iff field).2 h
      exact ⟨_, Except.bind_eq_ok_iff.2 ⟨values, hvs, rfl⟩⟩
    · subst h
      exact ⟨_, rfl⟩
    · subst h
      exact ⟨_, rfl⟩
    · exact h.elim

/-! ### Segments that lead on -/

open FieldPath

/-- Segments lead from a type to a type. Without its markers each is the name of a link or of a
composite, and the type that it belongs to comes next. -/
inductive Registry.Leads (r : Registry) : Entity → List (List Char) → Entity → Prop
  | nil (type : Entity) : Leads r type [] type
  | association {type next last : Entity} {s : List Char} {ss : List (List Char)} {a : Attribute}
      {target : String} {many : Bool} :
    (readMarkers s).name ≠ [] → type.attribute? (bareName s) = some a →
    a.kind = .association target many → r.lookup? target = some next → Leads r next ss last →
    Leads r type (s :: ss) last
  | embedded {type next last : Entity} {s : List Char} {ss : List (List Char)} {a : Attribute}
      {schema : String} :
    (readMarkers s).name ≠ [] → type.attribute? (bareName s) = some a →
    a.kind = .embedded schema → r.lookup? schema = some next → Leads r next ss last →
    Leads r type (s :: ss) last

/-- Whether segments lead from a type to an attribute that a condition suits. The last segment is
the name of that attribute, and those before it lead to the type that has it. -/
def Registry.Resolves (r : Registry) (c : Condition) (type : Entity) (ss : List (List Char)) :
    Prop :=
  ∃ init last owner a, ss = init ++ [last] ∧ last ≠ [] ∧ r.Leads type init owner ∧
    owner.attribute? (String.ofList last) = some a ∧ c.Suits a.kind

theorem Registry.leads_cons_iff {r : Registry} {type last : Entity} {s : List Char}
    {ss : List (List Char)} :
    r.Leads type (s :: ss) last ↔ (readMarkers s).name ≠ [] ∧
      ∃ a next, r.catalog.step? type (bareName s) = some (a, next) ∧ r.Leads next ss last := by
  constructor
  · intro h
    cases h with
    | association hs ha hk hn hrest =>
      exact ⟨hs, _, _, step?_eq_some_iff.2 ⟨ha, .inl ⟨_, _, hk, hn⟩⟩, hrest⟩
    | embedded hs ha hk hn hrest =>
      exact ⟨hs, _, _, step?_eq_some_iff.2 ⟨ha, .inr ⟨_, hk, hn⟩⟩, hrest⟩
  · rintro ⟨hs, a, next, hstep, hrest⟩
    obtain ⟨ha, ⟨target, many, hk, hn⟩ | ⟨schema, hk, hn⟩⟩ := step?_eq_some_iff.1 hstep
    · exact .association hs ha hk hn hrest
    · exact .embedded hs ha hk hn hrest

theorem Registry.resolves_singleton_iff {r : Registry} {c : Condition} {type : Entity}
    {s : List Char} :
    r.Resolves c type [s] ↔
      s ≠ [] ∧ ∃ a, type.attribute? (String.ofList s) = some a ∧ c.Suits a.kind := by
  constructor
  · rintro ⟨init, last, owner, a, hss, hlast, hleads, ha, hsuits⟩
    obtain ⟨rfl, hs⟩ := List.append_eq_singleton_iff.1 hss.symm |>.resolve_right (by simp)
    cases hs
    cases hleads
    exact ⟨hlast, a, ha, hsuits⟩
  · rintro ⟨hs, a, ha, hsuits⟩
    exact ⟨[], s, type, a, rfl, hs, .nil type, ha, hsuits⟩

theorem Registry.resolves_cons_iff {r : Registry} {c : Condition} {type : Entity}
    {s t : List Char} {ss : List (List Char)} :
    r.Resolves c type (s :: t :: ss) ↔ (readMarkers s).name ≠ [] ∧
      ∃ a next, r.catalog.step? type (bareName s) = some (a, next) ∧
        r.Resolves c next (t :: ss) := by
  constructor
  · rintro ⟨init, last, owner, a, hss, hlast, hleads, ha, hsuits⟩
    cases init with
    | nil => cases hss
    | cons s' init =>
      rw [List.cons_append, List.cons.injEq] at hss
      obtain ⟨rfl, hss⟩ := hss
      obtain ⟨hs, b, next, hstep, hleads⟩ := leads_cons_iff.1 hleads
      exact ⟨hs, b, next, hstep, init, last, owner, a, hss, hlast, hleads, ha, hsuits⟩
  · rintro ⟨hs, b, next, hstep, init, last, owner, a, hss, hlast, hleads, ha, hsuits⟩
    exact ⟨s :: init, last, owner, a, by rw [hss, List.cons_append], hlast,
      leads_cons_iff.2 ⟨hs, b, next, hstep, hleads⟩, ha, hsuits⟩

/-! ### Resolution -/

variable {r : Registry} {field : String} {c : Condition}

/-- The walk without a plan goes on where the name leads, behind a new source or in the row of the
old one. -/
theorem Catalog.resolve_step_eq_ok_iff {τ : Type} {C : Catalog τ} {name : String}
    {join : JoinType} {rest : FieldPath} {type : τ} {source inner : List String}
    {p : Predicate (List String)} :
    C.resolve field c (.step name join rest) type source inner = .ok p ↔
      ∃ a next, C.step? type name = some (a, next) ∧
        C.resolve field c rest next
          (if a.isAssociation then source ++ inner ++ [a.name] else source)
          (if a.isAssociation then [] else inner ++ [a.name]) = .ok p := by
  cases hf : C.follow field type name with
  | error e => simp [resolve_step_error hf, step?_of_follow_error hf]
  | ok s =>
    obtain ⟨a, next⟩ := s
    rw [resolve_step_ok hf, step?_of_follow hf]
    cases h : a.isAssociation <;> simp [h]

theorem Registry.resolve_last_eq_ok_iff {name : String} {type : Entity}
    {source inner : List String} {p : Predicate (List String)} :
    r.catalog.resolve field c (.last name) type source inner = .ok p ↔
      ∃ a, type.attribute? name = some a ∧
        endPredicate field ⟨source, inner ++ [a.name]⟩ a.kind c = .ok p := by
  have hattribute : r.catalog.attribute? type name = type.attribute? name := rfl
  rw [Catalog.resolve, hattribute]
  cases type.attribute? name <;> simp

/-- The walk without a plan comes to an end exactly for segments that resolve. -/
theorem Registry.exists_resolve_iff {ss : List (List Char)} {type : Entity}
    {source inner : List String} (hss : ss ≠ []) :
    (∃ p, r.catalog.resolve field c (ofSegments ss) type source inner = .ok p) ↔
      r.Resolves c type ss := by
  induction ss generalizing type source inner with
  | nil => exact absurd rfl hss
  | cons s ss ih =>
    cases ss with
    | nil =>
      rw [resolves_singleton_iff, ofSegments]
      by_cases hs : s = []
      · simp [hs, Catalog.resolve]
      · rw [if_neg hs]
        constructor
        · rintro ⟨p, h⟩
          obtain ⟨a, ha, hend⟩ := resolve_last_eq_ok_iff.1 h
          exact ⟨hs, a, ha, exists_endPredicate_iff.1 ⟨p, hend⟩⟩
        · -- what suits the attribute has a predicate, whatever its column is
          rintro ⟨-, a, ha, hsuits⟩
          obtain ⟨p, hend⟩ := exists_endPredicate_iff.2 hsuits
          exact ⟨p, resolve_last_eq_ok_iff.2 ⟨a, ha, hend⟩⟩
    | cons t ss =>
      rw [resolves_cons_iff, ofSegments]
      by_cases hs : (readMarkers s).name = [] ∨ t :: ss = [[]]
      · rw [if_pos hs]
        constructor
        · rintro ⟨p, h⟩
          cases h
        · rintro ⟨hname, a, next, -, hrest⟩
          -- a remainder that is empty does not name an attribute
          rw [hs.resolve_left hname, resolves_singleton_iff] at hrest
          exact absurd rfl hrest.1
      · rw [if_neg hs]
        constructor
        · rintro ⟨p, h⟩
          obtain ⟨a, next, hstep, hrest⟩ := Catalog.resolve_step_eq_ok_iff.1 h
          exact ⟨fun hname => hs (.inl hname), a, next, hstep,
            (ih (List.cons_ne_nil t ss)).1 ⟨p, hrest⟩⟩
        · rintro ⟨-, a, next, hstep, hrest⟩
          obtain ⟨p, hp⟩ := (ih (List.cons_ne_nil t ss)).2 hrest
          exact ⟨p, Catalog.resolve_step_eq_ok_iff.2 ⟨a, next, hstep, hp⟩⟩

/-- Where segments lead to an attribute, the walk without a plan gives the predicate of the
condition on it. -/
theorem Registry.exists_resolve_of_leads {init : List (List Char)} {last : List Char}
    {type owner : Entity} {a : Attribute} (hleads : r.Leads type init owner) (hlast : last ≠ [])
    (ha : owner.attribute? (String.ofList last) = some a)
    {p : Column (List String) → Predicate (List String)}
    (hp : ∀ column, endPredicate field column a.kind c = .ok (p column))
    (source inner : List String) :
    ∃ column, r.catalog.resolve field c (ofSegments (init ++ [last])) type source inner =
      .ok (p column) := by
  induction init generalizing type source inner with
  | nil =>
    cases hleads
    rw [List.nil_append, ofSegments, if_neg hlast]
    exact ⟨_, resolve_last_eq_ok_iff.2 ⟨a, ha, hp _⟩⟩
  | cons s init ih =>
    obtain ⟨hs, b, next, hstep, hrest⟩ := leads_cons_iff.1 hleads
    obtain ⟨t, ss, hss⟩ := List.exists_cons_of_ne_nil (List.concat_ne_nil last init)
    have hne : ¬((readMarkers s).name = [] ∨ t :: ss = [[]]) := by
      rintro (h | h)
      · exact hs h
      · have hgetLast : (init ++ [last]).getLast? = some [] := by
          rw [hss, h]
          rfl
        rw [List.getLast?_concat] at hgetLast
        exact hlast (Option.some.inj hgetLast)
    obtain ⟨column, hcolumn⟩ := ih hrest
      (if b.isAssociation then source ++ inner ++ [b.name] else source)
      (if b.isAssociation then [] else inner ++ [b.name])
    rw [hss] at hcolumn
    rw [List.cons_append, hss, ofSegments, if_neg hne]
    exact ⟨column, Catalog.resolve_step_eq_ok_iff.2 ⟨b, next, hstep, hcolumn⟩⟩

/-- The names that lead to the column at the end of a walk are those in the segments. -/
theorem Registry.names_of_resolve {ss : List (List Char)} {type : Entity}
    {source inner : List String} {p : Predicate (List String)}
    (h : r.catalog.resolve field c (ofSegments ss) type source inner = .ok p) :
    ∃ column, p.columns = [column] ∧
      column.source ++ column.segments = source ++ inner ++ spelledNames ss := by
  induction ss generalizing type source inner with
  | nil => cases h
  | cons s ss ih =>
    cases ss with
    | nil =>
      rw [ofSegments] at h
      split at h
      · cases h
      · obtain ⟨a, ha, hend⟩ := resolve_last_eq_ok_iff.1 h
        refine ⟨_, columns_of_endPredicate hend, ?_⟩
        rw [r.exact_catalog type _ a ha, spelledNames, List.append_assoc]
    | cons t ss =>
      rw [ofSegments] at h
      split at h
      · cases h
      · obtain ⟨a, next, hstep, hrest⟩ := Catalog.resolve_step_eq_ok_iff.1 h
        obtain ⟨column, hcolumns, hnames⟩ := ih hrest
        refine ⟨column, hcolumns, ?_⟩
        rw [hnames, Catalog.name_of_step? r.exact_catalog hstep, spelledNames]
        cases a.isAssociation <;> simp

/-! ### Leaves -/

/-- Whether a leaf keeps the limits on paths and lists and resolves. -/
def Registry.Accepts (r : Registry) (config : Config) (root : Entity) (field : String)
    (c : Condition) : Prop :=
  (segments field).length ≤ config.maxPathSegments ∧
    (∀ op vs, c = .list op vs → vs.length ≤ config.maxListValues) ∧
    r.Resolves c root (segments field)

theorem overLimit?_eq_none_iff {config : Config} :
    overLimit? config field c = none ↔ (segments field).length ≤ config.maxPathSegments ∧
      ∀ op vs, c = .list op vs → vs.length ≤ config.maxListValues := by
  have hcount : countSegments field.toList = (segments field).length :=
    countSegments_eq_length field.toList
  unfold overLimit? overLimit?.segmentLimit
  rw [hcount]
  cases c with
  | single op v => simp
  | list op vs =>
    by_cases h : vs.length > config.maxListValues
    · simp [h]
    · simp [h, Nat.not_lt.1 h]

theorem Registry.exists_meaning_iff {config : Config} {root : Entity} :
    (∃ p, r.catalog.meaning config root (field, c) = .ok p) ↔
      r.Accepts config root field c := by
  have hresolve : (∃ p, r.catalog.resolve field c (FieldPath.parse field) root [] [] = .ok p) ↔
      r.Resolves c root (segments field) := by
    rw [parse_eq_ofSegments]
    exact exists_resolve_iff (List.splitOn_ne_nil '.' field.toList)
  rw [Accepts, ← and_assoc, ← overLimit?_eq_none_iff, ← hresolve, Catalog.meaning]
  cases overLimit? config field c with
  | some e => simp
  | none => simp

theorem Registry.names_of_meaning {config : Config} {root : Entity} {p : Predicate (List String)}
    (h : r.catalog.meaning config root (field, c) = .ok p) :
    ∃ column, p.columns = [column] ∧
      column.source ++ column.segments = spelledNames (segments field) := by
  unfold Catalog.meaning at h
  split at h
  · cases h
  · dsimp only at h
    rw [parse_eq_ofSegments] at h
    exact names_of_resolve h

/-- **Resolution of a leaf.** A leaf compiles exactly when it keeps the limits and resolves. It then
reads one column, and the names from the root type to that column are those in its segments. -/
theorem Registry.compileQuery_leaf (r : Registry) (config : Config) (root : Entity)
    (projection : Projection) (field : String) (c : Condition) :
    ((∃ q, compileQuery r.catalog config root projection [.leaf field c] = .ok q) ↔
      r.Accepts config root field c) ∧
    ∀ q, compileQuery r.catalog config root projection [.leaf field c] = .ok q →
      ∃ column, q.predicate.columns = [column] ∧
        q.plan.names column.source ++ column.segments = spelledNames (segments field) := by
  have hmeaning := compileQuery_leaf_meaning r.catalog config root projection field c
  constructor
  · rw [← exists_meaning_iff, ← hmeaning]
    constructor
    · rintro ⟨q, hq⟩
      exact ⟨q.named, Except.map_eq_ok_iff.2 ⟨q, hq, rfl⟩⟩
    · rintro ⟨p, hp⟩
      obtain ⟨q, hq, -⟩ := Except.map_eq_ok_iff.1 hp
      exact ⟨q, hq⟩
  · intro q hq
    rw [hq, Except.map] at hmeaning
    -- the column without a plan is the one of the query, with names in the place of its source
    obtain ⟨named, hcolumns, hnames⟩ := names_of_meaning hmeaning.symm
    rw [Query.named, Predicate.columns_mapSource, List.map_eq_singleton_iff] at hcolumns
    obtain ⟨column, hcolumns, rfl⟩ := hcolumns
    exact ⟨column, hcolumns, hnames⟩

/-- The number of someone in the same department, through two marked segments. -/
theorem Registry.compileQuery_leaf_staff :
    let leaf := Expression.leaf "<department.staff?.id"
      (.single (.compare .greater) (.number (.int 3)))
    ∃ q column, compileQuery staff.catalog {} .employee .rows [leaf] = .ok q ∧
      q.predicate.columns = [column] ∧
      q.plan.names column.source ++ column.segments = ["department", "staff", "id"] := by
  intro leaf
  have hleads : staff.Leads .employee ["<department".toList, "staff?".toList] .employee :=
    .association (by decide) rfl rfl rfl (.association (by decide) rfl rfl rfl (.nil _))
  have haccepts : staff.Accepts {} .employee "<department.staff?.id"
      (.single (.compare .greater) (.number (.int 3))) := by
    refine ⟨by decide, nofun, _, "id".toList, _, _, by decide, by decide, hleads, rfl, ?_, ?_⟩
    · exact ⟨_, rfl⟩
    · exact fun _ => nofun
  obtain ⟨q, hq⟩ := (compileQuery_leaf staff {} .employee .rows _ _).1.2 haccepts
  obtain ⟨column, hcolumns, hnames⟩ := (compileQuery_leaf staff {} .employee .rows _ _).2 q hq
  exact ⟨q, column, hq, hcolumns, hnames.trans (by decide)⟩

end QueryFilter
