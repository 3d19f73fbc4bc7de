import QueryFilter.Proofs.Builder

/-!
# What a definition declares

A definition of an attribute may say too little or too much: it may set no kind or two, call a
column a collection, or give no constants for an enumeration. A definition of a type is refused for
such an attribute, for a name that comes twice and for a primary key that is no column, and for
nothing else. Whatever it declares is then in the schema.

* `Attribute.Definition.Consistent`: the definitions of attributes that are taken;
* `Attribute.Definition.Declares`: the attribute that a definition declares;
* `Attribute.Definition.toAttribute_eq_ok_iff`: what is taken, and for which attribute;
* `Entity.Definition.Consistent`: the definitions of types that are taken;
* `Entity.ofDefinition_declares`: which definitions have a schema, which one, and what an error
  says.
-/

namespace QueryFilter

/-- A known type is what its name stands for, and none of the names is that of enumerations. -/
theorem ColumnType.ofName_of_mem_known {type : String} {t : ColumnType} (h : (type, t) ∈ known) :
    type ≠ "enum" ∧ ofName type = t := by
  have hknown : ∀ p ∈ known, p.1 ≠ "enum" ∧ ofName p.1 = p.2 := by decide
  exact hknown _ h

/-! ### Definitions of attributes -/

namespace Attribute.Definition

/-- Whether a definition of an attribute is in order: it sets one kind, a collection is no column,
and an enumeration has a constant. -/
structure Consistent (d : Definition) : Prop where
  oneKind : [d.type, d.embedded, d.association].countP Option.isSome = 1
  collection : d.collection → d.association.isSome ∨ d.embedded.isSome
  constants : d.type = some "enum" → d.constants ≠ []

/-- The type that a definition declares by a name: an enumeration, which has the name of the
attribute unless it has its own, a known type, or a foreign one. -/
inductive DeclaresType (d : Definition) : String → ColumnType → Prop
  | enumeration : DeclaresType d "enum" (.enumeration (d.enumName.getD d.name) d.constants)
  | known {type : String} {t : ColumnType} : (type, t) ∈ ColumnType.known → DeclaresType d type t
  | foreign {type : String} : type ≠ "enum" → type ∉ ColumnType.known.map (·.1) →
    DeclaresType d type (.foreign type)

/-- The attribute that a definition declares. -/
inductive Declares (d : Definition) : Attribute → Prop
  | basic {type : String} {t : ColumnType} : d.type = some type → d.DeclaresType type t →
    Declares d ⟨d.name, .basic t⟩
  | embedded {schema : String} : d.embedded = some schema → Declares d ⟨d.name, .embedded schema⟩
  | association {target : String} : d.association = some target →
    Declares d ⟨d.name, .association target d.collection⟩

theorem declaresType_iff {d : Definition} {type : String} {t : ColumnType} :
    d.DeclaresType type t ↔
      type = "enum" ∧ t = .enumeration (d.enumName.getD d.name) d.constants ∨
      type ≠ "enum" ∧ t = .ofName type := by
  constructor
  · rintro (_ | hknown | ⟨henum, hnew⟩)
    · exact .inl ⟨rfl, rfl⟩
    · obtain ⟨henum, rfl⟩ := ColumnType.ofName_of_mem_known hknown
      exact .inr ⟨henum, rfl⟩
    · exact .inr ⟨henum, (ColumnType.ofName_eq_foreign_iff.2 hnew).symm⟩
  · rintro (⟨rfl, rfl⟩ | ⟨henum, rfl⟩)
    · exact .enumeration
    · rcases ColumnType.ofName_cases type with hknown | ⟨hnew, hforeign⟩
      · exact .known hknown
      · rw [hforeign]
        exact .foreign henum hnew

variable {d : Definition} {a : Attribute}

/-- A definition that sets one kind sets one of the three, and not the others. -/
theorem Consistent.kind_cases (h : d.Consistent) :
    (∃ type, d.type = some type ∧ d.embedded = none ∧ d.association = none) ∨
    (∃ schema, d.type = none ∧ d.embedded = some schema ∧ d.association = none) ∨
    ∃ target, d.type = none ∧ d.embedded = none ∧ d.association = some target := by
  have hone := h.oneKind
  cases htype : d.type <;> cases hembedded : d.embedded <;> cases hassociation : d.association <;>
    simp [htype, hembedded, hassociation] at hone ⊢

/-- What is taken is in order, and declares the attribute that it stands for. -/
theorem of_toAttribute (h : d.toAttribute = .ok a) : d.Consistent ∧ d.Declares a := by
  unfold toAttribute at h
  split at h
  · rename_i type htype hembedded hassociation
    split at h
    · cases h
    · rename_i hcolumn
      obtain ⟨t, ht, rfl⟩ := Except.map_eq_ok_iff.1 h
      have hconsistent : d.Consistent :=
        { oneKind := by simp [htype, hembedded, hassociation]
          collection := fun hcollection => absurd hcollection hcolumn
          constants := fun henum => by
            obtain rfl : type = "enum" := Option.some.inj (htype.symm.trans henum)
            rcases columnType_eq_ok_iff.1 ht with ⟨-, hsome, -⟩ | ⟨hne, -⟩
            · exact hsome
            · exact absurd rfl hne }
      refine ⟨hconsistent, .basic htype (declaresType_iff.2 ?_)⟩
      exact (columnType_eq_ok_iff.1 ht).imp_left fun ⟨henum, _, ht⟩ => ⟨henum, ht⟩
  · rename_i schema htype hembedded hassociation
    cases h
    refine ⟨⟨?_, fun _ => .inr (by rw [hembedded]; rfl), ?_⟩, .embedded hembedded⟩
    · simp [htype, hembedded, hassociation]
    · simp [htype]
  · rename_i target htype hembedded hassociation
    cases h
    refine ⟨⟨?_, fun _ => .inl (by rw [hassociation]; rfl), ?_⟩, .association hassociation⟩
    · simp [htype, hembedded, hassociation]
    · simp [htype]
  · cases h

/-- What is in order is taken for the attribute that it declares. -/
theorem Consistent.toAttribute_of_declares (h : d.Consistent) (ha : d.Declares a) :
    d.toAttribute = .ok a := by
  unfold toAttribute
  rcases h.kind_cases with ⟨type, htype, hembedded, hassociation⟩ |
    ⟨schema, htype, hembedded, hassociation⟩ | ⟨target, htype, hembedded, hassociation⟩
  · have hcolumn : ¬d.collection := fun hcollection => by
      simpa [hembedded, hassociation] using h.collection hcollection
    cases ha with
    | @basic type' t htype' ht =>
      obtain rfl : type = type' := Option.some.inj (htype.symm.trans htype')
      rw [htype, hembedded, hassociation]
      dsimp only
      rw [if_neg hcolumn, Except.map_eq_ok_iff]
      refine ⟨t, columnType_eq_ok_iff.2 ((declaresType_iff.1 ht).imp_left ?_), rfl⟩
      rintro ⟨rfl, henumeration⟩
      exact ⟨rfl, h.constants htype, henumeration⟩
    | embedded h' => simp [hembedded] at h'
    | association h' => simp [hassociation] at h'
  · cases ha with
    | basic h' => simp [htype] at h'
    | embedded h' => rw [htype, hembedded, hassociation, Option.some.inj (hembedded.symm.trans h')]
    | association h' => simp [hassociation] at h'
  · cases ha with
    | basic h' => simp [htype] at h'
    | embedded h' => simp [hembedded] at h'
    | association h' =>
      rw [htype, hembedded, hassociation, Option.some.inj (hassociation.symm.trans h')]

/-- A definition is taken exactly if it is in order, and for the attribute that it declares. -/
theorem toAttribute_eq_ok_iff : d.toAttribute = .ok a ↔ d.Consistent ∧ d.Declares a :=
  ⟨of_toAttribute, fun ⟨hd, ha⟩ => hd.toAttribute_of_declares ha⟩

/-- What is in order declares an attribute. -/
theorem Consistent.exists_declares (h : d.Consistent) : ∃ a, d.Declares a := by
  rcases h.kind_cases with ⟨type, htype, -⟩ | ⟨schema, -, hembedded, -⟩ |
    ⟨target, -, -, hassociation⟩
  · by_cases henum : type = "enum"
    · exact ⟨_, .basic htype (declaresType_iff.2 (.inl ⟨henum, rfl⟩))⟩
    · exact ⟨_, .basic htype (declaresType_iff.2 (.inr ⟨henum, rfl⟩))⟩
  · exact ⟨_, .embedded hembedded⟩
  · exact ⟨_, .association hassociation⟩

theorem exists_forall₂_declares {ds : List Definition} (h : ∀ d ∈ ds, d.Consistent) :
    ∃ as, List.Forall₂ Declares ds as := by
  induction ds with
  | nil => exact ⟨[], .nil⟩
  | cons d ds ih =>
    obtain ⟨hd, hds⟩ := List.forall_mem_cons.1 h
    obtain ⟨a, ha⟩ := hd.exists_declares
    obtain ⟨as, has⟩ := ih hds
    exact ⟨a :: as, .cons ha has⟩

theorem Declares.name_eq (h : d.Declares a) : a.name = d.name := by
  cases h <;> rfl

theorem map_name_of_forall₂ {ds : List Definition} {as : List Attribute}
    (h : List.Forall₂ Declares ds as) : as.map (·.name) = ds.map (·.name) := by
  induction h with
  | nil => rfl
  | cons ha _ ih => rw [List.map_cons, List.map_cons, ha.name_eq, ih]

/-- What declares a column sets a type. -/
theorem Declares.isColumn_iff (ha : d.Declares a) (hd : d.Consistent) :
    (∃ t, a.kind = .basic t) ↔ d.type.isSome := by
  cases ha with
  | basic htype => simp [htype]
  | embedded hembedded =>
    have hnone : d.type = none ∧ d.association = none := by
      simpa [hembedded] using hd.kind_cases
    simp [hnone.1]
  | association hassociation =>
    have hnone : d.type = none ∧ d.embedded = none := by
      simpa [hassociation] using hd.kind_cases
    simp [hnone.1]

/-- The columns among the declared attributes are those that are declared with a type. -/
theorem exists_column_iff {ds : List Definition} {as : List Attribute}
    (h : List.Forall₂ Declares ds as) (hds : ∀ d ∈ ds, d.Consistent) {name : String} :
    (∃ a ∈ as, a.name = name ∧ ∃ t, a.kind = .basic t) ↔
      ∃ d ∈ ds, d.name = name ∧ d.type.isSome := by
  induction h with
  | nil => simp
  | cons ha _ ih =>
    obtain ⟨hd, hds⟩ := List.forall_mem_cons.1 hds
    rw [List.exists_mem_cons_iff, List.exists_mem_cons_iff, ih hds, ha.name_eq, ha.isColumn_iff hd]

end Attribute.Definition

/-! ### Definitions of types -/

/-- Whether a definition of a type is in order: each attribute by itself, no name twice, and a
primary key that is declared with a type. -/
structure Entity.Definition.Consistent (d : Definition) : Prop where
  attributes : ∀ a ∈ d.attributes, a.Consistent
  names : (d.attributes.map (·.name)).Nodup
  primaryKey : ∀ pk ∈ d.primaryKey, ∃ a ∈ d.attributes, a.name = pk ∧ a.type.isSome

namespace Entity

/-- A definition has a schema exactly if it is in order, and it is the schema with the declared
attributes. -/
theorem ofDefinition_eq_ok_iff_declares {d : Definition} {e : Entity} :
    ofDefinition d = .ok e ↔ d.Consistent ∧ ∃ as,
      List.Forall₂ Attribute.Definition.Declares d.attributes as ∧
        ∃ h, e = ofAttributes d.name d.primaryKey d.embeddable as h := by
  simp only [ofDefinition_eq_ok_iff, Attribute.Definition.toAttribute_eq_ok_iff,
    List.forall₂_and_left]
  constructor
  · rintro ⟨as, ⟨hds, has⟩, ⟨hnames, rfl⟩, hpk⟩
    refine ⟨⟨hds, ?_, fun pk hmem => ?_⟩, as, has, hnames, rfl⟩
    · rwa [← Attribute.Definition.map_name_of_forall₂ has]
    · have hcolumn := hasColumn_iff.1 (hpk pk hmem)
      exact (Attribute.Definition.exists_column_iff has hds).1 hcolumn
  · rintro ⟨hd, as, has, hnames, rfl⟩
    refine ⟨as, ⟨hd.attributes, has⟩, ⟨hnames, rfl⟩, fun pk hmem => hasColumn_iff.2 ?_⟩
    exact (Attribute.Definition.exists_column_iff has hd.attributes).2 (hd.primaryKey pk hmem)

/-- An attribute is refused with an error that names the type. -/
theorem exists_defect_of_declareAll {e : Entity} {ds : List Attribute.Definition}
    {err : SchemaError} (h : e.declareAll ds = .error err) :
    ∃ defect, err = .ofType e.name defect := by
  induction ds generalizing e with
  | nil => cases h
  | cons d ds ih =>
    unfold declareAll at h
    split at h
    · cases h
      exact ⟨_, rfl⟩
    · split at h
      · cases h
        exact ⟨_, rfl⟩
      · rename_i hpush
        obtain ⟨hnew, rfl⟩ := push?_eq_some_iff.1 hpush
        exact ih (e := e.append _ hnew) h

/-- A definition is refused with an error that names the type. -/
theorem exists_defect_of_ofDefinition {d : Definition} {err : SchemaError}
    (h : ofDefinition d = .error err) : ∃ defect, err = .ofType d.name defect := by
  rcases Except.bind_eq_error_iff.1 h with h | ⟨e, he, h⟩
  · exact exists_defect_of_declareAll h
  · have hname : e.name = d.name := by
      obtain ⟨as, -, _, rfl⟩ := declareAll_eq_ok_iff.1 he
      rfl
    split at h
    · cases h
    · split at h
      · cases h
      · cases h
        exact ⟨_, by rw [hname]⟩

/-- **What a definition declares.** A definition has a schema exactly if it is in order. The schema
has its name, its primary key and one attribute for each of its attributes, in their order, which is
what that one declares. An error is that of a malformed schema and names the type. -/
theorem ofDefinition_declares (d : Definition) :
    ((∃ e, ofDefinition d = .ok e) ↔ d.Consistent) ∧
    (∀ e, ofDefinition d = .ok e →
      e.name = d.name ∧ e.primaryKey = d.primaryKey ∧ e.embeddable = d.embeddable ∧
        List.Forall₂ Attribute.Definition.Declares d.attributes e.attributes) ∧
    ∀ err, ofDefinition d = .error err → err.code = .malformed ∧ err.typeName? = some d.name := by
  refine ⟨⟨?_, fun hd => ?_⟩, fun e he => ?_, fun err herr => ?_⟩
  · rintro ⟨e, he⟩
    exact (ofDefinition_eq_ok_iff_declares.1 he).1
  · obtain ⟨as, has⟩ := Attribute.Definition.exists_forall₂_declares hd.attributes
    have hnames : (as.map (·.name)).Nodup := by
      rw [Attribute.Definition.map_name_of_forall₂ has]
      exact hd.names
    exact ⟨_, ofDefinition_eq_ok_iff_declares.2 ⟨hd, as, has, hnames, rfl⟩⟩
  · obtain ⟨-, as, has, _, rfl⟩ := ofDefinition_eq_ok_iff_declares.1 he
    exact ⟨rfl, rfl, rfl, has⟩
  · obtain ⟨defect, rfl⟩ := exists_defect_of_ofDefinition herr
    exact ⟨rfl, rfl⟩

/-- A task with a status has a schema; with a primary key that is a link it has none. -/
theorem ofDefinition_declares_task :
    let id : Attribute.Definition := { Attribute.Definition.named "id" with type := some "integer" }
    let status : Attribute.Definition := { Attribute.Definition.named "status" with
      type := some "enum", constants := ["OPEN", "DONE"] }
    let owner : Attribute.Definition :=
      { Attribute.Definition.named "owner" with association := some "Employee" }
    let task (pk : String) : Definition := ⟨"Task", some pk, false, [id, status, owner]⟩
    (∃ e, ofDefinition (task "id") = .ok e ∧ (task "id").Consistent ∧ e.name = "Task" ∧
      List.Forall₂ Attribute.Definition.Declares [id, status, owner] e.attributes) ∧
    ∃ err, ofDefinition (task "owner") = .error err ∧ ¬(task "owner").Consistent ∧
      err.code = .malformed ∧ err.typeName? = some "Task" := by
  intro id status owner task
  obtain ⟨e, he⟩ := Except.exists_ok_of_isOk
    (show (ofDefinition (task "id")).isOk by decide)
  obtain ⟨err, herr⟩ := Except.exists_error_of_isOk_eq_false
    (show (ofDefinition (task "owner")).isOk = false by decide)
  obtain ⟨htaken, hdeclares, -⟩ := ofDefinition_declares (task "id")
  obtain ⟨hname, -, -, hattributes⟩ := hdeclares e he
  obtain ⟨hrefused, -, herror⟩ := ofDefinition_declares (task "owner")
  refine ⟨⟨e, he, htaken.1 ⟨e, he⟩, hname, hattributes⟩, err, herr, fun h => ?_, herror err herr⟩
  obtain ⟨e', he'⟩ := hrefused.2 h
  cases herr.symm.trans he'

/-- A composite that is declared as a collection is taken, and the flag is lost. -/
theorem composite_declared_collection :
    let label : Attribute.Definition :=
      { Attribute.Definition.named "label" with embedded := some "Label", collection := true }
    let d : Definition := ⟨"Department", none, false, [label]⟩
    ofDefinition d = .ok ((entity "Department").embedded "label" "Label") ∧
      ¬∀ a ∈ d.attributes, a.collection → a.association.isSome := by
  decide

end Entity

end QueryFilter
