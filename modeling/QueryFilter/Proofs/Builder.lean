import Mathlib.Data.List.Forall2
import Mathlib.Data.List.Nodup
import QueryFilter.Proofs.Except
import QueryFilter.Schema.Definition

/-!
# Built schemas and their definitions

A schema is built in steps that add attributes, or replace them, and set the primary key. Its
definition need not stand for it: a definition knows a type by its name only, and is refused if the
primary key is no column. What survives is exactly what definitions express.

* `Entity.Step` and `Entity.IsBuilt`: the steps, and the schemas that they build;
* `ColumnType.Expressible` and `Attribute.toAttribute_definition_iff`: the attributes that survive;
* `Entity.ofDefinition_eq_ok_iff`: when a definition stands for a schema, and for which;
* `Entity.ofDefinition_definition`: the schemas that survive.
-/

namespace QueryFilter

/-! ### Steps -/

namespace Entity

/-- A step of building a schema. -/
inductive Step
  | withPrimaryKey (name : String)
  | basic (name : String) (type : ColumnType)
  | embedded (name schema : String)
  | toOne (name target : String)
  | toMany (name target : String)
  | withAttribute (a : Attribute)
  deriving DecidableEq, Repr

namespace Step

/-- The schema after a step. -/
def apply (e : Entity) : Step → Entity
  | withPrimaryKey name => e.withPrimaryKey name
  | basic name type => e.basic name type
  | embedded name schema => e.embedded name schema
  | toOne name target => e.toOne name target
  | toMany name target => e.toMany name target
  | withAttribute a => e.withAttribute a

/-- The attribute that a step adds. -/
def added? : Step → Option Attribute
  | withPrimaryKey _ => none
  | basic name type => some ⟨name, .basic type⟩
  | embedded name schema => some ⟨name, .embedded schema⟩
  | toOne name target => some ⟨name, .association target false⟩
  | toMany name target => some ⟨name, .association target true⟩
  | withAttribute a => some a

end Step

/-- The schema after steps. -/
def run (e : Entity) (steps : List Step) : Entity := steps.foldl Step.apply e

/-- Whether a schema is an entity or an embeddable type that is built in steps. -/
def IsBuilt (e : Entity) : Prop :=
  ∃ name steps, e = (entity name).run steps ∨ e = (embeddableType name).run steps

end Entity

/-! ### Types by name -/

namespace ColumnType

/-- Whether a definition can state a type: an enumeration has a constant, and the name of a foreign
type is not taken for another type. -/
def Expressible : ColumnType → Prop
  | enumeration _ constants => constants ≠ []
  | foreign name => name ≠ "enum" ∧ name ∉ known.map (·.1)
  | _ => True

/-- A name is that of a known type, or of a foreign one. -/
theorem ofName_cases (name : String) :
    (name, ofName name) ∈ known ∨ name ∉ known.map (·.1) ∧ ofName name = foreign name := by
  unfold ofName
  cases h : known.lookup name with
  | some t =>
    obtain ⟨before, after, hsplit, -⟩ := List.lookup_eq_some_iff.1 h
    exact .inl (hsplit ▸ by simp)
  | none =>
    refine .inr ⟨fun hmem => ?_, rfl⟩
    obtain ⟨p, hp, rfl⟩ := List.mem_map.1 hmem
    simpa using List.lookup_eq_none_iff.1 h p hp

theorem expressible_of_mem_known {p : String × ColumnType} (h : p ∈ known) : p.2.Expressible := by
  revert p
  simp [known, Expressible]

theorem ne_foreign_of_mem_known {p : String × ColumnType} (h : p ∈ known) (name : String) :
    p.2 ≠ foreign name := by
  revert p
  simp [known]

/-- What a name is resolved to can be stated by a name. -/
theorem expressible_ofName {name : String} (h : name ≠ "enum") : (ofName name).Expressible := by
  rcases ofName_cases name with hknown | ⟨hnew, hforeign⟩
  · exact expressible_of_mem_known hknown
  · rw [hforeign]
    exact ⟨h, hnew⟩

theorem ofName_eq_foreign_iff {name : String} :
    ofName name = foreign name ↔ name ∉ known.map (·.1) := by
  rcases ofName_cases name with hknown | ⟨hnew, hforeign⟩
  · exact iff_of_false (ne_foreign_of_mem_known hknown name)
      (not_not_intro (List.mem_map_of_mem hknown))
  · exact iff_of_true hforeign hnew

/-- A type that is neither an enumeration nor foreign is resolved from its name. -/
theorem ofName_name {t : ColumnType} (henum : ∀ name cs, t ≠ enumeration name cs)
    (hforeign : ∀ name, t ≠ foreign name) : t.name ≠ "enum" ∧ ofName t.name = t := by
  cases t with
  | enumeration name cs => cases henum name cs rfl
  | foreign name => cases hforeign name rfl
  | integer w => cases w <;> decide
  | _ => decide

end ColumnType

/-! ### Attributes and their definitions -/

namespace Attribute

/-- Whether a definition can state an attribute. -/
def Expressible (a : Attribute) : Prop := ∀ t ∈ a.columnType?, t.Expressible

theorem Definition.columnType_eq_ok_iff {d : Definition} {type : String} {t : ColumnType} :
    d.columnType type = .ok t ↔
      type = "enum" ∧ d.constants ≠ [] ∧
        t = .enumeration (d.enumName.getD d.name) d.constants ∨
      type ≠ "enum" ∧ t = .ofName type := by
  unfold columnType
  split
  · rename_i htype
    split
    · rename_i hnone
      simp [List.isEmpty_iff.1 hnone, htype]
    · rename_i hsome
      simp [mt List.isEmpty_iff.2 hsome, htype, eq_comm]
  · rename_i htype
    simp [htype, eq_comm]

/-- A column whose definition has only a name for its type survives exactly if the name is
resolved to the type. -/
theorem toAttribute_named_iff (name type : String) (t : ColumnType) :
    Definition.toAttribute { Definition.named name with type := some type } =
        .ok ⟨name, .basic t⟩ ↔ type ≠ "enum" ∧ .ofName type = t := by
  simp [Definition.toAttribute, Definition.named, Except.map_eq_ok_iff,
    Definition.columnType_eq_ok_iff, eq_comm (a := t)]

/-- A column survives exactly if its type can be stated. -/
theorem toAttribute_definition_basic_iff {name : String} {t : ColumnType} :
    (⟨name, .basic t⟩ : Attribute).definition.toAttribute = .ok ⟨name, .basic t⟩ ↔
      t.Expressible := by
  have hnamed := toAttribute_named_iff name t.name t
  cases t with
  | enumeration enum constants =>
    simp [definition, Definition.toAttribute, Definition.named, Except.map_eq_ok_iff,
      Definition.columnType_eq_ok_iff, ColumnType.Expressible]
  | foreign type => exact hnamed.trans (and_congr_right fun _ => ColumnType.ofName_eq_foreign_iff)
  | _ => exact hnamed.trans (iff_of_true (ColumnType.ofName_name (by simp) (by simp)) trivial)

/-- An attribute is what its definition stands for exactly if it can be stated. -/
theorem toAttribute_definition_iff {a : Attribute} :
    a.definition.toAttribute = .ok a ↔ a.Expressible := by
  obtain ⟨name, type | schema | ⟨target, collection⟩⟩ := a
  · rw [toAttribute_definition_basic_iff]
    simp [Expressible, columnType?]
  · exact iff_of_true rfl nofun
  · exact iff_of_true rfl nofun

/-- An attribute that a definition stands for can be stated. -/
theorem Definition.expressible_of_toAttribute {d : Definition} {a : Attribute}
    (h : d.toAttribute = .ok a) : a.Expressible := by
  unfold toAttribute at h
  split at h
  · split at h
    · cases h
    · obtain ⟨t, ht, rfl⟩ := Except.map_eq_ok_iff.1 h
      rintro _ ⟨⟩
      rcases columnType_eq_ok_iff.1 ht with ⟨-, hsome, rfl⟩ | ⟨htype, rfl⟩
      · exact hsome
      · exact ColumnType.expressible_ofName htype
  · cases h
    exact nofun
  · cases h
    exact nofun
  · cases h

theorem Definition.expressible_of_forall₂ {ds : List Definition} {as : List Attribute}
    (h : List.Forall₂ (fun d a => d.toAttribute = .ok a) ds as) : ∀ a ∈ as, a.Expressible := by
  induction h with
  | nil => exact nofun
  | cons hd _ ih => exact List.forall_mem_cons.2 ⟨expressible_of_toAttribute hd, ih⟩

end Attribute

/-! ### Schemas -/

namespace Entity

theorem attribute?_eq_none_iff {e : Entity} {name : String} :
    e.attribute? name = none ↔ name ∉ e.attributes.map (·.name) := by
  simp [attribute?_eq_find?, List.find?_eq_none]

/-- Each attribute is found under its name. -/
theorem attribute?_eq_some_iff {e : Entity} {name : String} {a : Attribute} :
    e.attribute? name = some a ↔ a ∈ e.attributes ∧ a.name = name := by
  refine ⟨fun h => ⟨mem_of_attribute? h, name_of_attribute? h⟩, ?_⟩
  rintro ⟨ha, rfl⟩
  cases hb : e.attribute? a.name with
  | none => exact absurd (List.mem_map_of_mem ha) (attribute?_eq_none_iff.1 hb)
  | some b =>
    rw [List.inj_on_of_nodup_map e.nodup_names (mem_of_attribute? hb) ha (name_of_attribute? hb)]

theorem hasColumn_iff {e : Entity} {name : String} :
    e.hasColumn name ↔ ∃ a ∈ e.attributes, a.name = name ∧ ∃ t, a.kind = .basic t := by
  have htype (a : Attribute) : (∃ t, a.columnType? = some t) ↔ ∃ t, a.kind = .basic t := by
    cases h : a.kind <;> simp [Attribute.columnType?, h]
  simp only [hasColumn, Option.isSome_iff_exists, Option.bind_eq_some_iff,
    attribute?_eq_some_iff]
  rw [exists_comm]
  simp only [exists_and_left, and_assoc, htype]

/-! ### Schemas and their definitions -/

/-- The schema with some attributes whose names are different. -/
def ofAttributes (name : String) (primaryKey : Option String) (embeddable : Bool)
    (as : List Attribute) (h : (as.map (·.name)).Nodup) : Entity :=
  ⟨name, primaryKey, embeddable, as, (as.map (·.name)).zipIdx, rfl, h⟩

/-- The first of a list of definitions adds an attribute that is not there yet. -/
theorem declareAll_cons_eq_ok_iff {e e' : Entity} {d : Attribute.Definition}
    {ds : List Attribute.Definition} :
    e.declareAll (d :: ds) = .ok e' ↔
      ∃ a, d.toAttribute = .ok a ∧ ∃ h : e.index? a.name = none,
        declareAll (e.append a h) ds = .ok e' := by
  rw [declareAll]
  cases hd : d.toAttribute with
  | error defect => simp
  | ok a =>
    simp only [Except.ok.injEq, exists_eq_left']
    cases hp : e.push? a with
    | none =>
      refine iff_of_false (fun hds => by cases hds) ?_
      rintro ⟨h, -⟩
      rw [push?_eq_some_iff.2 ⟨h, rfl⟩] at hp
      cases hp
    | some e₁ =>
      obtain ⟨h, rfl⟩ := push?_eq_some_iff.1 hp
      constructor
      · intro hds
        exact ⟨h, hds⟩
      · rintro ⟨_, hds⟩
        exact hds

/-- The attributes of a list of definitions are added in order, if no name comes twice. -/
theorem declareAll_eq_ok_iff {e e' : Entity} {ds : List Attribute.Definition} :
    e.declareAll ds = .ok e' ↔
      ∃ as, List.Forall₂ (fun d a => d.toAttribute = .ok a) ds as ∧
        ∃ h, e' = ofAttributes e.name e.primaryKey e.embeddable (e.attributes ++ as) h := by
  induction ds generalizing e with
  | nil =>
    have hsame : e = ofAttributes e.name e.primaryKey e.embeddable e.attributes e.nodup_names :=
      ext_of_attributes rfl rfl rfl rfl
    simp [declareAll, ← hsame, e.nodup_names, eq_comm (a := e)]
  | cons d ds ih =>
    have happend (a : Attribute) (h : e.index? a.name = none) (as : List Attribute) :
        (e.append a h).attributes ++ as = e.attributes ++ a :: as :=
      (List.append_cons e.attributes a as).symm
    rw [declareAll_cons_eq_ok_iff]
    constructor
    · rintro ⟨a, ha, hnew, h⟩
      obtain ⟨as, has, he'⟩ := ih.1 h
      rw [happend] at he'
      exact ⟨a :: as, .cons ha has, he'⟩
    · rintro ⟨_, has, he'⟩
      obtain ⟨a, as, ha, hrest, rfl⟩ := List.forall₂_cons_left_iff.1 has
      have hnew : e.index? a.name = none := by
        obtain ⟨hnames, -⟩ := he'
        rw [List.map_append, List.map_cons] at hnames
        rw [index?_eq_none_iff]
        exact fun hmem => (List.nodup_append.1 hnames).2.2 _ hmem _ List.mem_cons_self rfl
      refine ⟨a, ha, hnew, ih.2 ⟨as, hrest, ?_⟩⟩
      rw [happend]
      exact he'

/-- A definition stands for a schema if its attributes can be added to an empty one, and the primary
key is a column then. -/
theorem ofDefinition_eq_ok_iff_declareAll {d : Definition} {e : Entity} :
    ofDefinition d = .ok e ↔
      declareAll (ofAttributes d.name d.primaryKey d.embeddable [] .nil) d.attributes = .ok e ∧
        ∀ pk ∈ e.primaryKey, e.hasColumn pk := by
  rw [ofDefinition, Except.bind_eq_ok_iff]
  constructor
  · rintro ⟨e', he', h⟩
    split at h
    · rename_i hnone
      cases h
      exact ⟨he', by simp [hnone]⟩
    · rename_i pk hsome
      split at h
      · rename_i hcolumn
        cases h
        exact ⟨he', by simpa [hsome] using hcolumn⟩
      · cases h
  · rintro ⟨h, hpk⟩
    refine ⟨e, h, ?_⟩
    split
    · rfl
    · rename_i pk hsome
      rw [if_pos (hpk pk hsome)]
      rfl

/-- What a definition stands for: its attributes have different names, and the primary key is a
column. -/
theorem ofDefinition_eq_ok_iff {d : Definition} {e : Entity} :
    ofDefinition d = .ok e ↔
      ∃ as, List.Forall₂ (fun d a => d.toAttribute = .ok a) d.attributes as ∧
        (∃ h, e = ofAttributes d.name d.primaryKey d.embeddable as h) ∧
        ∀ pk ∈ e.primaryKey, e.hasColumn pk := by
  rw [ofDefinition_eq_ok_iff_declareAll, declareAll_eq_ok_iff]
  constructor
  · rintro ⟨⟨as, has, he⟩, hpk⟩
    exact ⟨as, has, he, hpk⟩
  · rintro ⟨as, has, he, hpk⟩
    exact ⟨⟨as, has, he⟩, hpk⟩

/-- Whether a definition can state a schema: each attribute by itself, and a primary key that is a
column. -/
structure Expressible (e : Entity) : Prop where
  attributes : ∀ a ∈ e.attributes, a.Expressible
  primaryKey : ∀ pk ∈ e.primaryKey, ∃ a ∈ e.attributes, a.name = pk ∧ ∃ t, a.kind = .basic t

/-- A schema survives exactly if it can be stated. -/
theorem ofDefinition_definition_iff {e : Entity} :
    ofDefinition e.definition = .ok e ↔ e.Expressible := by
  have hattributes : List.Forall₂ (fun d a => d.toAttribute = .ok a) e.definition.attributes
      e.attributes ↔ ∀ a ∈ e.attributes, a.Expressible := by
    rw [definition, List.forall₂_map_left_iff, List.forall₂_same]
    simp only [Attribute.toAttribute_definition_iff]
  have hprimaryKey : (∀ pk ∈ e.primaryKey, e.hasColumn pk) ↔
      ∀ pk ∈ e.primaryKey, ∃ a ∈ e.attributes, a.name = pk ∧ ∃ t, a.kind = .basic t :=
    forall₂_congr fun pk _ => hasColumn_iff
  rw [ofDefinition_eq_ok_iff, hprimaryKey]
  constructor
  · rintro ⟨as, has, ⟨_, hsame⟩, hpk⟩
    obtain rfl : e.attributes = as := congrArg Entity.attributes hsame
    exact ⟨hattributes.1 has, hpk⟩
  · rintro ⟨has, hpk⟩
    exact ⟨e.attributes, hattributes.2 has, ⟨e.nodup_names, ext_of_attributes rfl rfl rfl rfl⟩, hpk⟩

/-- A schema that a definition stands for can be stated. -/
theorem expressible_of_ofDefinition {d : Definition} {e : Entity} (h : ofDefinition d = .ok e) :
    e.Expressible := by
  obtain ⟨as, has, ⟨_, rfl⟩, hpk⟩ := ofDefinition_eq_ok_iff.1 h
  refine ⟨?_, fun pk hmem => hasColumn_iff.1 (hpk pk hmem)⟩
  exact Attribute.Definition.expressible_of_forall₂ has

/-- **The schemas that survive in definitions.** A built schema is what its definition stands for
exactly if the definition can state it, and each schema that a definition stands for is so. -/
theorem ofDefinition_definition :
    (∀ e : Entity, e.IsBuilt → (ofDefinition e.definition = .ok e ↔ e.Expressible)) ∧
    ∀ (d : Definition) (e : Entity), ofDefinition d = .ok e →
      e.Expressible ∧ ofDefinition e.definition = .ok e := by
  refine ⟨fun e _ => ofDefinition_definition_iff, fun d e h => ?_⟩
  have hexpressible := expressible_of_ofDefinition h
  exact ⟨hexpressible, ofDefinition_definition_iff.2 hexpressible⟩

/-- A city that is built in steps and that a definition with an alias stands for. With an
enumeration that has no constants it does not survive. -/
theorem ofDefinition_definition_city :
    let steps : List Step := [.withPrimaryKey "id", .basic "id" (.integer .int),
      .basic "place" (.foreign "Point"), .toMany "people" "Person"]
    let city := (entity "City").run steps
    let d : Definition := ⟨"City", some "id", false, [
      { Attribute.Definition.named "id" with type := some "integer" },
      { Attribute.Definition.named "place" with type := some "Point" },
      { Attribute.Definition.named "people" with
        association := some "Person", collection := true }]⟩
    let empty := (entity "City").run (steps ++ [.basic "kind" (.enumeration "Kind" [])])
    city.IsBuilt ∧ ofDefinition d = .ok city ∧ city.definition ≠ d ∧ city.Expressible ∧
      ofDefinition city.definition = .ok city ∧
      empty.IsBuilt ∧ ¬empty.Expressible ∧ ofDefinition empty.definition ≠ .ok empty := by
  intro steps city d empty
  obtain ⟨hbuilt, hstated⟩ := ofDefinition_definition
  have hcity : city.IsBuilt := ⟨_, steps, .inl rfl⟩
  have hempty : empty.IsBuilt := ⟨_, _, .inl rfl⟩
  have hd : ofDefinition d = .ok city := by decide
  obtain ⟨hexpressible, -⟩ := hstated d city hd
  have hlost : ¬empty.Expressible := by
    intro h
    have hkind := h.attributes ⟨"kind", .basic (.enumeration "Kind" [])⟩ (by decide)
    exact hkind _ rfl rfl
  exact ⟨hcity, hd, by decide, hexpressible, (hbuilt city hcity).2 hexpressible, hempty, hlost,
    fun h => hlost ((hbuilt empty hempty).1 h)⟩

/-- A foreign type with the name of a known one comes back as the known one. -/
example : ofDefinition ((entity "City").basic "name" (.foreign "string")).definition =
    .ok ((entity "City").basic "name" .text) := by decide

end Entity

end QueryFilter
