import QueryFilter.Proofs.Attributes
import QueryFilter.Proofs.Building
import QueryFilter.Proofs.Counting

/-!
# Primary keys

The number of rows without duplicates is counted by the primary key of the root type. A definition
is refused unless its key is a column. The key of a schema that is built in steps is compared with
the attributes by nobody: not when it is set, since the column may come later, nor when another
attribute takes the place of the column, nor when the registry is built. So such a key is that of a
column exactly if a column is the latest addition under its name.

* `Entity.HasKeyColumn`: the primary key of a type is the name of a column;
* `Entity.Constructed.hasKeyColumn_iff`: which schemas have that, by what has been added to them;
* `Registry.exists_ofEntities_withKey_iff`: registries are built whatever the keys are;
* `Sql.CountsBy` and `Sql.countsBy_iff`: the queries that count by a key;
* `Registry.countsBy_column`: the queries that count by a column.
-/

namespace QueryFilter

/-! ### The column of a key -/

namespace Entity

/-- Whether the primary key of a type, if it has one, is the name of a column. -/
def HasKeyColumn (e : Entity) : Prop :=
  ∀ pk ∈ e.primaryKey, ∃ t, e.attribute? pk = some ⟨pk, .basic t⟩

variable {e : Entity}

theorem hasColumn_iff_attribute? {name : String} :
    e.hasColumn name ↔ ∃ t, e.attribute? name = some ⟨name, .basic t⟩ := by
  simp only [hasColumn_iff, attribute?_eq_some_iff]
  constructor
  · rintro ⟨⟨_, kind⟩, ha, rfl, t, rfl⟩
    exact ⟨t, ha, trivial⟩
  · rintro ⟨t, ha, -⟩
    exact ⟨_, ha, rfl, t, rfl⟩

/-- The key that a definition states is a column. -/
theorem hasKeyColumn_of_ofDefinition {d : Definition} (h : ofDefinition d = .ok e) :
    e.HasKeyColumn := fun pk hpk =>
  hasColumn_iff_attribute?.1 ((ofDefinition_eq_ok_iff_declareAll.1 h).2 pk hpk)

/-- However a schema is constructed, its key is a column exactly if the latest addition under the
name of the key is one. -/
theorem Constructed.hasKeyColumn_iff {added : List Attribute} (h : e.Constructed added) :
    e.HasKeyColumn ↔ ∀ pk ∈ e.primaryKey, ∃ t, IsLatest added pk ⟨pk, .basic t⟩ :=
  forall₂_congr fun pk _ => exists_congr fun t => h.tracks.latest pk ⟨pk, .basic t⟩

/-- The same type with another primary key, or with none. -/
def withKey (e : Entity) (key : Option String) : Entity := { e with primaryKey := key }

@[simp] theorem withKey_name (e : Entity) (key : Option String) : (e.withKey key).name = e.name :=
  rfl

@[simp] theorem withKey_embeddable (e : Entity) (key : Option String) :
    (e.withKey key).embeddable = e.embeddable := rfl

@[simp] theorem withKey_attributes (e : Entity) (key : Option String) :
    (e.withKey key).attributes = e.attributes := rfl

end Entity

/-! ### Keys in a registry -/

/-- The keys of the types have no influence on where an attribute may lead. -/
theorem Attribute.leadsInto_withKey_iff {es : List Entity} {key : Entity → Option String}
    {a : Attribute} : a.LeadsInto (es.map fun e => e.withKey (key e)) ↔ a.LeadsInto es := by
  unfold LeadsInto
  cases a.kind <;> simp

/-- Types with other keys are taken for a registry where they are taken with their own. -/
theorem Registry.exists_ofEntities_withKey_iff (es : List Entity) (key : Entity → Option String) :
    (∃ r, ofEntities (es.map fun e => e.withKey (key e)) = .ok r) ↔ ∃ r, ofEntities es = .ok r := by
  have hnames : (es.map fun e => e.withKey (key e)).map (·.name) = es.map (·.name) := by
    simp [Function.comp_def]
  rw [exists_ofEntities_iff, exists_ofEntities_iff, hnames]
  simp [Attribute.leadsInto_withKey_iff]

/-! ### Queries that count by a key -/

namespace Sql

/-- Whether a query counts different values of a column of the root type. -/
def CountsBy (q : Query) (pk : String) : Prop :=
  toText q = "SELECT COUNT(DISTINCT t0." ++ pk ++ ")" ++ clauses q

instance (q : Query) (pk : String) : Decidable (CountsBy q pk) :=
  inferInstanceAs (Decidable (_ = _))

theorem selection_eq_iff {q : Query} {pk : String} :
    selection q = "COUNT(DISTINCT t0." ++ pk ++ ")" ↔
      q.projection = .count ∧ q.isDistinct ∧ q.plan.primaryKey = some pk := by
  rw [selection, Query.isDistinct]
  cases q.projection with
  | rows => cases q.plan.distinct <;> simp [← String.toList_inj]
  | count =>
    cases q.plan.distinct with
    | false => simp [← String.toList_inj]
    | true => cases q.plan.primaryKey <;> simp [← String.toList_inj]

/-- The text of a query says what it counts. -/
theorem countsBy_iff {q : Query} {pk : String} :
    CountsBy q pk ↔ q.projection = .count ∧ q.isDistinct ∧ q.plan.primaryKey = some pk := by
  have hsplit : "SELECT COUNT(DISTINCT t0." = "SELECT " ++ "COUNT(DISTINCT t0." := rfl
  rw [← selection_eq_iff, CountsBy, toText_eq, hsplit, String.append_left_inj]
  simp only [String.append_assoc, String.append_right_inj]

end Sql

/-- **Counting by a column.** A registry is built whatever the primary keys are. In a registry, the
key of a type that comes from a definition is a column; the key of any other type is one exactly if
a column is the latest addition under its name. The rows of a type are counted by a key exactly if
this is the key of the type and there is a join over a link to many entities. So wherever rows are
counted by a key, the type has a column of the name, unless there is such a join and the latest
addition under the name is something else, or there is none. -/
theorem Registry.countsBy_column {es : List Entity} {r : Registry} (h : ofEntities es = .ok r) :
    (∀ key : Entity → Option String,
      ∃ r', ofEntities (es.map fun e => e.withKey (key e)) = .ok r') ∧
    (∀ e ∈ r.types, (∀ d, Entity.ofDefinition d = .ok e → e.HasKeyColumn) ∧
      ∀ added, e.Constructed added → (e.HasKeyColumn ↔
        ∀ pk ∈ e.primaryKey, ∃ t, Entity.IsLatest added pk ⟨pk, .basic t⟩)) ∧
    ∀ (config : Config), ∀ root ∈ r.types, ∀ (filter : List Expression) (q : Query),
      compileQuery r.catalog config root .count filter = .ok q →
      (∀ pk, Sql.CountsBy q pk ↔ root.primaryKey = some pk ∧ q.plan.JoinsMany r) ∧
      ((∀ pk, Sql.CountsBy q pk → ∃ t, root.attribute? pk = some ⟨pk, .basic t⟩) ↔
        (q.plan.JoinsMany r → root.HasKeyColumn)) := by
  refine ⟨fun key => (exists_ofEntities_withKey_iff es key).2 ⟨r, h⟩,
    fun e _ => ⟨fun d => Entity.hasKeyColumn_of_ofDefinition,
      fun added => Entity.Constructed.hasKeyColumn_iff⟩,
    fun config root hroot filter q hq => ?_⟩
  have hcount : q.projection = .count := projection_of_compileQuery hq
  have hkey : q.plan.primaryKey = root.primaryKey := primaryKey_of_compileQuery hq
  have hmany : q.isDistinct ↔ q.plan.JoinsMany r :=
    (sound_of_ofEntities h).isDistinct_iff hroot hq
  have hby (pk : String) : Sql.CountsBy q pk ↔ root.primaryKey = some pk ∧ q.plan.JoinsMany r := by
    rw [Sql.countsBy_iff, hmany, hkey, and_iff_right hcount, and_comm]
  refine ⟨hby, ?_⟩
  simp only [hby]
  constructor
  · intro hcolumn hjoins pk hpk
    exact hcolumn pk ⟨hpk, hjoins⟩
  · rintro hcolumn pk ⟨hpk, hjoins⟩
    exact hcolumn hjoins pk hpk

/-- Employees have a column for their key, so their number is counted by it where the filter goes
through the staff of their department. -/
theorem Registry.countsBy_column_employees :
    let filter : List Expression :=
      [.leaf "department.staff.id" (.single (.compare .equal) (.number (.int 7)))]
    let added : List Attribute := [⟨"id", .basic (.integer .long)⟩,
      ⟨"address", .embedded "Address"⟩, ⟨"department", .association "Department" false⟩]
    ofEntities [.employee, .department, .address] = .ok staff ∧ .employee ∈ staff.types ∧
    Entity.employee.Constructed added ∧ Entity.employee.HasKeyColumn ∧
    ∃ q, compileQuery staff.catalog {} .employee .count filter = .ok q ∧ Sql.CountsBy q "id" ∧
      ∀ pk, Sql.CountsBy q pk → ∃ t, Entity.employee.attribute? pk = some ⟨pk, .basic t⟩ := by
  intro filter added
  have hbuilt : ofEntities [.employee, .department, .address] = .ok staff := by decide +kernel
  have hemployee : Entity.employee ∈ staff.types := by decide
  have hadded : Entity.employee.Constructed added :=
    ((((Entity.Constructed.entity "Employee").step (.withPrimaryKey "id")).step
      (.basic "id" (.integer .long))).step (.embedded "address" "Address")).step
      (.toOne "department" "Department")
  obtain ⟨-, htypes, hqueries⟩ := countsBy_column hbuilt
  have hcolumn : Entity.employee.HasKeyColumn := by
    refine ((htypes _ hemployee).2 added hadded).2 ?_
    rintro _ ⟨⟩
    exact ⟨.integer .long, [], added.tail, rfl, rfl, by decide⟩
  obtain ⟨q, hq⟩ : ∃ q, compileQuery staff.catalog {} .employee .count filter = .ok q :=
    Except.exists_ok_of_isOk (by decide +kernel)
  have hby : Sql.CountsBy q "id" := by
    have hdecided : decide (Sql.CountsBy q "id") = true :=
      Except.eq_of_toOption_map (fun q => decide (Sql.CountsBy q "id")) hq (by decide +kernel)
    exact of_decide_eq_true hdecided
  exact ⟨hbuilt, hemployee, hadded, hcolumn, q, hq, hby,
    (hqueries {} _ hemployee filter q hq).2.2 fun _ => hcolumn⟩

/-- Parts that consist of parts, with a key that is set and never added. Their registry is built,
and where a filter goes through the parts of a part they are counted by the key. -/
theorem Registry.counts_by_missing_column :
    let part : Entity := (((Entity.entity "Part").withPrimaryKey "id").basic "name" .text).toMany
      "parts" "Part"
    let filter : List Expression :=
      [.leaf "parts.name" (.single (.compare .equal) (.string "wheel"))]
    part.IsBuilt ∧ part.primaryKey = some "id" ∧ part.attribute? "id" = none ∧
    ∃ r q, ofEntities [part] = .ok r ∧ part ∈ r.types ∧
      compileQuery r.catalog {} part .count filter = .ok q ∧
      Sql.toText q =
        "SELECT COUNT(DISTINCT t0.id) FROM Part t0 INNER JOIN t0.parts t1 WHERE t1.name = ?1" := by
  intro part filter
  let r : Registry := ⟨[part]⟩
  have hsteps : part.IsBuilt :=
    ⟨"Part", [.withPrimaryKey "id", .basic "name" .text, .toMany "parts" "Part"], .inl rfl⟩
  have hbuilt : ofEntities [part] = .ok r := by decide +kernel
  obtain ⟨q, hq⟩ : ∃ q, compileQuery r.catalog {} part .count filter = .ok q :=
    Except.exists_ok_of_isOk (by decide +kernel)
  refine ⟨hsteps, rfl, by decide, r, q, hbuilt, by decide, hq, ?_⟩
  exact Except.eq_of_toOption_map Sql.toText hq (by decide +kernel)

end QueryFilter
