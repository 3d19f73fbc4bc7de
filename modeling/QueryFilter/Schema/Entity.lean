import QueryFilter.Schema.Attribute

/-!
# Entities

The attributes of an entity or of an embeddable type, each name once. An index beside the attributes
has the place of each of them, and it is the index that tells whether a name is in use, and where.
Adding an attribute whose name is in use replaces the old one in its place.
-/

namespace QueryFilter

/-- The schema of one type. An embeddable type lies in the rows of other types. The index has the
names of the attributes with their places, and no name comes twice. -/
structure Entity where
  name : String
  primaryKey : Option String
  embeddable : Bool
  attributes : List Attribute
  index : List (String × Nat)
  index_eq : index = (attributes.map (·.name)).zipIdx
  nodup_names : (attributes.map (·.name)).Nodup
  deriving DecidableEq, Repr

namespace Entity

/-- The attributes determine the index. -/
theorem ext_of_attributes {e e' : Entity} (hname : e.name = e'.name)
    (hkey : e.primaryKey = e'.primaryKey) (hembeddable : e.embeddable = e'.embeddable)
    (hattributes : e.attributes = e'.attributes) : e = e' := by
  have hindex : e.index = e'.index := by rw [e.index_eq, e'.index_eq, hattributes]
  cases e
  cases e'
  simp_all

/-- An entity without attributes. -/
def entity (name : String) : Entity where
  name := name
  primaryKey := none
  embeddable := false
  attributes := []
  index := []
  index_eq := rfl
  nodup_names := .nil

/-- An embeddable type without attributes. -/
def embeddableType (name : String) : Entity := { entity name with embeddable := true }

/-- Set the identifier. -/
def withPrimaryKey (e : Entity) (name : String) : Entity := { e with primaryKey := some name }

/-! ### Attributes by name -/

/-- The place of the attribute with a name. -/
def index? (e : Entity) (name : String) : Option Nat := e.index.lookup name

/-- The attribute with a name. -/
def attribute? (e : Entity) (name : String) : Option Attribute :=
  (e.index? name).bind fun i => e.attributes[i]?

/-- Among names with their places, counted from `k` on, the first place is found. -/
theorem lookup_zipIdx (as : List Attribute) (name : String) (k : Nat) :
    ((as.map (·.name)).zipIdx k).lookup name =
      (as.findIdx? (·.name == name)).map (· + k) := by
  induction as generalizing k with
  | nil => rfl
  | cons a as ih =>
    rw [List.map_cons, List.zipIdx_cons, List.lookup_cons, List.findIdx?_cons, ih]
    by_cases h : a.name = name
    · simp [h]
    · have hne : (name == a.name) = false := beq_false_of_ne (Ne.symm h)
      simp [h, hne, Function.comp_def, Nat.add_assoc, Nat.add_comm 1 k]

/-- The index gives the first place of a name. -/
theorem index?_eq_findIdx? (e : Entity) (name : String) :
    e.index? name = e.attributes.findIdx? (·.name == name) := by
  rw [index?, e.index_eq, lookup_zipIdx]
  exact Option.map_id'

/-- Hence an attribute is found as it is by a search through the attributes. -/
theorem attribute?_eq_find? (e : Entity) (name : String) :
    e.attribute? name = e.attributes.find? (·.name == name) := by
  rw [attribute?, index?_eq_findIdx?, List.find?_eq_bind_findIdx?_getElem?]

/-- A name has a place exactly if the attribute there has the name. -/
theorem index?_eq_some_iff {e : Entity} {name : String} {i : Nat} :
    e.index? name = some i ↔ ∃ a, e.attributes[i]? = some a ∧ a.name = name := by
  rw [index?_eq_findIdx?]
  constructor
  · intro h
    obtain ⟨hi, hname, -⟩ := List.findIdx?_eq_some_iff_getElem.1 h
    exact ⟨e.attributes[i], List.getElem?_eq_getElem hi, by simpa using hname⟩
  · rintro ⟨a, ha, hname⟩
    obtain ⟨hi, rfl⟩ := List.getElem?_eq_some_iff.1 ha
    refine List.findIdx?_eq_some_iff_getElem.2 ⟨hi, by simpa using hname, fun j hji => ?_⟩
    -- no earlier attribute has the name
    have hne := List.pairwise_iff_getElem.1 e.nodup_names j i
      (by rw [List.length_map]; omega) (by rwa [List.length_map]) hji
    rw [List.getElem_map, List.getElem_map, hname] at hne
    simpa using hne

theorem mem_of_attribute? {e : Entity} {name : String} {a : Attribute}
    (h : e.attribute? name = some a) : a ∈ e.attributes :=
  List.mem_of_find?_eq_some ((e.attribute?_eq_find? name).symm.trans h)

theorem name_of_attribute? {e : Entity} {name : String} {a : Attribute}
    (h : e.attribute? name = some a) : a.name = name := by
  simpa using List.find?_some ((e.attribute?_eq_find? name).symm.trans h)

theorem index?_eq_none_iff {e : Entity} {name : String} :
    e.index? name = none ↔ name ∉ e.attributes.map (·.name) := by
  simp [index?_eq_findIdx?, List.findIdx?_eq_none_iff]

/-! ### Adding attributes -/

/-- An attribute in the place of the one with its name leaves the names as they are. -/
theorem map_name_set {e : Entity} {a : Attribute} {i : Nat} (h : e.index? a.name = some i) :
    (e.attributes.set i a).map (·.name) = e.attributes.map (·.name) := by
  obtain ⟨b, hb, hname⟩ := index?_eq_some_iff.1 h
  obtain ⟨hi, rfl⟩ := List.getElem?_eq_some_iff.1 hb
  have hi' : i < (e.attributes.map (·.name)).length := by rwa [List.length_map]
  have hold : (e.attributes.map (·.name))[i] = a.name := by rw [List.getElem_map, hname]
  rw [List.map_set, ← hold, List.set_getElem_self hi']

/-- Put an attribute into the place of the one with its name. -/
def replace (e : Entity) (a : Attribute) (i : Nat) (h : e.index? a.name = some i) : Entity :=
  { e with
    attributes := e.attributes.set i a
    index_eq := by rw [map_name_set h, e.index_eq]
    nodup_names := by
      rw [map_name_set h]
      exact e.nodup_names }

/-- Add an attribute with a new name behind the others. -/
def append (e : Entity) (a : Attribute) (h : e.index? a.name = none) : Entity :=
  { e with
    attributes := e.attributes ++ [a]
    index := e.index ++ [(a.name, e.attributes.length)]
    index_eq := by simp [e.index_eq, List.zipIdx_append]
    nodup_names := by
      rw [List.map_append, List.nodup_append]
      refine ⟨e.nodup_names, List.pairwise_singleton _ _, fun name hname other hother heq => ?_⟩
      obtain rfl : other = a.name := List.mem_singleton.1 hother
      exact index?_eq_none_iff.1 h (heq ▸ hname) }

/-- Add an attribute. -/
def withAttribute (e : Entity) (a : Attribute) : Entity :=
  match h : e.index? a.name with
  | some i => e.replace a i h
  | none => e.append a h

/-- Add an attribute with a new name; none when the name is in use. -/
def push? (e : Entity) (a : Attribute) : Option Entity :=
  match h : e.index? a.name with
  | some _ => none
  | none => some (e.append a h)

theorem withAttribute_of_index?_some {e : Entity} {a : Attribute} {i : Nat}
    (h : e.index? a.name = some i) : e.withAttribute a = e.replace a i h := by
  unfold withAttribute
  split
  · rename_i j hj
    obtain rfl : i = j := Option.some.inj (h.symm.trans hj)
    rfl
  · rename_i hnone
    rw [h] at hnone
    cases hnone

theorem withAttribute_of_index?_none {e : Entity} {a : Attribute}
    (h : e.index? a.name = none) : e.withAttribute a = e.append a h := by
  unfold withAttribute
  split
  · rename_i j hj
    rw [h] at hj
    cases hj
  · rfl

/-- An attribute is pushed exactly if its name is new. -/
theorem push?_eq_some_iff {e e' : Entity} {a : Attribute} :
    e.push? a = some e' ↔ ∃ h : e.index? a.name = none, e' = e.append a h := by
  unfold push?
  split
  · rename_i j hj
    simp [hj]
  · rename_i hnone
    simp [hnone, eq_comm]

/-- Only the name of the attribute that is added finds something new. -/
theorem attribute?_withAttribute (e : Entity) (a : Attribute) (name : String) :
    (e.withAttribute a).attribute? name = if a.name = name then some a else e.attribute? name := by
  cases h : e.index? a.name with
  | some i =>
    obtain ⟨b, hb, hbname⟩ := index?_eq_some_iff.1 h
    have hi : i < e.attributes.length := (List.getElem?_eq_some_iff.1 hb).1
    have hindex : (e.replace a i h).index? = e.index? := rfl
    rw [withAttribute_of_index?_some h, attribute?, attribute?, hindex, replace]
    dsimp only
    split
    · rename_i hname
      rw [← hname, h, Option.bind_some, List.getElem?_set_self hi]
    · rename_i hname
      cases hj : e.index? name with
      | none => rfl
      | some j =>
        -- another name has another place
        have hji : i ≠ j := by
          rintro rfl
          obtain ⟨c, hc, hcname⟩ := index?_eq_some_iff.1 hj
          obtain rfl : b = c := Option.some.inj (hb.symm.trans hc)
          exact hname (hbname.symm.trans hcname)
        rw [Option.bind_some, Option.bind_some, List.getElem?_set_ne hji]
  | none =>
    rw [withAttribute_of_index?_none h, attribute?_eq_find?, attribute?_eq_find?, append,
      List.find?_append]
    by_cases hname : a.name = name
    · have hnone : e.attributes.find? (·.name == name) = none := by
        rw [← attribute?_eq_find?, ← hname, attribute?, h]
        rfl
      simp [hnone, hname]
    · simp [hname]

/-- The names of the attributes: one that is in use keeps its place, and a new one comes last. -/
theorem map_name_withAttribute (e : Entity) (a : Attribute) :
    (e.withAttribute a).attributes.map (·.name) =
      if a.name ∈ e.attributes.map (·.name) then e.attributes.map (·.name)
      else e.attributes.map (·.name) ++ [a.name] := by
  cases h : e.index? a.name with
  | some i =>
    have hmem : a.name ∈ e.attributes.map (·.name) := by
      obtain ⟨b, hb, hname⟩ := index?_eq_some_iff.1 h
      exact hname ▸ List.mem_map_of_mem (List.mem_of_getElem? hb)
    rw [withAttribute_of_index?_some h, if_pos hmem]
    exact map_name_set h
  | none =>
    rw [withAttribute_of_index?_none h, if_neg (index?_eq_none_iff.1 h)]
    exact List.map_append

/-- Add a column. -/
def basic (e : Entity) (name : String) (type : ColumnType) : Entity :=
  e.withAttribute ⟨name, .basic type⟩

/-- Add a composite. -/
def embedded (e : Entity) (name schema : String) : Entity :=
  e.withAttribute ⟨name, .embedded schema⟩

/-- Add a link to one entity. -/
def toOne (e : Entity) (name target : String) : Entity :=
  e.withAttribute ⟨name, .association target false⟩

/-- Add a link to many entities. -/
def toMany (e : Entity) (name target : String) : Entity :=
  e.withAttribute ⟨name, .association target true⟩

end Entity

end QueryFilter
