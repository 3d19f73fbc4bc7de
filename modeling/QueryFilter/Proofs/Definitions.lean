import QueryFilter.Proofs.JsonText
import QueryFilter.Schema.Loader

/-!
# Definitions in files

A definition that is written as a JSON object is read back as it was: what is left out has its
default, and no member stands in the place of another.

* `Draft.exists_record?`: an object with some of the members of a record is read as this record.
* `Entity.Definition.ofText?_pretty`: the indented text of a definition is read as the definition.
-/

namespace QueryFilter

namespace Json

/-! ### Records -/

/-- The members of a record that are not left out. -/
def present (parts : List (String × Option Json)) : List (String × Json) :=
  parts.filterMap fun p => p.2.map (Prod.mk p.1)

theorem present_cons (key : String) (v : Option Json) (parts : List (String × Option Json)) :
    present ((key, v) :: parts) = v.toList.map (Prod.mk key) ++ present parts := by
  cases v <;> rfl

theorem optional_eq (key : String) (v : Option String) :
    optional key v = (v.map Json.string).toList.map (Prod.mk key) := by
  cases v <;> rfl

theorem keys_present_sublist (parts : List (String × Option Json)) :
    ((present parts).map (·.1)).Sublist (parts.map (·.1)) := by
  induction parts with
  | nil => exact .slnil
  | cons p parts ih =>
    obtain ⟨key, v⟩ := p
    cases v with
    | none => exact ih.cons key
    | some v => exact ih.cons_cons key

/-- A member is found unless it is left out. -/
theorem lookup_present {parts : List (String × Option Json)} (hkeys : (parts.map (·.1)).Nodup)
    {key : String} {v : Option Json} (h : (key, v) ∈ parts) : (present parts).lookup key = v := by
  induction parts with
  | nil => cases h
  | cons q parts ih =>
    obtain ⟨key', w⟩ := q
    obtain ⟨hnew, hrest⟩ := List.nodup_cons.1 hkeys
    rcases List.mem_cons.1 h with hhead | htail
    · cases hhead
      cases v with
      | none =>
        refine List.lookup_eq_none_iff.2 fun m hm => bne_iff_ne.2 fun heq => hnew ?_
        rw [heq]
        exact (keys_present_sublist parts).subset (List.mem_map_of_mem hm)
      | some v => exact List.lookup_cons_self
    · have hne : (key == key') = false := by
        refine beq_false_of_ne ?_
        rintro rfl
        exact hnew (List.mem_map.2 ⟨_, htail, rfl⟩)
      rw [← ih hrest htail]
      cases w with
      | none => rfl
      | some w => exact (List.lookup_cons ..).trans (by rw [hne]; rfl)

/-- An object with some of the members of a record is read as this record. -/
theorem Draft.record?_ofJson {parts : List (String × Option Json)}
    (hkeys : (parts.map (·.1)).Nodup) :
    (ofJson (.object (present parts))).record? (parts.map (·.1)) =
      some ((present parts).map fun m => (m.1, ofJson m.2)) := by
  have hmem (m : String × Json) (hm : m ∈ present parts) : m.1 ∈ parts.map (·.1) :=
    (keys_present_sublist parts).subset (List.mem_map_of_mem hm)
  have hnodup : (((present parts).map fun m => (m.1, ofJson m.2)).map (·.1)).Nodup := by
    rw [List.map_map]
    exact hkeys.sublist (keys_present_sublist parts)
  have hnamed (ms : List (String × Json)) :
      (ofMembers ms).mapM (fun m => m.1.map fun k => (k, m.2)) =
        some (ms.map fun m => (m.1, ofJson m.2)) := by
    rw [ofMembers_eq_map]
    induction ms with
    | nil => rfl
    | cons m ms ih => simp [List.mapM_cons, ih]
  have hknown : ((present parts).map fun m => (m.1, ofJson m.2)).filter
      (fun m => m.1 ∈ parts.map (·.1)) = (present parts).map fun m => (m.1, ofJson m.2) := by
    refine List.filter_eq_self.2 fun m hm => ?_
    obtain ⟨n, hn, rfl⟩ := List.mem_map.1 hm
    exact decide_eq_true (hmem n hn)
  rw [ofJson, record?, hnamed, Option.bind_eq_bind, Option.bind_some, hknown, if_pos hnodup]

theorem numberless_present {parts : List (String × Option Json)}
    (h : ∀ p ∈ parts, ∀ v ∈ p.2, Numberless v) : Numberless (.object (present parts)) := by
  refine .object fun m hm => ?_
  obtain ⟨p, hp, hv⟩ := List.mem_filterMap.1 hm
  obtain ⟨v, hpart, rfl⟩ := Option.map_eq_some_iff.1 hv
  exact h p hp v hpart

theorem numberless_optional (o : Option String) : ∀ v ∈ o.map Json.string, Numberless v := by
  intro v hv
  obtain ⟨s, -, rfl⟩ := Option.map_eq_some_iff.1 hv
  exact .string s

/-- What a record that was read has under a key. -/
theorem Record.lookup_present {parts : List (String × Option Json)}
    (hkeys : (parts.map (·.1)).Nodup) {key : String} {v : Option Json} (h : (key, v) ∈ parts) :
    List.lookup key ((present parts).map fun m => (m.1, Draft.ofJson m.2)) =
      v.map Draft.ofJson := by
  rw [← Json.lookup_present hkeys h]
  induction present parts with
  | nil => rfl
  | cons m ms ih =>
    rw [List.map_cons, List.lookup_cons, ih]
    obtain ⟨k, w⟩ := m
    rw [List.lookup_cons]
    cases key == k <;> rfl

/-- An object with some of the members of a record is read, and what the record has under a key is
the member of the key. -/
theorem Draft.exists_record? {parts : List (String × Option Json)}
    (hkeys : (parts.map (·.1)).Nodup) :
    ∃ r : Record, (ofJson (.object (present parts))).record? (parts.map (·.1)) = some r ∧
      ∀ {key : String} {v : Option Json}, (key, v) ∈ parts →
        List.lookup key r = v.map ofJson :=
  ⟨_, record?_ofJson hkeys, Record.lookup_present hkeys⟩

/-- A list of items each of which is read back. -/
theorem Draft.list?_map {α : Type} {read : Draft → Option α} {write : α → Json} {xs : List α}
    (h : ∀ x ∈ xs, read (ofJson (write x)) = some x) :
    list? read (ofJson (.array (xs.map write))) = some xs := by
  rw [ofJson, list?, ofElements_eq_map, List.map_map]
  induction xs with
  | nil => rfl
  | cons x xs ih =>
    simp [List.mapM_cons, h x List.mem_cons_self, ih fun y hy => h y (List.mem_cons_of_mem x hy)]

/-- A text that may be left out. -/
theorem Record.get_optionalString {r : Record} {key : String} {o : Option String}
    (h : List.lookup key r = (o.map Json.string).map Draft.ofJson) :
    r.get key Draft.optionalString? none = some o := by
  rw [get, h]
  cases o <;> rfl

end Json

/-! ### Attributes -/

namespace Attribute.Definition

/-- The members of the object of a definition. -/
def parts (d : Definition) : List (String × Option Json) :=
  [("name", some (.string d.name)), ("type", d.type.map .string),
    ("constants", if d.constants.isEmpty then none else some (.array (d.constants.map .string))),
    ("enum_name", d.enumName.map .string), ("embedded", d.embedded.map .string),
    ("association", d.association.map .string),
    ("collection", if d.collection then some (.bool true) else none)]

theorem toJson_eq (d : Definition) : d.toJson = .object (Json.present d.parts) := by
  have hconstants (v : Json) (b : Bool) : (if b then [] else [("constants", v)]) =
      (if b then none else some v).toList.map (Prod.mk "constants") := by
    cases b <;> rfl
  have hcollection (b : Bool) : (if b then [("collection", Json.bool true)] else []) =
      (if b then some (.bool true) else none).toList.map (Prod.mk "collection") := by
    cases b <;> rfl
  simp only [toJson, parts, Json.present_cons, Json.optional_eq, hconstants, hcollection,
    List.append_assoc, List.cons_append]
  simp [Json.present]

theorem numberless_toJson (d : Definition) : d.toJson.Numberless := by
  rw [toJson_eq]
  refine Json.numberless_present ?_
  simp only [parts, List.forall_mem_cons]
  refine ⟨?_, Json.numberless_optional _, ?_, Json.numberless_optional _,
    Json.numberless_optional _, Json.numberless_optional _, ?_, nofun⟩
  · rintro v ⟨⟩
    exact .string d.name
  · intro v hv
    split at hv <;> cases hv
    refine .array fun x hx => ?_
    obtain ⟨s, -, rfl⟩ := List.mem_map.1 hx
    exact .string s
  · intro v hv
    split at hv <;> cases hv
    exact .bool true

/-- The object of a definition is read as the definition. -/
theorem ofDraft?_toJson (d : Definition) : ofDraft? (Json.Draft.ofJson d.toJson) = some d := by
  have hparts : d.parts.map (·.1) =
      ["name", "type", "constants", "enum_name", "embedded", "association", "collection"] := rfl
  have hkeys : (d.parts.map (·.1)).Nodup := by
    rw [hparts]
    decide
  obtain ⟨r, hread, hlookup⟩ := Json.Draft.exists_record? hkeys
  rw [← toJson_eq, hparts] at hread
  rw [ofDraft?, hread]
  have hoptional {key : String} {o : Option String} (h : (key, o.map .string) ∈ d.parts) :
      Json.Record.get r key Json.Draft.optionalString? none = some o :=
    Json.Record.get_optionalString (hlookup h)
  have hname : Json.Record.required r "name" Json.Draft.string? = some d.name := by
    rw [Json.Record.required, hlookup (v := some (.string d.name)) (by simp [parts])]
    rfl
  have htype : Json.Record.get r "type" Json.Draft.optionalString? none = some d.type :=
    hoptional (by simp [parts])
  have hconstants : Json.Record.get r "constants" (Json.Draft.list? Json.Draft.string?) [] =
      some d.constants := by
    rw [Json.Record.get, hlookup
      (v := if d.constants.isEmpty then none else some (.array (d.constants.map .string)))
      (by simp [parts])]
    cases d.constants with
    | nil => rfl
    | cons c cs => exact Json.Draft.list?_map fun _ _ => rfl
  have henum : Json.Record.get r "enum_name" Json.Draft.optionalString? none = some d.enumName :=
    hoptional (by simp [parts])
  have hembedded : Json.Record.get r "embedded" Json.Draft.optionalString? none =
      some d.embedded := hoptional (by simp [parts])
  have hassociation : Json.Record.get r "association" Json.Draft.optionalString? none =
      some d.association := hoptional (by simp [parts])
  have hcollection : Json.Record.get r "collection" Json.Draft.bool? false =
      some d.collection := by
    rw [Json.Record.get, hlookup (v := if d.collection then some (.bool true) else none)
      (by simp [parts])]
    cases d.collection <;> rfl
  simp [hname, htype, hconstants, henum, hembedded, hassociation, hcollection]

end Attribute.Definition

/-! ### Types -/

namespace Entity.Definition

/-- The members of the object of a definition. -/
def parts (d : Definition) : List (String × Option Json) :=
  [("name", some (.string d.name)), ("primary_key", d.primaryKey.map .string),
    ("embeddable", some (.bool d.embeddable)),
    ("attributes", some (.array (d.attributes.map Attribute.Definition.toJson)))]

theorem toJson_eq (d : Definition) : d.toJson = .object (Json.present d.parts) := by
  simp only [toJson, parts, Json.present_cons, Json.optional_eq, List.cons_append]
  simp [Json.present]

theorem numberless_toJson (d : Definition) : d.toJson.Numberless := by
  rw [toJson_eq]
  refine Json.numberless_present ?_
  simp only [parts, List.forall_mem_cons]
  refine ⟨?_, Json.numberless_optional _, ?_, ?_, nofun⟩
  · rintro v ⟨⟩
    exact .string d.name
  · rintro v ⟨⟩
    exact .bool d.embeddable
  · rintro v ⟨⟩
    refine .array fun x hx => ?_
    obtain ⟨a, -, rfl⟩ := List.mem_map.1 hx
    exact a.numberless_toJson

/-- The object of a definition is read as the definition. -/
theorem ofDraft?_toJson (d : Definition) : ofDraft? (Json.Draft.ofJson d.toJson) = some d := by
  have hparts : d.parts.map (·.1) = ["name", "primary_key", "embeddable", "attributes"] := rfl
  have hkeys : (d.parts.map (·.1)).Nodup := by
    rw [hparts]
    decide
  obtain ⟨r, hread, hlookup⟩ := Json.Draft.exists_record? hkeys
  rw [← toJson_eq, hparts] at hread
  rw [ofDraft?, hread]
  have hname : Json.Record.required r "name" Json.Draft.string? = some d.name := by
    rw [Json.Record.required, hlookup (v := some (.string d.name)) (by simp [parts])]
    rfl
  have hprimary : Json.Record.get r "primary_key" Json.Draft.optionalString? none =
      some d.primaryKey :=
    Json.Record.get_optionalString (hlookup (by simp [parts]))
  have hembeddable : Json.Record.get r "embeddable" Json.Draft.bool? false =
      some d.embeddable := by
    rw [Json.Record.get, hlookup (v := some (.bool d.embeddable)) (by simp [parts])]
    rfl
  have hattributes : Json.Record.required r "attributes"
      (Json.Draft.list? Attribute.Definition.ofDraft?) = some d.attributes := by
    rw [Json.Record.required, hlookup
      (v := some (.array (d.attributes.map Attribute.Definition.toJson))) (by simp [parts])]
    exact Json.Draft.list?_map fun a _ => a.ofDraft?_toJson
  simp [hname, hprimary, hembeddable, hattributes]

/-- **Definitions survive in files.** The indented text of a definition is read as the
definition. -/
theorem ofText?_pretty (d : Definition) : ofText? d.toJson.pretty = some d := by
  rw [ofText?, Json.Draft.read?_pretty d.numberless_toJson, Option.bind_eq_bind, Option.bind_some,
    ofDraft?_toJson]

end Entity.Definition

end QueryFilter
