import Mathlib.Data.List.Nodup
import Mathlib.Data.String.Basic
import QueryFilter.Proofs.Except
import QueryFilter.Schema.Registry

/-!
# Registries that were built

Building a registry puts the types in the order of their names, which are different, and checks
every link. So a type is found by its name, and the links of its attributes lead to types of the
right kind.

* `Registry.ofEntities_perm`: types with different names may be given in any order;
* `Registry.lookup?_eq_some_iff`: types in order are found by their names;
* `Registry.Sound`: what has been established when a registry is built;
* `Registry.ofEntities_eq_ok_iff`: when a registry is built;
* `Registry.sound_of_ofEntities`: a registry that was built is sound;
* `Registry.Sound.lookup?_name`: each of its types is found by its name;
* `Registry.Sound.exists_target?`: an association leads to an entity;
* `Registry.Sound.exists_embedded?`: a composite has an embeddable type.
-/

namespace QueryFilter.Registry

/-! ### The order of the types -/

theorem perm_of_insert? {e : Entity} {ts us : List Entity} (h : insert? e ts = some us) :
    us.Perm (e :: ts) := by
  induction ts generalizing us with
  | nil =>
    cases h
    exact .refl _
  | cons t ts ih =>
    unfold insert? at h
    split at h
    · cases h
    · split at h
      · cases h
        exact .refl _
      · obtain ⟨vs, hvs, rfl⟩ := Option.map_eq_some_iff.1 h
        exact ((ih hvs).cons t).trans (.swap e t ts)

/-- A type is inserted in its place, and only where its name is not taken. -/
theorem sorted_of_insert? {e : Entity} {ts us : List Entity}
    (hts : ts.Pairwise (·.name < ·.name)) (h : insert? e ts = some us) :
    us.Pairwise (·.name < ·.name) := by
  induction ts generalizing us with
  | nil =>
    cases h
    exact List.pairwise_singleton _ _
  | cons t ts ih =>
    obtain ⟨ht, hrest⟩ := List.pairwise_cons.1 hts
    unfold insert? at h
    split at h
    · cases h
    · rename_i hne
      split at h
      · rename_i hlt
        cases h
        refine List.pairwise_cons.2 ⟨fun x hx => ?_, hts⟩
        rcases List.mem_cons.1 hx with rfl | hx
        · exact hlt
        · exact hlt.trans (ht x hx)
      · rename_i hge
        obtain ⟨vs, hvs, rfl⟩ := Option.map_eq_some_iff.1 h
        have hlt : t.name < e.name := lt_of_le_of_ne (not_lt.1 hge) (Ne.symm hne)
        refine List.pairwise_cons.2 ⟨fun x hx => ?_, ih hrest hvs⟩
        rcases List.mem_cons.1 ((perm_of_insert? hvs).mem_iff.1 hx) with rfl | hx
        · exact hlt
        · exact ht x hx

theorem sorted_of_insertAll {es ts us : List Entity} (hts : ts.Pairwise (·.name < ·.name))
    (h : insertAll ts es = .ok us) : us.Pairwise (·.name < ·.name) := by
  induction es generalizing ts with
  | nil =>
    cases h
    exact hts
  | cons e es ih =>
    unfold insertAll at h
    split at h
    · exact ih (sorted_of_insert? hts ‹_›) h
    · cases h

/-- A type is refused only if its name is taken. -/
theorem exists_of_insert?_none {e : Entity} {ts : List Entity} (h : insert? e ts = none) :
    ∃ t ∈ ts, t.name = e.name := by
  induction ts with
  | nil => cases h
  | cons t ts ih =>
    unfold insert? at h
    split at h
    · exact ⟨t, List.mem_cons_self, Eq.symm ‹_›⟩
    · split at h
      · cases h
      · obtain ⟨u, hu, hname⟩ := ih (Option.map_eq_none_iff.1 h)
        exact ⟨u, List.mem_cons_of_mem t hu, hname⟩

/-- What has been inserted is there, and nothing else. -/
theorem perm_of_insertAll {es ts us : List Entity} (h : insertAll ts es = .ok us) :
    us.Perm (ts ++ es) := by
  induction es generalizing ts with
  | nil =>
    cases h
    rw [List.append_nil]
  | cons e es ih =>
    unfold insertAll at h
    split at h
    · rename_i vs hvs
      exact (ih h).trans (((perm_of_insert? hvs).append_right es).trans List.perm_middle.symm)
    · cases h

/-- Types are refused only if a name repeats. -/
theorem exists_of_insertAll_error {es ts : List Entity} {err : SchemaError}
    (h : insertAll ts es = .error err) :
    ∃ name, 2 ≤ ((ts ++ es).map (·.name)).count name ∧ err = .duplicateType name := by
  induction es generalizing ts with
  | nil => cases h
  | cons e es ih =>
    have hmiddle : (ts ++ e :: es).Perm (e :: ts ++ es) := List.perm_middle
    unfold insertAll at h
    split at h
    · rename_i vs hvs
      obtain ⟨name, hcount, rfl⟩ := ih h
      have hperm := (((perm_of_insert? hvs).append_right es).trans hmiddle.symm).map (·.name)
      exact ⟨name, hperm.count_eq name ▸ hcount, rfl⟩
    · rename_i hnone
      cases h
      obtain ⟨t, ht, hname⟩ := exists_of_insert?_none hnone
      have hmem : e.name ∈ (ts ++ es).map (·.name) :=
        List.mem_map.2 ⟨t, List.mem_append_left es ht, hname⟩
      refine ⟨e.name, ?_, rfl⟩
      rw [(hmiddle.map (·.name)).count_eq, List.cons_append, List.map_cons, List.count_cons_self]
      exact Nat.succ_le_succ (List.count_pos_iff.2 hmem)

/-- Types with different names are all inserted. -/
theorem exists_insertAll {es ts : List Entity} (h : ((ts ++ es).map (·.name)).Nodup) :
    ∃ us, insertAll ts es = .ok us ∧ us.Perm (ts ++ es) := by
  cases hi : insertAll ts es with
  | ok us => exact ⟨us, rfl, perm_of_insertAll hi⟩
  | error err =>
    obtain ⟨name, hcount, -⟩ := exists_of_insertAll_error hi
    exact absurd (List.nodup_iff_count_le_one.1 h name) (by omega)

/-- Types in the order of their names are known from what they are. -/
theorem eq_of_perm_of_sorted {ts us : List Entity} (h : ts.Perm us)
    (hts : ts.Pairwise (·.name < ·.name)) (hus : us.Pairwise (·.name < ·.name)) : ts = us :=
  h.eq_of_pairwise (fun _ _ _ _ hlt hgt => absurd hlt hgt.not_gt) hts hus

/-- Types in the order of their names have different names. -/
theorem nodup_names_of_sorted {ts : List Entity} (h : ts.Pairwise (·.name < ·.name)) :
    (ts.map (·.name)).Nodup :=
  List.pairwise_map.2 (h.imp fun hlt => hlt.ne)

/-- The order in which types with different names are given does not matter. -/
theorem ofEntities_perm {es ds : List Entity} (h : es.Perm ds)
    (hnames : (es.map (·.name)).Nodup) : ofEntities es = ofEntities ds := by
  obtain ⟨ts, hts, htperm⟩ := @exists_insertAll es [] hnames
  obtain ⟨us, hus, huperm⟩ := @exists_insertAll ds [] ((h.map (·.name)).nodup_iff.1 hnames)
  have heq : ts = us := eq_of_perm_of_sorted (htperm.trans (h.trans huperm.symm))
    (sorted_of_insertAll .nil hts) (sorted_of_insertAll .nil hus)
  rw [ofEntities, ofEntities, hts, hus, heq]

/-! ### Types by name -/

variable {r : Registry}

/-- Types in the order of their names are found by their names. -/
theorem lookup?_eq_some_iff (h : r.types.Pairwise (·.name < ·.name)) {name : String} {e : Entity} :
    r.lookup? name = some e ↔ e ∈ r.types ∧ e.name = name := by
  refine ⟨fun he => ⟨mem_of_lookup? he, name_of_lookup? he⟩, ?_⟩
  rintro ⟨he, rfl⟩
  obtain ⟨before, after, htypes⟩ := List.append_of_mem he
  rw [htypes] at h
  refine List.find?_eq_some_iff_append.2 ⟨beq_self_eq_true _, before, after, htypes, ?_⟩
  intro t ht
  have hlt : t.name < e.name := (List.pairwise_append.1 h).2.2 t ht e List.mem_cons_self
  simpa using hlt.ne

theorem find_eq_ok_iff {name : String} {type : Entity} :
    r.find name = .ok type ↔ r.lookup? name = some type := by
  unfold find
  cases r.lookup? name <;> simp

/-! ### Sound registries -/

/-- The types of a registry are in the order of their names, no two of which are equal, and no
link is wrong. -/
structure Sound (r : Registry) : Prop where
  sorted : r.types.Pairwise (·.name < ·.name)
  linked : ∀ e ∈ r.types, ∀ a ∈ e.attributes, r.linkDefect? a = none

/-- A registry is built from the types in order, if no link among them is wrong. -/
theorem ofEntities_eq_ok_iff {es : List Entity} :
    ofEntities es = .ok r ↔
      insertAll [] es = .ok r.types ∧
        ∀ e ∈ r.types, ∀ a ∈ e.attributes, r.linkDefect? a = none := by
  have hlinked (types : List Entity) :
      types.findSome? (Registry.typeError? ⟨types⟩) = none ↔
        ∀ e ∈ types, ∀ a ∈ e.attributes, Registry.linkDefect? ⟨types⟩ a = none := by
    simp only [List.findSome?_eq_none_iff, typeError?, Option.map_eq_none_iff]
  rw [ofEntities, Except.bind_eq_ok_iff]
  constructor
  · rintro ⟨types, htypes, h⟩
    dsimp only at h
    split at h
    · cases h
    · rename_i hnone
      cases h
      exact ⟨htypes, (hlinked types).1 hnone⟩
  · rintro ⟨htypes, h⟩
    refine ⟨r.types, htypes, ?_⟩
    dsimp only
    rw [(hlinked r.types).2 h]
    rfl

/-- A registry that was built is sound. -/
theorem sound_of_ofEntities {es : List Entity} (h : ofEntities es = .ok r) : r.Sound := by
  obtain ⟨htypes, hlinked⟩ := ofEntities_eq_ok_iff.1 h
  exact ⟨sorted_of_insertAll .nil htypes, hlinked⟩

/-- A type of a sound registry is found by its name. -/
theorem Sound.lookup?_name (h : r.Sound) {e : Entity} (he : e ∈ r.types) :
    r.lookup? e.name = some e :=
  (lookup?_eq_some_iff h.sorted).2 ⟨he, rfl⟩

/-- The link of an association is to an entity of the registry. -/
theorem Sound.exists_target? (h : r.Sound) {e : Entity} (he : e ∈ r.types) {a : Attribute}
    (ha : a ∈ e.attributes) {target : String} {many : Bool}
    (hk : a.kind = .association target many) :
    ∃ next, r.catalog.target? e a = some next ∧ r.lookup? target = some next ∧
      next.embeddable = false := by
  have htarget : r.catalog.target? e a = r.lookup? target := by
    simp [catalog, Catalog.ofLookup, hk]
  have hdefect := h.linked e he a ha
  simp only [linkDefect?, hk] at hdefect
  rw [htarget]
  cases hl : r.lookup? target with
  | none => simp [hl] at hdefect
  | some next => exact ⟨next, rfl, rfl, by simpa [hl] using hdefect⟩

/-- The type of a composite is an embeddable one of the registry. -/
theorem Sound.exists_embedded? (h : r.Sound) {e : Entity} (he : e ∈ r.types) {a : Attribute}
    (ha : a ∈ e.attributes) {schema : String} (hk : a.kind = .embedded schema) :
    ∃ next, r.catalog.embedded? e a = some next ∧ r.lookup? schema = some next ∧
      next.embeddable = true := by
  have hschema : r.catalog.embedded? e a = r.lookup? schema := by
    simp [catalog, Catalog.ofLookup, hk]
  have hdefect := h.linked e he a ha
  simp only [linkDefect?, hk] at hdefect
  rw [hschema]
  cases hl : r.lookup? schema with
  | none => simp [hl] at hdefect
  | some next => exact ⟨next, rfl, rfl, by simpa [hl] using hdefect⟩

end QueryFilter.Registry
