import QueryFilter.Proofs.Registry
import QueryFilter.Proofs.Walk

/-!
# Which registries are built

A registry is built from types whose links lead to types among them, of the right kind. Links may
lead round in circles, so they are checked when all types are there. The names are compared while
the types come in, and the links in the order of the names, so that only the former can depend on
the order in which the types are given.

* `Attribute.LeadsInto`: whether the link or the composite of an attribute is among some types;
* `Registry.linkDefect?_eq_none_iff`: this is what is checked;
* `Registry.RefusesName`: the types are refused for a name that repeats;
* `Registry.ofEntities_linked`: which registries are built, what is found in them, and what is the
  same for every order.
-/

namespace QueryFilter

/-- Whether an attribute leads to one of some types: an association to an entity, and a composite to
an embeddable type. -/
def Attribute.LeadsInto (types : List Entity) (a : Attribute) : Prop :=
  match a.kind with
  | .basic _ => True
  | .embedded schema => ∃ t ∈ types, t.name = schema ∧ t.embeddable = true
  | .association target _ => ∃ t ∈ types, t.name = target ∧ t.embeddable = false

namespace Registry

variable {r : Registry} {es ds : List Entity}

/-- The link of an attribute has no defect exactly if it leads to a type of the registry. -/
theorem linkDefect?_eq_none_iff (hr : r.types.Pairwise (·.name < ·.name)) {a : Attribute} :
    r.linkDefect? a = none ↔ a.LeadsInto r.types := by
  have hfound (name : String) (b : Bool) :
      (∃ t ∈ r.types, t.name = name ∧ t.embeddable = b) ↔
        ∃ t, r.lookup? name = some t ∧ t.embeddable = b := by
    simp only [lookup?_eq_some_iff hr, and_assoc]
  unfold linkDefect? Attribute.LeadsInto
  cases a.kind with
  | basic t => simp
  | embedded schema =>
    dsimp only
    rw [hfound]
    cases r.lookup? schema <;> simp
  | association target many =>
    dsimp only
    rw [hfound]
    cases r.lookup? target <;> simp

theorem leadsInto_perm (h : es.Perm ds) {a : Attribute} : a.LeadsInto es ↔ a.LeadsInto ds := by
  unfold Attribute.LeadsInto
  cases a.kind with
  | basic t => rfl
  | embedded schema => simp only [h.mem_iff]
  | association target many => simp only [h.mem_iff]

/-- What a registry is built from is in it, with different names, and all links lead into it. -/
theorem of_ofEntities (h : ofEntities es = .ok r) :
    r.types.Perm es ∧ r.types.Pairwise (·.name < ·.name) ∧
      ∀ e ∈ r.types, ∀ a ∈ e.attributes, a.LeadsInto r.types := by
  obtain ⟨htypes, hlinked⟩ := ofEntities_eq_ok_iff.1 h
  have hsorted : r.types.Pairwise (·.name < ·.name) := sorted_of_insertAll .nil htypes
  exact ⟨perm_of_insertAll htypes, hsorted,
    fun e he a ha => (linkDefect?_eq_none_iff hsorted).1 (hlinked e he a ha)⟩

/-- A registry is built exactly from types with different names that lead to each other. -/
theorem exists_ofEntities_iff :
    (∃ r, ofEntities es = .ok r) ↔
      (es.map (·.name)).Nodup ∧ ∀ e ∈ es, ∀ a ∈ e.attributes, a.LeadsInto es := by
  constructor
  · rintro ⟨r, h⟩
    obtain ⟨hperm, hsorted, hlinked⟩ := of_ofEntities h
    have hnames := (hperm.map (·.name)).nodup_iff.1 (nodup_names_of_sorted hsorted)
    refine ⟨hnames, fun e he a ha => ?_⟩
    exact (leadsInto_perm hperm).1 (hlinked e (hperm.mem_iff.2 he) a ha)
  · rintro ⟨hnames, hlinked⟩
    obtain ⟨types, htypes, hperm⟩ := @exists_insertAll es [] hnames
    have hsorted : types.Pairwise (·.name < ·.name) := sorted_of_insertAll .nil htypes
    refine ⟨⟨types⟩, ofEntities_eq_ok_iff.2 ⟨htypes, fun e he a ha => ?_⟩⟩
    refine (linkDefect?_eq_none_iff hsorted).2 ((leadsInto_perm hperm).2 ?_)
    exact hlinked e (hperm.mem_iff.1 he) a ha

/-- Whether some types are refused for a name that is that of two of them. -/
def RefusesName (es : List Entity) : Prop :=
  ∃ name, 2 ≤ (es.map (·.name)).count name ∧ ofEntities es = .error (.duplicateType name)

/-- Types with a name that repeats are refused for such a name, whatever their links are. -/
theorem refusesName_of_not_nodup (h : ¬(es.map (·.name)).Nodup) : RefusesName es := by
  cases hi : insertAll [] es with
  | ok types =>
    have hnames := nodup_names_of_sorted (sorted_of_insertAll .nil hi)
    exact absurd (((perm_of_insertAll hi).map (·.name)).nodup_iff.1 hnames) h
  | error err =>
    obtain ⟨name, hcount, rfl⟩ := exists_of_insertAll_error hi
    exact ⟨name, hcount, by rw [ofEntities, hi]; rfl⟩

/-- **Which registries are built.** A registry is built exactly from types with different names
whose associations lead to entities, and whose composites lead to embeddable types, among them. A
type is then found by its name, and the names are in order. Types that are given in another order
have the same registry, or fail with the same error; if a name repeats, either order fails for such
a name. -/
theorem ofEntities_linked (es : List Entity) :
    ((∃ r, ofEntities es = .ok r) ↔
      (es.map (·.name)).Nodup ∧ ∀ e ∈ es, ∀ a ∈ e.attributes, a.LeadsInto es) ∧
    (∀ r, ofEntities es = .ok r →
      (∀ name e, r.find name = .ok e ↔ e ∈ es ∧ e.name = name) ∧
      (∀ name ∉ es.map (·.name), r.find name = .error (.unknownType name)) ∧
      r.typeNames.Perm (es.map (·.name)) ∧ r.typeNames.Pairwise (· < ·)) ∧
    ∀ ds, es.Perm ds →
      ((es.map (·.name)).Nodup → ofEntities ds = ofEntities es) ∧
      (¬(es.map (·.name)).Nodup → RefusesName es ∧ RefusesName ds) := by
  refine ⟨exists_ofEntities_iff, fun r hr => ?_,
    fun ds hperm => ⟨fun hnames => ?_, fun hrepeats => ?_⟩⟩
  · obtain ⟨hperm, hsorted, -⟩ := of_ofEntities hr
    have hfind (name : String) (e : Entity) : r.find name = .ok e ↔ e ∈ es ∧ e.name = name := by
      rw [find_eq_ok_iff, lookup?_eq_some_iff hsorted, hperm.mem_iff]
    refine ⟨hfind, fun name hname => ?_, hperm.map _, List.pairwise_map.2 hsorted⟩
    cases hl : r.lookup? name with
    | none => rw [find, hl]
    | some e =>
      obtain ⟨he, hen⟩ := (hfind name e).1 (find_eq_ok_iff.2 hl)
      exact absurd (List.mem_map.2 ⟨e, he, hen⟩) hname
  · exact (ofEntities_perm hperm hnames).symm
  · exact ⟨refusesName_of_not_nodup hrepeats,
      refusesName_of_not_nodup (mt (hperm.map (·.name)).nodup_iff.2 hrepeats)⟩

/-- The registry of employees, from its types in two orders, and the same types with another type of
the same name. -/
theorem ofEntities_linked_staff :
    let es : List Entity := [.employee, .department, .address]
    let ds : List Entity := [.address, .employee, .department]
    let twice : List Entity := .entity "Address" :: es
    ofEntities es = .ok staff ∧ staff.find "Department" = .ok .department ∧
      staff.find "Street" = .error (.unknownType "Street") ∧
      staff.typeNames.Perm ["Employee", "Department", "Address"] ∧
      es.Perm ds ∧ (es.map (·.name)).Nodup ∧ ofEntities ds = .ok staff ∧
      ¬(twice.map (·.name)).Nodup ∧ RefusesName twice := by
  intro es ds twice
  have hbuilt : ofEntities es = .ok staff := by decide +kernel
  have hperm : es.Perm ds := by decide +kernel
  have hnames : (es.map (·.name)).Nodup := by decide
  have htwice : ¬(twice.map (·.name)).Nodup := by decide
  obtain ⟨-, hresult, horder⟩ := ofEntities_linked es
  obtain ⟨hfind, hunknown, htypes, -⟩ := hresult staff hbuilt
  obtain ⟨-, -, hrefused⟩ := ofEntities_linked twice
  exact ⟨hbuilt, (hfind "Department" .department).2 (by decide), hunknown "Street" (by decide),
    htypes, hperm, hnames, ((horder ds hperm).1 hnames).trans hbuilt, htwice,
    ((hrefused twice (.refl _)).2 htwice).1⟩

end Registry

end QueryFilter
