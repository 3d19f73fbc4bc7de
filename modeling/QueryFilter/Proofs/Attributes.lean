import QueryFilter.Proofs.Builder
import QueryFilter.Proofs.Fields

/-!
# Attributes by name, after any construction

A schema comes from a definition or from an empty one, and steps add more attributes to it or put
them into the places of old ones. The list of the attributes and the index of their names are
updated in two ways, and they have to agree after any mixture of them.

* `Entity.Constructed`: the schemas with what has been added to them, in order;
* `Entity.IsLatest`: the last of the additions under a name;
* `Entity.Tracks`: what a schema keeps of its additions, and that one more addition keeps it;
* `Entity.attributes_of_constructed`: the attributes by name and by place.
-/

namespace QueryFilter.Entity

open Document (FirstUses distinctNames distinctNames_concat firstUses_distinctNames)

/-- The schemas that come from definitions and steps, with the attributes that have been added to
them, one after the other. -/
inductive Constructed : Entity → List Attribute → Prop
  | entity (name : String) : Constructed (entity name) []
  | embeddableType (name : String) : Constructed (embeddableType name) []
  | ofDefinition {d : Definition} {e : Entity} {as : List Attribute} :
    ofDefinition d = .ok e →
    List.Forall₂ (fun d a => d.toAttribute = .ok a) d.attributes as → Constructed e as
  | step {e : Entity} {added : List Attribute} (s : Step) :
    Constructed e added → Constructed (s.apply e) (added ++ s.added?.toList)

/-! ### The latest addition -/

/-- Whether an attribute is the last one that was added under a name. -/
def IsLatest (added : List Attribute) (name : String) (a : Attribute) : Prop :=
  ∃ before after, added = before ++ a :: after ∧ a.name = name ∧ ∀ b ∈ after, b.name ≠ name

/-- One more addition is the latest one under its own name, and under no other. -/
theorem isLatest_concat_iff {added : List Attribute} {a b : Attribute} {name : String} :
    IsLatest (added ++ [b]) name a ↔ if b.name = name then a = b else IsLatest added name a := by
  constructor
  · rintro ⟨before, after, hsplit, hname, hafter⟩
    rcases List.eq_nil_or_concat after with rfl | ⟨after, c, rfl⟩
    · obtain ⟨-, hab⟩ := List.append_inj' hsplit rfl
      obtain rfl : b = a := List.head_eq_of_cons_eq hab
      rw [if_pos hname]
    · rw [List.concat_eq_append, ← List.cons_append, ← List.append_assoc] at hsplit
      obtain ⟨rfl, hbc⟩ := List.append_inj' hsplit rfl
      obtain rfl : b = c := List.head_eq_of_cons_eq hbc
      rw [if_neg (hafter b (by simp))]
      exact ⟨before, after, rfl, hname, fun d hd => hafter d (by simp [hd])⟩
  · split
    · rintro rfl
      rename_i hname
      exact ⟨added, [], rfl, hname, nofun⟩
    · rintro ⟨before, after, rfl, hname, hafter⟩
      rename_i hne
      refine ⟨before, after ++ [b], by simp, hname, fun c hc => ?_⟩
      rcases List.mem_append.1 hc with hc | hc
      · exact hafter c hc
      · rwa [List.mem_singleton.1 hc]

/-- A name under which something was added has a latest addition. -/
theorem exists_isLatest_iff {added : List Attribute} {name : String} :
    (∃ a, IsLatest added name a) ↔ ∃ a ∈ added, a.name = name := by
  constructor
  · rintro ⟨a, before, after, rfl, hname, -⟩
    exact ⟨a, by simp, hname⟩
  · intro h
    induction added using List.reverseRecOn with
    | nil => simp at h
    | append_singleton added b ih =>
      simp only [isLatest_concat_iff]
      by_cases hname : b.name = name
      · exact ⟨b, by rw [if_pos hname]⟩
      · have hbefore : ∃ a ∈ added, a.name = name := by simpa [hname] using h
        simpa only [if_neg hname] using ih hbefore

/-! ### What a schema keeps of its additions -/

/-- Whether the attributes of a schema are those that were added: their names come in the order of
the first additions, and a name finds the latest addition under it. -/
structure Tracks (e : Entity) (added : List Attribute) : Prop where
  names : e.attributes.map (·.name) = distinctNames (added.map (·.name))
  latest : ∀ name a, e.attribute? name = some a ↔ IsLatest added name a

namespace Tracks

variable {e : Entity} {added : List Attribute}

/-- Without attributes, nothing was added. -/
theorem of_attributes_eq_nil (h : e.attributes = []) : e.Tracks [] where
  names := by rw [h]; rfl
  latest name a := by
    rw [attribute?_eq_find?, h]
    exact iff_of_false nofun fun ⟨before, after, hsplit, _⟩ => by simp at hsplit

/-- An addition is tracked, at a new place or at an old one. -/
theorem withAttribute (h : e.Tracks added) (a : Attribute) :
    (e.withAttribute a).Tracks (added ++ [a]) where
  names := by
    rw [map_name_withAttribute, List.map_append, List.map_singleton, distinctNames_concat, h.names]
  latest name b := by
    rw [attribute?_withAttribute, isLatest_concat_iff]
    split
    · rw [Option.some.injEq, eq_comm]
    · exact h.latest name b

theorem append (h : e.Tracks added) (a : Attribute) (hnew : e.index? a.name = none) :
    (e.append a hnew).Tracks (added ++ [a]) :=
  withAttribute_of_index?_none hnew ▸ h.withAttribute a

/-- Declarations that are accepted are additions. -/
theorem declareAll {ds : List Attribute.Definition} {as : List Attribute}
    (has : List.Forall₂ (fun d a => d.toAttribute = .ok a) ds as) (h : e.Tracks added)
    {e' : Entity} (hds : e.declareAll ds = .ok e') : e'.Tracks (added ++ as) := by
  induction has generalizing e added with
  | nil =>
    cases hds
    rwa [List.append_nil]
  | cons hd _ ih =>
    obtain ⟨a, ha, hnew, hrest⟩ := declareAll_cons_eq_ok_iff.1 hds
    obtain rfl := Except.ok.inj (hd.symm.trans ha)
    rw [List.append_cons]
    exact ih (h.append _ hnew) hrest

theorem apply (h : e.Tracks added) (s : Step) : (s.apply e).Tracks (added ++ s.added?.toList) := by
  cases s with
  | withPrimaryKey pk =>
    rw [Step.added?, Option.toList_none, List.append_nil]
    exact ⟨h.names, h.latest⟩
  | basic | embedded | toOne | toMany | withAttribute => exact h.withAttribute _

end Tracks

/-- A schema keeps track of its additions, however it is constructed. -/
theorem Constructed.tracks {e : Entity} {added : List Attribute} (h : e.Constructed added) :
    e.Tracks added := by
  induction h with
  | entity name => exact .of_attributes_eq_nil rfl
  | embeddableType name => exact .of_attributes_eq_nil rfl
  | ofDefinition hd has =>
    have hds := (ofDefinition_eq_ok_iff_declareAll.1 hd).1
    exact Tracks.declareAll has (.of_attributes_eq_nil rfl) hds
  | step s _ ih => exact ih.apply s

/-- **Attributes by name and by place.** However a schema is constructed, its attributes have
different names, in the order of the first additions. A name finds an attribute exactly if one was
added under it, and that is the latest one. Each attribute is found under its name, and the index
has exactly the places of the attributes. -/
theorem attributes_of_constructed {e : Entity} {added : List Attribute} (h : e.Constructed added) :
    (e.attributes.map (·.name)).Nodup ∧
      FirstUses (added.map (·.name)) (e.attributes.map (·.name)) ∧
      (∀ name, (e.attribute? name).isSome ↔ ∃ a ∈ added, a.name = name) ∧
      (∀ name a, e.attribute? name = some a ↔ IsLatest added name a) ∧
      (∀ (i : Nat) (a : Attribute), e.attributes[i]? = some a →
        IsLatest added a.name a ∧ e.attribute? a.name = some a) ∧
      ∀ (name : String) (i : Nat),
        e.index.lookup name = some i ↔ ∃ a, e.attributes[i]? = some a ∧ a.name = name := by
  have ht := h.tracks
  have hfound (i : Nat) (a : Attribute) (ha : e.attributes[i]? = some a) :
      e.attribute? a.name = some a :=
    attribute?_eq_some_iff.2 ⟨List.mem_of_getElem? ha, rfl⟩
  refine ⟨e.nodup_names, ht.names ▸ firstUses_distinctNames _, fun name => ?_, ht.latest,
    fun i a ha => ⟨(ht.latest _ _).1 (hfound i a ha), hfound i a ha⟩,
    fun name i => index?_eq_some_iff⟩
  rw [Option.isSome_iff_exists, ← exists_isLatest_iff]
  exact exists_congr fun a => ht.latest name a

/-- A column that a definition declares, with a link in its place after a step. -/
theorem attributes_of_constructed_city :
    let id : Attribute.Definition := { Attribute.Definition.named "id" with type := some "long" }
    let mayor : Attribute.Definition :=
      { Attribute.Definition.named "mayor" with type := some "string" }
    let person : Attribute := ⟨"mayor", .association "Person" false⟩
    ∃ city : Entity, ofDefinition ⟨"City", some "id", false, [id, mayor]⟩ = .ok city ∧
      let e := (city.toOne "mayor" "Person").basic "name" .text
      e.Constructed [⟨"id", .basic (.integer .long)⟩, ⟨"mayor", .basic .text⟩, person,
        ⟨"name", .basic .text⟩] ∧
      e.attributes.map (·.name) = ["id", "mayor", "name"] ∧
      e.attribute? "mayor" = some person ∧ ¬(e.attribute? "area").isSome := by
  intro id mayor person
  let empty := (entity "City").withPrimaryKey "id"
  let city := (empty.basic "id" (.integer .long)).basic "mayor" .text
  have hcity : ofDefinition ⟨"City", some "id", false, [id, mayor]⟩ = .ok city := by decide
  have hbuilt := ((Constructed.ofDefinition hcity (.cons rfl (.cons rfl .nil))).step
    (.toOne "mayor" "Person")).step (.basic "name" .text)
  obtain ⟨-, -, hsome, hlatest, -⟩ := attributes_of_constructed hbuilt
  refine ⟨city, hcity, hbuilt, rfl, (hlatest _ _).2 ?_, fun h => ?_⟩
  · exact ⟨[⟨"id", .basic (.integer .long)⟩, ⟨"mayor", .basic .text⟩], [⟨"name", .basic .text⟩],
      rfl, rfl, by decide⟩
  · exact absurd ((hsome "area").1 h) (by decide)

end QueryFilter.Entity
