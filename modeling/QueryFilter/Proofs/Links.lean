import QueryFilter.Proofs.Places
import QueryFilter.Proofs.Predicate
import QueryFilter.Proofs.Registry
import QueryFilter.Query.Report

/-!
# Links lead somewhere

A catalogue may know a link without the type that it leads to, and a walk through such a link is an
error. A registry that was built has no such link: from each of its types, links and composites lead
to types of the registry only, however often they are followed.

* `CompileError.MissingType`: the errors that say that a type is not available;
* `exists_leaf_of_compileFilter_error`: a filter that fails does so as one of its leaves does;
* `Registry.LeadsOn`: where one link or composite of a type leads;
* `Registry.Linked`: a registered type all of whose links lead where they are declared to lead;
* `Registry.linked_of_leadsOn`: every type that is reached is linked, and no compilation for it
  misses a type.
-/

namespace QueryFilter

open Expression

variable {τ : Type}

/-! ### Errors of leaves -/

/-- The errors that say that the type behind a link, or that of a composite, is not available. -/
inductive CompileError.MissingType : CompileError → Prop
  | target (field name : String) : MissingType (.path field (.targetMissing name))
  | embedded (field name : String) : MissingType (.path field (.embeddedMissing name))

theorem CompileError.AtEnd.not_missingType {field : String} {e : CompileError}
    (h : e.AtEnd field) : ¬e.MissingType := by
  cases h <;> rintro ⟨⟩

theorem not_missingType_of_overLimit? {config : Config} {field : String} {c : Condition}
    {e : CompileError} (h : overLimit? config field c = some e) : ¬e.MissingType := by
  unfold overLimit? overLimit?.segmentLimit at h
  split at h
  · split at h
    · cases h
      rintro ⟨⟩
    · dsimp only at h
      split at h <;> cases h
      rintro ⟨⟩
  · dsimp only at h
    split at h <;> cases h
    rintro ⟨⟩

theorem not_missingType_of_checkDepth {config : Config} {es : List Expression} {e : CompileError}
    (h : checkDepth config es = .error e) : ¬e.MissingType := by
  induction es with
  | nil => cases h
  | cons d es ih =>
    rw [checkDepth] at h
    split at h
    · cases h
      rintro ⟨⟩
    · exact ih h

section

variable {C : Catalog τ} {config : Config} {root : τ}

theorem exists_leaf_of_compileAll_error_of {es : List Expression}
    (h : ∀ e ∈ es, ∀ plan err, (compileExpression C config root e plan).1 = .error err →
      ∃ l ∈ e.leaves, ∃ q, (compileLeaf C config root l.1 l.2 q).1 = .error err)
    {plan : JoinPlan} {err : CompileError}
    (herr : (compileAll C config root es plan).1 = .error err) :
    ∃ l ∈ leavesOfAll es, ∃ q, (compileLeaf C config root l.1 l.2 q).1 = .error err := by
  induction es generalizing plan with
  | nil => cases herr
  | cons e es ih =>
    cases hc : compileExpression C config root e plan with
    | mk r q =>
      cases r with
      | error err' =>
        rw [compileAll_cons_of_error hc] at herr
        cases herr
        obtain ⟨l, hl, hleaf⟩ := h e List.mem_cons_self plan err (by rw [hc])
        exact ⟨l, List.mem_append_left _ hl, hleaf⟩
      | ok p =>
        -- the error is one of the rest
        rw [compileAll_cons_of_ok hc] at herr
        obtain ⟨l, hl, hleaf⟩ :=
          ih (fun d hd => h d (List.mem_cons_of_mem e hd)) (Except.map_eq_error_iff.1 herr)
        exact ⟨l, List.mem_append_right _ hl, hleaf⟩

theorem exists_leaf_of_compileExpression_error {e : Expression} {plan : JoinPlan}
    {err : CompileError} (herr : (compileExpression C config root e plan).1 = .error err) :
    ∃ l ∈ e.leaves, ∃ q, (compileLeaf C config root l.1 l.2 q).1 = .error err := by
  induction e generalizing plan err with
  | leaf field c => exact ⟨(field, c), List.mem_singleton_self _, plan, herr⟩
  | compound op es ih =>
    rw [compileExpression_compound] at herr
    exact exists_leaf_of_compileAll_error_of (fun e he _ _ herr => ih e he herr)
      (Except.map_eq_error_iff.1 herr)

/-- A filter that is not nested too deeply fails as one of its leaves does. -/
theorem exists_leaf_of_compileFilter_error {es : List Expression} {plan : JoinPlan}
    {err : CompileError} (herr : (compileFilter C config root es plan).1 = .error err) :
    checkDepth config es = .error err ∨
      ∃ l ∈ leavesOfAll es, ∃ q, (compileLeaf C config root l.1 l.2 q).1 = .error err := by
  cases hd : checkDepth config es with
  | error e =>
    rw [compileFilter_of_checkDepth_error hd] at herr
    cases herr
    exact .inl rfl
  | ok =>
    rw [compileFilter_of_checkDepth hd] at herr
    exact .inr (exists_leaf_of_compileAll_error_of
      (fun _ _ _ _ => exists_leaf_of_compileExpression_error) (Except.map_eq_error_iff.1 herr))

end

/-! ### Links of a sound registry -/

namespace Registry

variable {r : Registry}

/-- Whether a link or a composite of a type leads to another type. -/
def LeadsOn (r : Registry) (type next : Entity) : Prop :=
  ∃ a ∈ type.attributes,
    r.catalog.target? type a = some next ∨ r.catalog.embedded? type a = some next

/-- A type of the registry. Each of its associations leads to the entity, and each of its
composites to the embeddable type, that is registered under the name it declares. -/
structure Linked (r : Registry) (type : Entity) : Prop where
  registered : r.find type.name = .ok type
  association : ∀ a ∈ type.attributes, ∀ target many, a.kind = .association target many →
    ∃ next, r.catalog.target? type a = some next ∧ r.find target = .ok next ∧
      next.name = target ∧ next.embeddable = false
  embedded : ∀ a ∈ type.attributes, ∀ schema, a.kind = .embedded schema →
    ∃ next, r.catalog.embedded? type a = some next ∧ r.find schema = .ok next ∧
      next.name = schema ∧ next.embeddable = true

/-- A link or a composite leads to types of the registry only. -/
theorem LeadsOn.mem {type next : Entity} (h : r.LeadsOn type next) : next ∈ r.types := by
  obtain ⟨a, -, h | h⟩ := h
  · simp only [catalog, Catalog.ofLookup] at h
    split at h
    · exact mem_of_lookup? h
    · cases h
  · simp only [catalog, Catalog.ofLookup] at h
    split at h
    · exact mem_of_lookup? h
    · cases h

theorem mem_of_reflTransGen_leadsOn {start type : Entity} (hstart : start ∈ r.types)
    (h : Relation.ReflTransGen r.LeadsOn start type) : type ∈ r.types := by
  cases h with
  | refl => exact hstart
  | tail _ hlast => exact hlast.mem

theorem linked_of_mem (hr : r.Sound) {type : Entity} (htype : type ∈ r.types) : r.Linked type where
  registered := find_eq_ok_iff.2 (hr.lookup?_name htype)
  association a ha target many hk := by
    obtain ⟨next, hnext, hl, hemb⟩ := hr.exists_target? htype ha hk
    exact ⟨next, hnext, find_eq_ok_iff.2 hl, name_of_lookup? hl, hemb⟩
  embedded a ha schema hk := by
    obtain ⟨next, hnext, hl, hemb⟩ := hr.exists_embedded? htype ha hk
    exact ⟨next, hnext, find_eq_ok_iff.2 hl, name_of_lookup? hl, hemb⟩

/-! ### Compilations do not miss a type -/

/-- A segment that does not lead on is not that of a link or of a composite. -/
theorem Sound.not_missingType_of_follow (hr : r.Sound) {type : Entity} (htype : type ∈ r.types)
    {field name : String} {e : CompileError} (h : r.catalog.follow field type name = .error e) :
    ¬e.MissingType := by
  unfold Catalog.follow at h
  split at h
  · cases h
    rintro ⟨⟩
  · rename_i a ha
    have ha : a ∈ type.attributes := Entity.mem_of_attribute? ha
    split at h
    · cases h
      rintro ⟨⟩
    · rename_i schema hk
      obtain ⟨next, hnext, -⟩ := hr.exists_embedded? htype ha hk
      rw [hnext] at h
      cases h
    · rename_i target many hk
      obtain ⟨next, hnext, -⟩ := hr.exists_target? htype ha hk
      rw [hnext] at h
      cases h

/-- A walk that stops does so for another reason, however far it got. -/
theorem Sound.not_missingType_of_walk (hr : r.Sound) {field : String} {c : Condition}
    {path : FieldPath} {type : Entity} {source : Source} {inner : List String} {plan : JoinPlan}
    (htype : type ∈ r.types) {e : CompileError}
    (h : (walk r.catalog field c path type source inner plan).1 = .error e) :
    ¬e.MissingType := by
  induction path generalizing type source inner plan with
  | broken text =>
    cases h
    rintro ⟨⟩
  | last name =>
    rw [walk] at h
    split at h
    · cases h
      rintro ⟨⟩
    · exact (atEnd_of_endPredicate h).not_missingType
  | step name join rest ih =>
    rcases walk_step_cases r.catalog field c name join rest type source inner plan with
      ⟨err, q, hf, hw, -⟩ | ⟨a, next, hf, -, hw⟩ | ⟨a, next, hf, -, hw⟩
    · rw [hw] at h
      cases h
      exact hr.not_missingType_of_follow htype hf
    -- the type that comes next is one of the registry, too
    · rw [hw] at h
      exact ih (mem_of_step? (Catalog.step?_of_follow hf)) h
    · rw [hw] at h
      exact ih (mem_of_step? (Catalog.step?_of_follow hf)) h

theorem Sound.not_missingType_of_compileFilter (hr : r.Sound) {config : Config} {root : Entity}
    (hroot : root ∈ r.types) {es : List Expression} {plan : JoinPlan} {e : CompileError}
    (h : (compileFilter r.catalog config root es plan).1 = .error e) : ¬e.MissingType := by
  rcases exists_leaf_of_compileFilter_error h with hd | ⟨⟨field, c⟩, -, q, hleaf⟩
  · exact not_missingType_of_checkDepth hd
  · rw [compileLeaf_eq] at hleaf
    split at hleaf
    · cases hleaf
      exact not_missingType_of_overLimit? ‹_›
    · exact hr.not_missingType_of_walk hroot hleaf

end Registry

/-- An error of compiling a document is one of compiling what is decoded. -/
theorem Report.exists_of_compileDocument_error {C : Catalog τ} {config : Config} {root : τ}
    {d : Document} {m : Metrics} {e : CompileError}
    (h : (compileDocument C config root d m).result = .error (.compile e)) :
    ∃ es m', d.expressions = .ok es ∧
      (compileQuery C config root .rows es m').result = .error e := by
  rw [compileDocument] at h
  cases hd : d.expressions with
  | error err =>
    rw [hd] at h
    cases h
  | ok es =>
    rw [hd] at h
    dsimp only at h
    refine ⟨es, m.addDecoded, rfl, ?_⟩
    cases hq : (compileQuery C config root .rows es m.addDecoded).result with
    | error err =>
      rw [hq] at h
      cases h
      rfl
    | ok q =>
      rw [hq] at h
      cases h

/-- **Links lead somewhere.** Follow links and composites from a type of a registry that was built,
in any number of steps. The type that is reached is registered, its associations lead to the
entities and its composites to the embeddable types that they declare, and whatever is compiled for
it, into whatever plan, no type is missing. -/
theorem Registry.linked_of_leadsOn {types : List Entity} {r : Registry}
    (h : ofEntities types = .ok r) {name : String} {start type : Entity}
    (hstart : r.find name = .ok start) (hreach : Relation.ReflTransGen r.LeadsOn start type) :
    r.Linked type ∧ ∀ config e, e.MissingType →
      (∀ es plan m,
        (Report.compileFilter r.catalog config type es plan m).result.1 ≠ .error e) ∧
      (∀ projection es m,
        (Report.compileQuery r.catalog config type projection es m).result ≠ .error e) ∧
      ∀ d m, (Report.compileDocument r.catalog config type d m).result ≠ .error (.compile e) := by
  have hr := sound_of_ofEntities h
  have htype : type ∈ r.types :=
    mem_of_reflTransGen_leadsOn (mem_of_lookup? (find_eq_ok_iff.1 hstart)) hreach
  refine ⟨linked_of_mem hr htype, fun config e he => ?_⟩
  have hfilter (es : List Expression) (plan : JoinPlan) (m : Metrics) :
      (Report.compileFilter r.catalog config type es plan m).result.1 ≠ .error e :=
    fun herr => hr.not_missingType_of_compileFilter htype herr he
  have hquery (projection : Projection) (es : List Expression) (m : Metrics) :
      (Report.compileQuery r.catalog config type projection es m).result ≠ .error e :=
    fun herr => hfilter es _ m (Except.map_eq_error_iff.1 herr)
  refine ⟨hfilter, hquery, fun d m herr => ?_⟩
  obtain ⟨es, m', -, herr⟩ := Report.exists_of_compileDocument_error herr
  exact hquery .rows es m' herr

/-- Round the circle from the employees over their department to its staff, and on to an address. A
filter that goes that way is refused for a street that there is not, but not for a missing type. -/
theorem Registry.linked_of_leadsOn_staff :
    let field := "department.staff.address.street"
    let missing := CompileError.path field (.embeddedMissing "address")
    let compiled := Report.compileQuery staff.catalog {} .employee .rows
      [.leaf field (.single (.compare .equal) .null)] {}
    staff.find "Employee" = .ok .employee ∧
      Relation.ReflTransGen staff.LeadsOn .employee .address ∧ staff.Linked .address ∧
      missing.MissingType ∧ compiled.result ≠ .error missing ∧ ∃ e, compiled.result = .error e := by
  intro field missing compiled
  have hbuilt : ofEntities [.employee, .department, .address] = .ok staff := by decide +kernel
  have hemployee : staff.find "Employee" = .ok .employee := by decide +kernel
  have hdepartment : staff.LeadsOn .employee .department :=
    ⟨⟨"department", .association "Department" false⟩, by decide, .inl (by decide +kernel)⟩
  have hstaff : staff.LeadsOn .department .employee :=
    ⟨⟨"staff", .association "Employee" true⟩, by decide, .inl (by decide +kernel)⟩
  have haddress : staff.LeadsOn .employee .address :=
    ⟨⟨"address", .embedded "Address"⟩, by decide, .inr (by decide +kernel)⟩
  have hreach : Relation.ReflTransGen staff.LeadsOn .employee .address :=
    ((Relation.ReflTransGen.single hdepartment).tail hstaff).tail haddress
  obtain ⟨hlinked, -⟩ := linked_of_leadsOn hbuilt hemployee hreach
  obtain ⟨-, hcompile⟩ := linked_of_leadsOn hbuilt hemployee .refl
  obtain ⟨-, hquery, -⟩ := hcompile {} missing (.embedded _ _)
  exact ⟨hemployee, hreach, hlinked, .embedded _ _, hquery _ _ _,
    Except.exists_error_of_isOk_eq_false (by decide +kernel)⟩

/-- Where nobody has checked the links, a type may be missing. -/
example :
    let compiled := compileFilter (.loose [.employee]) {} .employee
      [.leaf "department.name" (.single (.compare .equal) .null)] (.start "Employee" none)
    compiled.1.error? = some (.path "department.name" (.targetMissing "department")) := by
  decide +kernel

end QueryFilter
