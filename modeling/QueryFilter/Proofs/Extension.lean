import QueryFilter.Proofs.Accounting
import QueryFilter.Proofs.Building

/-!
# More types change nothing

What a compilation asks of a catalogue are the types that it comes to from the root. Where two
catalogues say the same of these types, they give the same queries and the same errors. A registry
is closed under links, so that another one with the same types and more is asked for none of the
others, however long a path is and however often it goes round in a circle.

* `Catalog.AgreesOn`: two catalogues that say the same of types which are closed under links;
* `Catalog.AgreesOn.walk_congr`: a walk from such a type is the same in both;
* `Catalog.AgreesOn.compileQuery_congr`: and so is all that is compiled, counted and logged;
* `Registry.agreesOn_of_subset`: a registry agrees on its types with one that has more;
* `Registry.compile_of_append`: what is compiled when more types are registered.
-/

namespace QueryFilter

open Expression

variable {τ : Type}

/-! ### Catalogues that agree -/

/-- Two catalogues that say the same of some types. The links and the composites of these lead to
such types again. -/
structure Catalog.AgreesOn (C D : Catalog τ) (P : τ → Prop) : Prop where
  typeName : ∀ {type}, P type → C.typeName type = D.typeName type
  primaryKey? : ∀ {type}, P type → C.primaryKey? type = D.primaryKey? type
  attribute? : ∀ {type}, P type → ∀ name, C.attribute? type name = D.attribute? type name
  target? : ∀ {type}, P type → ∀ {name a}, D.attribute? type name = some a →
    C.target? type a = D.target? type a ∧ ∀ next, D.target? type a = some next → P next
  embedded? : ∀ {type}, P type → ∀ {name a}, D.attribute? type name = some a →
    C.embedded? type a = D.embedded? type a ∧ ∀ next, D.embedded? type a = some next → P next

namespace Catalog.AgreesOn

variable {C D : Catalog τ} {P : τ → Prop}

/-- The walk is at a type on which the catalogues agree, before each of its steps. -/
theorem walk_congr (h : C.AgreesOn D P) (field : String) (c : Condition) (path : FieldPath)
    {type : τ} (htype : P type) (source : Source) (inner : List String) (plan : JoinPlan) :
    walk C field c path type source inner plan = walk D field c path type source inner plan := by
  induction path generalizing type source inner plan with
  | broken text => rfl
  | last name => rw [walk, walk, h.attribute? htype, h.typeName htype]
  | step name join rest ih =>
    rw [walk, walk, h.attribute? htype, h.typeName htype]
    cases ha : D.attribute? type name with
    | none => rfl
    | some a =>
      dsimp only
      cases a.kind with
      | basic t => rfl
      | embedded schema =>
        obtain ⟨heq, hnext⟩ := h.embedded? htype ha
        dsimp only
        rw [heq]
        cases hs : D.embedded? type a with
        | none => rfl
        | some sub => exact ih (hnext sub hs) ..
      | association target collection =>
        obtain ⟨heq, hnext⟩ := h.target? htype ha
        dsimp only
        rw [heq]
        cases ht : D.target? type a with
        | none => rfl
        | some next =>
          dsimp only
          rw [h.typeName (hnext next ht)]
          exact ih (hnext next ht) ..

variable {config : Config} {root : τ}

theorem compileLeaf_congr (h : C.AgreesOn D P) (hroot : P root) (field : String) (c : Condition)
    (plan : JoinPlan) :
    compileLeaf C config root field c plan = compileLeaf D config root field c plan := by
  rw [compileLeaf_eq, compileLeaf_eq, h.walk_congr field c _ hroot]

theorem compileAll_congr_of {es : List Expression}
    (hes : ∀ e ∈ es, ∀ plan,
      compileExpression C config root e plan = compileExpression D config root e plan)
    (plan : JoinPlan) : compileAll C config root es plan = compileAll D config root es plan := by
  induction es generalizing plan with
  | nil => rfl
  | cons e es ih =>
    have hrest := ih fun d hd => hes d (List.mem_cons_of_mem e hd)
    have hfirst := hes e List.mem_cons_self plan
    cases hc : compileExpression D config root e plan with
    | mk r q =>
      rw [hc] at hfirst
      cases r with
      | error err => rw [compileAll_cons_of_error hfirst, compileAll_cons_of_error hc]
      | ok p => rw [compileAll_cons_of_ok hfirst, compileAll_cons_of_ok hc, hrest]

theorem compileExpression_congr (h : C.AgreesOn D P) (hroot : P root) (e : Expression)
    (plan : JoinPlan) :
    compileExpression C config root e plan = compileExpression D config root e plan := by
  induction e generalizing plan with
  | leaf field c => exact h.compileLeaf_congr hroot field c plan
  | compound op es ih =>
    rw [compileExpression_compound, compileExpression_compound, compileAll_congr_of ih]

theorem compileFilter_congr (h : C.AgreesOn D P) (hroot : P root) (es : List Expression)
    (plan : JoinPlan) :
    compileFilter C config root es plan = compileFilter D config root es plan := by
  cases hd : checkDepth config es with
  | error e => rw [compileFilter_of_checkDepth_error hd, compileFilter_of_checkDepth_error hd]
  | ok =>
    rw [compileFilter_of_checkDepth hd, compileFilter_of_checkDepth hd,
      compileAll_congr_of fun e _ => h.compileExpression_congr hroot e]

theorem compileQuery_congr (h : C.AgreesOn D P) (hroot : P root) (projection : Projection)
    (es : List Expression) :
    compileQuery C config root projection es = compileQuery D config root projection es := by
  rw [compileQuery_eq, compileQuery_eq, h.compileFilter_congr hroot, h.typeName hroot,
    h.primaryKey? hroot]

/-- The joins of a path are those by which a walk lets the plan grow, with any condition at its
end. -/
theorem joinsOfWalk_congr (h : C.AgreesOn D P) (path : FieldPath) (hroot : P root)
    (plan : JoinPlan) :
    joinsOfWalk C path root .root [] plan = joinsOfWalk D path root .root [] plan := by
  have hwalk := h.walk_congr "" (.list .oneOf []) path hroot .root [] plan
  have hC := length_joins_walk C "" (.list .oneOf []) path root .root [] plan
  rw [hwalk, length_joins_walk] at hC
  exact (Nat.add_left_cancel hC).symm

theorem joinsOfLeaves_congr (h : C.AgreesOn D P) (hroot : P root) (ls : List (String × Condition))
    (plan : JoinPlan) :
    joinsOfLeaves C config root ls plan = joinsOfLeaves D config root ls plan := by
  induction ls generalizing plan with
  | nil => rfl
  | cons l ls ih =>
    rw [joinsOfLeaves, joinsOfLeaves, h.joinsOfWalk_congr _ hroot,
      h.compileLeaf_congr hroot, ih]

/-- A compilation for such a type has the same result, and is counted and logged in the same way. -/
theorem report_congr (h : C.AgreesOn D P) (hroot : P root) (projection : Projection)
    (es : List Expression) (m : Metrics) :
    Report.compileQuery C config root projection es m =
      Report.compileQuery D config root projection es m := by
  unfold Report.compileQuery Report.compileFilter
  rw [h.compileFilter_congr hroot, h.joinsOfLeaves_congr hroot, h.typeName hroot,
    h.primaryKey? hroot]

end Catalog.AgreesOn

/-! ### Registries that have more types -/

namespace Registry

variable {r s : Registry}

/-- What is found among the types of a registry is found among more types. -/
theorem lookup?_of_subset (hr : r.Sound) (hs : s.Sound) (h : r.types ⊆ s.types) {name : String}
    {e : Entity} (he : r.lookup? name = some e) : s.lookup? name = some e := by
  obtain ⟨hmem, hname⟩ := (lookup?_eq_some_iff hr.sorted).1 he
  exact (lookup?_eq_some_iff hs.sorted).2 ⟨h hmem, hname⟩

/-- A registry agrees on its types with one that has more. All links of its types lead to its types,
so that none of them can lead to another one in the other registry. -/
theorem agreesOn_of_subset (hr : r.Sound) (hs : s.Sound) (h : r.types ⊆ s.types) :
    s.catalog.AgreesOn r.catalog (· ∈ r.types) where
  typeName _ := rfl
  primaryKey? _ := rfl
  attribute? _ _ := rfl
  target? := by
    intro type htype name a ha
    simp only [catalog, Catalog.ofLookup]
    cases hk : a.kind with
    | basic | embedded => simp
    | association target many =>
      obtain ⟨next, -, hl, -⟩ := hr.exists_target? htype (Entity.mem_of_attribute? ha) hk
      exact ⟨(lookup?_of_subset hr hs h hl).trans hl.symm, fun _ => mem_of_lookup?⟩
  embedded? := by
    intro type htype name a ha
    simp only [catalog, Catalog.ofLookup]
    cases hk : a.kind with
    | basic | association => simp
    | embedded schema =>
      obtain ⟨sub, -, hl, -⟩ := hr.exists_embedded? htype (Entity.mem_of_attribute? ha) hk
      exact ⟨(lookup?_of_subset hr hs h hl).trans hl.symm, fun _ => mem_of_lookup?⟩

/-- **More types change nothing.** A type of a registry is found in the registry of more types, too.
There a filter for it gives the same query or the same error, counted and logged in the same way,
and into any plan it is compiled in the same way. -/
theorem compile_of_append {es ts : List Entity} (hr : ofEntities es = .ok r)
    (hs : ofEntities (es ++ ts) = .ok s) {name : String} (hname : name ∈ r.typeNames) :
    ∃ root, r.find name = .ok root ∧ s.find name = .ok root ∧
      (∀ config projection filter,
        compileQuery s.catalog config root projection filter =
          compileQuery r.catalog config root projection filter) ∧
      (∀ config filter plan,
        compileFilter s.catalog config root filter plan =
          compileFilter r.catalog config root filter plan) ∧
      ∀ config projection filter m,
        Report.compileQuery s.catalog config root projection filter m =
          Report.compileQuery r.catalog config root projection filter m := by
  obtain ⟨root, hroot, rfl⟩ := List.mem_map.1 hname
  have hrSound := sound_of_ofEntities hr
  have hsSound := sound_of_ofEntities hs
  have hsubset : r.types ⊆ s.types := by
    intro e he
    have hmem : e ∈ es := (of_ofEntities hr).1.mem_iff.1 he
    exact (of_ofEntities hs).1.mem_iff.2 (List.mem_append_left ts hmem)
  have hagree := agreesOn_of_subset hrSound hsSound hsubset
  have hfound := hrSound.lookup?_name hroot
  exact ⟨root, find_eq_ok_iff.2 hfound,
    find_eq_ok_iff.2 (lookup?_of_subset hrSound hsSound hsubset hfound),
    fun _ _ _ => hagree.compileQuery_congr hroot _ _,
    fun _ _ _ => hagree.compileFilter_congr hroot _ _,
    fun _ _ _ _ => hagree.report_congr hroot _ _ _⟩

/-- A type of offices is registered that links to the departments. The filter of an employee goes
round from the department to its staff and back, as before. -/
theorem compile_of_append_staff :
    let office : Entity := (Entity.entity "Office").toMany "departments" "Department"
    let es : List Entity := [.employee, .department, .address]
    let circle : Expression :=
      .leaf "department.staff.department.name" (.single (.compare .equal) (.string "hr"))
    ∃ s q, ofEntities es = .ok staff ∧ ofEntities (es ++ [office]) = .ok s ∧
      "Employee" ∈ staff.typeNames ∧ s.find "Office" = .ok office ∧
      s.find "Employee" = .ok .employee ∧
      compileQuery s.catalog {} .employee .rows [circle] = .ok q ∧
      compileQuery staff.catalog {} .employee .rows [circle] = .ok q := by
  intro office es circle
  have hr : ofEntities es = .ok staff := by decide +kernel
  obtain ⟨s, hs⟩ := Except.exists_ok_of_isOk
    (show (ofEntities (es ++ [office])).isOk by decide +kernel)
  have hname : "Employee" ∈ staff.typeNames := by decide
  obtain ⟨root, hfound, hfound', hsame, -⟩ := compile_of_append hr hs hname
  have hroot : staff.find "Employee" = .ok .employee := by decide
  obtain rfl := Except.ok.inj (hroot.symm.trans hfound)
  obtain ⟨q, hq⟩ := Except.exists_ok_of_isOk
    (show (compileQuery staff.catalog {} .employee .rows [circle]).isOk by decide +kernel)
  have hoffice : office ∈ s.types := (of_ofEntities hs).1.mem_iff.2 (by decide)
  have hlinked : s.find "Office" = .ok office :=
    find_eq_ok_iff.2 ((sound_of_ofEntities hs).lookup?_name hoffice)
  exact ⟨s, q, hr, hs, hname, hlinked, hfound', (hsame {} .rows [circle]).trans hq, hq⟩

end Registry

end QueryFilter
