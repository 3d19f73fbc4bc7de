import QueryFilter.Proofs.Links

/-!
# The limit on nesting

The depth of an expression counts its leaves, and the limit is compared with one less. So a filter
is refused for its depth exactly if compound nodes lie one inside the other in a chain that is
longer than the limit and has nothing empty at its end: an innermost node without children is not
counted.

* `Expression.Nest`: compound nodes one inside the other, from the root downwards;
* `Expression.lt_depth_iff`: the depth by the longest such chain of nodes with children;
* `checkDepth_of_field?_eq_none`: the errors that name no field;
* `compileFilter_nesting`: when a filter is refused for its depth, and what is left undone then.
-/

namespace QueryFilter

open Expression

namespace Expression

/-- Compound nodes of an expression, one inside the other from the root downwards. -/
inductive Nest : Expression → List Expression → Prop
  | root (op : Connective) (es : List Expression) : Nest (.compound op es) [.compound op es]
  | inside (op : Connective) {es : List Expression} {e : Expression} {ns : List Expression} :
    e ∈ es → Nest e ns → Nest (.compound op es) (.compound op es :: ns)

/-! ### Depths -/

theorem depth_pos (e : Expression) : 0 < e.depth := by
  cases e with
  | leaf => exact Nat.one_pos
  | compound op es =>
    rw [depth]
    omega

theorem depth_le_depthOfAll {e : Expression} {es : List Expression} (h : e ∈ es) :
    e.depth ≤ depthOfAll es := by
  induction es with
  | nil => cases h
  | cons d es ih =>
    rw [depthOfAll]
    rcases List.mem_cons.1 h with rfl | h
    · exact Nat.le_max_left _ _
    · exact (ih h).trans (Nat.le_max_right _ _)

theorem lt_depthOfAll_iff {n : Nat} {es : List Expression} :
    n < depthOfAll es ↔ ∃ e ∈ es, n < e.depth := by
  induction es with
  | nil => simp [depthOfAll]
  | cons e es ih => simp [depthOfAll, ih]

/-! ### Chains of nodes -/

/-- A chain is not longer than the expression is deep. -/
theorem Nest.length_le_depth {e : Expression} {ns : List Expression} (h : e.Nest ns) :
    ns.length ≤ e.depth := by
  induction h with
  | root op es =>
    rw [depth, List.length_singleton]
    omega
  | inside op he _ ih =>
    have := depth_le_depthOfAll he
    rw [depth, List.length_cons]
    omega

/-- Below a chain of nodes with children there is one more level. -/
theorem Nest.length_lt_depth {e : Expression} {ns : List Expression} (h : e.Nest ns)
    (hns : ∀ n ∈ ns, n.children ≠ []) : ns.length < e.depth := by
  induction h with
  | root op es =>
    obtain ⟨d, hd⟩ := List.exists_mem_of_ne_nil es (hns _ List.mem_cons_self)
    have := depth_le_depthOfAll hd
    have := d.depth_pos
    rw [depth, List.length_singleton]
    omega
  | inside op he _ ih =>
    have := ih fun n hn => hns n (List.mem_cons_of_mem _ hn)
    have := depth_le_depthOfAll he
    rw [depth, List.length_cons]
    omega

/-- Only the innermost node of a chain may be without children. -/
theorem Nest.children_ne_nil {e : Expression} {ns : List Expression} (h : e.Nest ns)
    (hlast : ∀ n ∈ ns.getLast?, n.children ≠ []) : ∀ n ∈ ns, n.children ≠ [] := by
  induction h with
  | root op es => simpa using hlast
  | inside op he hns ih =>
    refine List.forall_mem_cons.2 ⟨List.ne_nil_of_mem he, ih fun n hn => hlast n ?_⟩
    cases hns <;> exact hn

/-- Without its lowest level, an expression is as deep as its longest chain of nodes with
children. -/
theorem lt_depth_iff {n : Nat} {e : Expression} :
    n + 1 < e.depth ↔ ∃ ns, e.Nest ns ∧ (∀ m ∈ ns, m.children ≠ []) ∧ n < ns.length := by
  constructor
  · intro h
    induction e generalizing n with
    | leaf => simp [depth] at h
    | compound op es ih =>
      obtain ⟨e, he, hdepth⟩ : ∃ e ∈ es, n < e.depth := by
        rw [← lt_depthOfAll_iff]
        rw [depth] at h
        omega
      have hes : (compound op es).children ≠ [] := List.ne_nil_of_mem he
      cases n with
      | zero => exact ⟨_, .root op es, by simpa using hes, Nat.one_pos⟩
      | succ n =>
        -- the chain of the child that is deep enough goes on below the root
        obtain ⟨ns, hns, hchildren, hlength⟩ := ih e he hdepth
        refine ⟨_, .inside op he hns, List.forall_mem_cons.2 ⟨hes, hchildren⟩, ?_⟩
        rw [List.length_cons]
        omega
  · rintro ⟨ns, hns, hchildren, hlength⟩
    have := hns.length_lt_depth hchildren
    omega

/-- The longest such chain has one node for each level but the lowest. -/
theorem exists_nest_of_lt {n : Nat} {e : Expression} (h : n < e.depth - 1) :
    ∃ ns, e.Nest ns ∧ (∀ m ∈ ns, m.children ≠ []) ∧ ns.length = e.depth - 1 := by
  obtain ⟨ns, hns, hchildren, hlength⟩ := (lt_depth_iff (n := e.depth - 2) (e := e)).1 (by omega)
  have := hns.length_lt_depth hchildren
  exact ⟨ns, hns, hchildren, by omega⟩

end Expression

/-! ### The check -/

/-- A filter that is nested too deeply is refused with the nesting of one of its expressions. -/
theorem checkDepth_eq_error {config : Config} {es : List Expression} {err : CompileError}
    (h : checkDepth config es = .error err) :
    ∃ e ∈ es, config.maxDepth < e.depth - 1 ∧ err = .tooDeep (e.depth - 1) config.maxDepth := by
  induction es with
  | nil => cases h
  | cons e es ih =>
    rw [checkDepth] at h
    split at h
    · cases h
      exact ⟨e, List.mem_cons_self, ‹_›, rfl⟩
    · obtain ⟨d, hd, hlt, herr⟩ := ih h
      exact ⟨d, List.mem_cons_of_mem e hd, hlt, herr⟩

/-- The check refuses a list exactly if it has a chain of nodes with children that is too long. -/
theorem exists_checkDepth_error_iff {config : Config} {es : List Expression} :
    (∃ err, checkDepth config es = .error err) ↔
      ∃ e ∈ es, ∃ ns, e.Nest ns ∧ (∀ n ∈ ns, n.children ≠ []) ∧ config.maxDepth < ns.length := by
  simp only [← lt_depth_iff]
  constructor
  · rintro ⟨err, herr⟩
    obtain ⟨e, he, hlt, -⟩ := checkDepth_eq_error herr
    exact ⟨e, he, by omega⟩
  · rintro ⟨e, he, hlt⟩
    induction es with
    | nil => cases he
    | cons d es ih =>
      rw [checkDepth]
      split
      · exact ⟨_, rfl⟩
      · rcases List.mem_cons.1 he with rfl | he
        · omega
        · exact ih he

/-! ### Errors that name no field -/

section

variable {τ : Type} {C : Catalog τ} {config : Config} {root : τ}

theorem field?_of_walk {field : String} {c : Condition} {path : FieldPath} {type : τ}
    {source : Source} {inner : List String} {plan : JoinPlan} {err : CompileError}
    (h : (walk C field c path type source inner plan).1 = .error err) :
    err.field? = some field := by
  induction path generalizing type source inner plan with
  | broken text =>
    cases h
    rfl
  | last name =>
    rw [walk] at h
    split at h
    · cases h
      rfl
    · exact (atEnd_of_endPredicate h).field?_eq
  | step name join rest ih =>
    rcases walk_step_cases C field c name join rest type source inner plan with
      ⟨e, q, hf, hw, -⟩ | ⟨a, next, -, -, hw⟩ | ⟨a, next, -, -, hw⟩
    · rw [hw] at h
      cases h
      exact Catalog.field?_of_follow hf
    · rw [hw] at h
      exact ih h
    · rw [hw] at h
      exact ih h

/-- Each leaf names its field in its errors. -/
theorem field?_of_compileLeaf {field : String} {c : Condition} {plan : JoinPlan}
    {err : CompileError} (h : (compileLeaf C config root field c plan).1 = .error err) :
    err.field? = some field := by
  rw [compileLeaf_eq] at h
  split at h
  · cases h
    exact field?_of_overLimit? ‹_›
  · exact field?_of_walk h

/-- An error that names no field is one of the check of the depth. -/
theorem checkDepth_of_field?_eq_none {es : List Expression} {plan : JoinPlan}
    {err : CompileError} (h : (compileFilter C config root es plan).1 = .error err)
    (hfield : err.field? = none) : checkDepth config es = .error err := by
  rcases exists_leaf_of_compileFilter_error h with hd | ⟨l, -, q, hleaf⟩
  · exact hd
  · rw [field?_of_compileLeaf hleaf] at hfield
    cases hfield

/-- A compilation is refused for the depth of its filter: with the code for limits, and without a
field. -/
def Compiled.TooDeep {α : Type} (r : Compiled α) : Prop :=
  ∃ err, r.1 = .error err ∧ err.code = .limitExceeded ∧ err.field? = none

theorem compileFilter_tooDeep_iff {es : List Expression} {plan : JoinPlan} :
    (compileFilter C config root es plan).TooDeep ↔ ∃ err, checkDepth config es = .error err := by
  constructor
  · rintro ⟨err, herr, -, hfield⟩
    exact ⟨err, checkDepth_of_field?_eq_none herr hfield⟩
  · rintro ⟨err, hd⟩
    obtain ⟨e, -, -, rfl⟩ := checkDepth_eq_error hd
    exact ⟨_, by rw [compileFilter_of_checkDepth_error hd], rfl, rfl⟩

end

/-- **Nesting.** A filter is refused for its depth exactly if in one of its expressions nodes with
children lie one inside the other in a chain that is longer than the limit. Then the error tells the
length of such a chain, whatever types and joins there are for the leaves, and the plan stays as it
was. Of a filter that is not refused for its depth, a chain may exceed the limit by one
node, an innermost one without children. -/
theorem compileFilter_nesting {τ : Type} (C : Catalog τ) (config : Config) (root : τ)
    (es : List Expression) (plan : JoinPlan) :
    ((compileFilter C config root es plan).TooDeep ↔
      ∃ e ∈ es, ∃ ns, e.Nest ns ∧ (∀ n ∈ ns, n.children ≠ []) ∧ config.maxDepth < ns.length) ∧
    ((compileFilter C config root es plan).TooDeep →
      ∃ e ∈ es, ∃ ns, e.Nest ns ∧ (∀ n ∈ ns, n.children ≠ []) ∧ config.maxDepth < ns.length ∧
        ∀ (σ : Type) (D : Catalog σ) (other : σ) (q : JoinPlan),
          compileFilter D config other es q = (.error (.tooDeep ns.length config.maxDepth), q)) ∧
    (¬(compileFilter C config root es plan).TooDeep →
      ∀ e ∈ es, ∀ ns, e.Nest ns → config.maxDepth < ns.length →
        ns.length = config.maxDepth + 1 ∧ ∃ n ∈ ns.getLast?, n.children = []) := by
  simp only [compileFilter_tooDeep_iff]
  refine ⟨exists_checkDepth_error_iff, ?_, ?_⟩
  · rintro ⟨err, hd⟩
    obtain ⟨e, he, hlt, rfl⟩ := checkDepth_eq_error hd
    obtain ⟨ns, hns, hchildren, hlength⟩ := exists_nest_of_lt hlt
    rw [← hlength] at hlt hd
    exact ⟨e, he, ns, hns, hchildren, hlt,
      fun σ D other q => compileFilter_of_checkDepth_error hd q⟩
  · intro hd e he ns hns hlength
    rw [exists_checkDepth_error_iff] at hd
    constructor
    · -- a longer chain would need a deeper expression
      have hdepth : ¬config.maxDepth + 1 < e.depth := fun h => hd ⟨e, he, lt_depth_iff.1 h⟩
      have := hns.length_le_depth
      omega
    · by_contra! hlast
      exact hd ⟨e, he, ns, hns, hns.children_ne_nil hlast, hlength⟩

/-- A leaf inside two nodes is refused with a limit of one, and with another catalogue as well. -/
theorem compileFilter_nesting_staff :
    let config : Config := { maxDepth := 1 }
    let leaf := Expression.leaf "name" (.single (.compare .equal) .null)
    let es := [compound .and [compound .or [leaf]]]
    let plan := JoinPlan.start "Department" none
    (compileFilter Registry.staff.catalog config .department es plan).TooDeep ∧
      compileFilter (Catalog.loose [.department]) config .department es plan =
        (.error (.tooDeep 2 1), plan) := by
  intro config leaf es plan
  let inner := compound .or [leaf]
  let outer := compound .and [inner]
  obtain ⟨hdeep, hother, -⟩ :=
    compileFilter_nesting Registry.staff.catalog config .department es plan
  have hnest : outer.Nest [outer, inner] := .inside .and List.mem_cons_self (.root .or [leaf])
  have htoodeep := hdeep.2 ⟨outer, List.mem_cons_self, _, hnest, by decide, by decide⟩
  obtain ⟨e, he, ns, hns, hchildren, hlong, herror⟩ := hother htoodeep
  have hlength : ns.length = 2 := by
    have hlt : ns.length < e.depth := hns.length_lt_depth hchildren
    have hdepth : e.depth = 3 := by
      rw [List.mem_singleton.1 he]
      rfl
    have hlimit : 1 < ns.length := hlong
    omega
  refine ⟨htoodeep, ?_⟩
  rw [← hlength]
  exact herror _ _ _ _

/-- Of two nodes, the inner one of which has no children, only one is counted: with a limit of one
the filter is compiled. -/
theorem two_nodes_within_limit_one :
    let config : Config := { maxDepth := 1 }
    let inner := compound .and []
    let outer := compound .and [inner]
    config.check = .ok () ∧
    (outer.Nest [outer, inner] ∧ config.maxDepth < [outer, inner].length) ∧
    (compileFilter Registry.staff.catalog config .employee [outer] (.start "Employee" none)).1 =
      .ok (.compound .and [.compound .and []]) :=
  ⟨rfl, ⟨.inside .and List.mem_cons_self (.root .and []), by decide⟩, rfl⟩

end QueryFilter
