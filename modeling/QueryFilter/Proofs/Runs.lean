import QueryFilter.Proofs.Aliases
import QueryFilter.Proofs.Compositional

/-!
# Runs of compilations

Filters are compiled into one plan, one after another. Each may come with a catalogue, a root type
and limits of its own, and it may succeed or fail. The plan stays sound all the way, and it keeps
what the predicates so far refer to.

* `JoinPlan.Run`: a run of compilations, with the predicates that it has given back;
* `JoinPlan.Supports`: a plan has the sources of some predicates;
* `JoinPlan.Supports.compile`: one compilation more;
* `JoinPlan.Run.sound`: what holds of the plan and of the predicates after any run;
* `JoinPlan.Calls`: any number of compilations more;
* `JoinPlan.Run.keeps`: what they leave as it was.
-/

namespace QueryFilter

open JoinPlan

variable {τ : Type}

/-- A run of compilations: the plan as it has become, and the predicates of those that succeeded.
It starts with a plan without joins. -/
inductive JoinPlan.Run : JoinPlan → List Predicate → Prop
  | start (root : String) (primaryKey : Option String) : Run (.start root primaryKey) []
  | compile {τ : Type} {plan : JoinPlan} {ps : List Predicate} (C : Catalog τ) (config : Config)
    (root : τ) (es : List Expression) : Run plan ps →
    Run (compileFilter C config root es plan).2
      (ps ++ (compileFilter C config root es plan).1.toOption.toList)

/-- A plan supports predicates: its joins have their places as ids and start at the root type or at
earlier joins, and it has the sources of all the columns of the predicates. -/
structure JoinPlan.Supports (plan : JoinPlan) (ps : List Predicate) : Prop where
  grounded : plan.Grounded
  columns : ∀ p ∈ ps, ∀ c ∈ p.columns, c.source.IsBelow plan.joins.length

/-- The sources of a predicate are in the plan that is compiled with it. -/
theorem compileFilter_inPlan (C : Catalog τ) (config : Config) (root : τ) (es : List Expression)
    {plan : JoinPlan} (hp : plan.Grounded) :
    Compiled.InPlan (compileFilter C config root es plan) := by
  cases hd : checkDepth config es with
  | error e =>
    rw [compileFilter_of_checkDepth_error hd]
    exact Compiled.inPlan_error e plan
  | ok =>
    intro p h c hc
    rw [compileFilter_of_checkDepth hd] at h ⊢
    obtain ⟨ps, hps, rfl⟩ := Except.map_eq_ok_iff.1 h
    rw [Predicate.columns_conjunction] at hc
    obtain ⟨p, hp', hc⟩ := List.mem_flatMap.1 hc
    exact (compileAll_translate C config root es hp).2 ps hps p hp' c hc

/-- One compilation more, successful or not. -/
theorem JoinPlan.Supports.compile {plan : JoinPlan} {ps : List Predicate} (h : plan.Supports ps)
    (C : Catalog τ) (config : Config) (root : τ) (es : List Expression) :
    (compileFilter C config root es plan).2.Supports
      (ps ++ (compileFilter C config root es plan).1.toOption.toList) := by
  have hsteps := compileFilter_steps C config root es plan
  refine ⟨hsteps.grounded h.grounded, fun p hp c hc => ?_⟩
  rcases List.mem_append.1 hp with hp | hp
  · exact (h.columns p hp c hc).mono hsteps.grows.length_le
  · refine compileFilter_inPlan C config root es h.grounded p ?_ c hc
    cases hr : (compileFilter C config root es plan).1 with
    | error e =>
      rw [hr] at hp
      cases hp
    | ok p' =>
      rw [hr] at hp
      cases List.mem_singleton.1 hp
      rfl

theorem JoinPlan.Run.supports {plan : JoinPlan} {ps : List Predicate} (h : Run plan ps) :
    plan.Supports ps := by
  induction h with
  | start root primaryKey => exact ⟨grounded_start root primaryKey, nofun⟩
  | compile C config root es _ ih => exact ih.compile C config root es

/-- **Plans are sound after any run.** The id of a join is its place, and a join starts at the root
type or at a join with a smaller id. No two joins are over one association, and the index has the id
of each join and nothing else. The columns of all predicates so far come from the root type or from
a join of the plan. So in the text of a query of any of them, the aliases of the root type and of
the joins are declared once each. In the clauses they are used behind that only, and what is
selected in front of the clauses uses that of the root type only. -/
theorem JoinPlan.Run.sound {plan : JoinPlan} {ps : List Predicate} (h : Run plan ps) :
    (∀ i j, plan.join? i = some j → j.id = i ∧ j.key.source.IsBelow i) ∧
    (plan.joins.map (·.key)).Nodup ∧
    (∀ key i, plan.index.lookup key = some i ↔ ∃ j ∈ plan.joins, j.key = key ∧ j.id = i) ∧
    (∀ p ∈ ps, ∀ c ∈ p.columns, c.source = .root ∨ ∃ j ∈ plan.joins, c.source = .joined j.id) ∧
    ∀ p ∈ ps, ∀ projection, let q : Query := ⟨plan, p, projection⟩
      Sql.write 1 ((Sql.fragments q).map Sql.Fragment.toPiece) = Sql.toText q ∧
      Sql.fragments q = Sql.selectFragments q ++ Sql.clauseFragments q ∧
      Sql.WellScoped (aliasesBelow plan.joins.length) (Sql.selectFragments q)
        (Sql.clauseFragments q) := by
  have hs := h.supports
  have hg := hs.grounded
  refine ⟨fun i j hj => ⟨hg.id i j hj, hg.source i j hj⟩, plan.nodup_keys,
    fun key i => hg.lookup_index, fun p hp c hc => hg.exists_join (hs.columns p hp c hc),
    fun p hp projection => ?_⟩
  intro q
  exact ⟨Sql.write_fragments q, rfl, Sql.wellScoped_query (q := q) hg (hs.columns p hp)⟩

/-- A filter on employees fails behind two joins, and one on departments is compiled into the plan
that it leaves behind. -/
theorem JoinPlan.Run.sound_staff :
    let C := Registry.staff.catalog
    let isNull (field : String) := Expression.leaf field (.single (.compare .equal) .null)
    let failed := compileFilter C {} .employee [isNull "department.staff.salary"]
      (.start "Employee" (some "id"))
    let r := compileFilter C {} .department [isNull "staff.department.name"] failed.2
    failed.1.isOk = false ∧ (∀ i j, r.2.join? i = some j → j.id = i) ∧
      (r.2.joins.map (·.key)).Nodup ∧
      r.2.index.lookup ⟨.joined 0, "Department", ["staff"]⟩ = some 1 ∧
      ∃ p, r.1 = .ok p ∧ let q : Query := ⟨r.2, p, .rows⟩
        Sql.WellScoped ["t0", "t1", "t2", "t3", "t4"] (Sql.selectFragments q)
          (Sql.clauseFragments q) := by
  intro C isNull failed r
  have hrun : Run r.2 ([] ++ failed.1.toOption.toList ++ r.1.toOption.toList) :=
    .compile C {} .department _ (.compile C {} .employee _ (.start "Employee" (some "id")))
  obtain ⟨hjoins, hkeys, hindex, -, haliases⟩ := sound hrun
  have hstaff : ⟨⟨⟨.joined 0, "Department", ["staff"]⟩, "Employee", .inner⟩, 1⟩ ∈ r.2.joins := by
    decide +kernel
  have hfour : aliasesBelow r.2.joins.length = ["t0", "t1", "t2", "t3", "t4"] := by
    decide +kernel
  obtain ⟨p, hp⟩ : ∃ p, r.1 = .ok p := Except.exists_ok_of_isOk (by decide +kernel)
  have hmem : p ∈ [] ++ failed.1.toOption.toList ++ r.1.toOption.toList := by
    rw [hp]
    exact List.mem_append_right _ List.mem_cons_self
  refine ⟨by decide +kernel, fun i j hj => (hjoins i j hj).1, hkeys,
    (hindex _ _).2 ⟨_, hstaff, rfl, rfl⟩, p, hp, ?_⟩
  exact hfour ▸ (haliases p hmem .rows).2.2

/-- The alias of the root type is selected in front of the clause that declares it. -/
theorem JoinPlan.Run.root_selected_before_declared :
    let filter := [Expression.leaf "id" (.single (.compare .equal) (.number (.int 7)))]
    let r := compileFilter Registry.staff.catalog {} .employee filter
      (.start "Employee" (some "id"))
    ∃ p, r.1 = .ok p ∧ Run r.2 [p] ∧ let q : Query := ⟨r.2, p, .rows⟩
      Sql.toText q = "SELECT t0 FROM Employee t0 WHERE t0.id = ?1" ∧
      Sql.write 1 ((Sql.fragments q).map Sql.Fragment.toPiece) = Sql.toText q ∧
      ¬∀ before s after, Sql.fragments q = before ++ .uses s :: after →
        s.alias ∈ Sql.declaredAliases before := by
  intro filter r
  have hrun : Run r.2 ([] ++ r.1.toOption.toList) :=
    .compile Registry.staff.catalog {} .employee filter (.start "Employee" (some "id"))
  obtain ⟨p, hp⟩ : ∃ p, r.1 = .ok p := Except.exists_ok_of_isOk (by decide +kernel)
  rw [hp] at hrun
  refine ⟨p, hp, hrun, ?_, Sql.write_fragments _, fun hdeclared => ?_⟩
  · exact Except.eq_of_toOption_map (fun p => Sql.toText ⟨r.2, p, .rows⟩) hp (by decide +kernel)
  · have hselect : Sql.selectFragments ⟨r.2, p, .rows⟩ = [.plain "SELECT ", .uses .root] := by
      rw [Sql.selectFragments, show r.2.distinct = false by decide +kernel]
    exact absurd (hdeclared [.plain "SELECT "] .root _ (by rw [Sql.fragments, hselect]; rfl))
      List.not_mem_nil

/-! ### Later compilations -/

/-- One compilation leads from a plan to another, whether it succeeds or not. -/
def JoinPlan.Call (p q : JoinPlan) : Prop :=
  ∃ (τ : Type) (C : Catalog τ) (config : Config) (root : τ) (es : List Expression),
    (compileFilter C config root es p).2 = q

/-- Any number of compilations lead from a plan to another. -/
abbrev JoinPlan.Calls : JoinPlan → JoinPlan → Prop := Relation.ReflTransGen Call

theorem JoinPlan.Call.grows {p q : JoinPlan} (h : Call p q) : p.Grows q := by
  obtain ⟨τ, C, config, root, es, rfl⟩ := h
  exact (compileFilter_steps C config root es p).grows

theorem JoinPlan.Calls.grows {p q : JoinPlan} (h : Calls p q) : p.Grows q := by
  induction h with
  | refl => exact Grows.refl p
  | tail _ hcall ih => exact ih.trans hcall.grows

/-- **Later compilations keep what earlier ones refer to.** Whatever is compiled into the plan that
a run has made, and whether it succeeds or not, the joins of the run are the first ones afterwards,
with every field as it was. The root type and its identifier stay, and duplicate elimination is not
given up. So each column of each predicate of the run is reached by one list of joins, which is the
same before and afterwards. -/
theorem JoinPlan.Run.keeps {plan q : JoinPlan} {ps : List Predicate} (h : Run plan ps)
    (h' : Calls plan q) :
    plan.joins <+: q.joins ∧ q.root = plan.root ∧ q.primaryKey = plan.primaryKey ∧
    (plan.distinct → q.distinct) ∧
    ∀ p ∈ ps, ∀ c ∈ p.columns, ∃ js,
      (∀ ks, plan.Chain c.source ks ↔ ks = js) ∧ ∀ ks, q.Chain c.source ks ↔ ks = js := by
  have hs := h.supports
  have hgrows := h'.grows
  refine ⟨hgrows.joins, hgrows.root, hgrows.primaryKey, hgrows.distinct, fun p hp c hc => ?_⟩
  obtain ⟨js, hjs⟩ := hs.grounded.exists_chain (hs.columns p hp c hc)
  have hjs' := hgrows.chain hjs
  refine ⟨js, fun ks => ⟨fun hks => hks.unique hjs, ?_⟩, fun ks => ⟨fun hks => hks.unique hjs', ?_⟩⟩
  · rintro rfl
    exact hjs
  · rintro rfl
    exact hjs'

/-- A filter on employees is compiled with a left join to the department. The one after it asks for
a right join there and fails two joins further on, and the first one keeps its left join. -/
theorem JoinPlan.Run.keeps_staff :
    let C := Registry.staff.catalog
    let isNull (field : String) := Expression.leaf field (.single (.compare .equal) .null)
    let r := compileFilter C {} .employee [isNull "<department.name"]
      (.start "Employee" (some "id"))
    let failed := compileFilter C {} .employee [isNull ">department.staff?.department.salary"] r.2
    let department : Join := ⟨⟨⟨.root, "Employee", ["department"]⟩, "Department", .left⟩, 0⟩
    failed.1.isOk = false ∧ failed.2.joins.length = 3 ∧ r.2.joins <+: failed.2.joins ∧
      ∃ p, r.1 = .ok p ∧ p.columns = [⟨.joined 0, ["name"]⟩] ∧
        ∀ c ∈ p.columns, ∀ ks, failed.2.Chain c.source ks ↔ ks = [department] := by
  intro C isNull r failed department
  have hrun : Run r.2 ([] ++ r.1.toOption.toList) :=
    .compile C {} .employee _ (.start "Employee" (some "id"))
  have hcalls : Calls r.2 failed.2 := .single ⟨Entity, C, {}, .employee, _, rfl⟩
  obtain ⟨hfirst, -, -, -, hchains⟩ := keeps hrun hcalls
  obtain ⟨p, hp⟩ : ∃ p, r.1 = .ok p := Except.exists_ok_of_isOk (by decide +kernel)
  have hcolumns : p.columns = [⟨.joined 0, ["name"]⟩] :=
    Except.eq_of_toOption_map Predicate.columns hp (by decide +kernel)
  refine ⟨by decide +kernel, by decide +kernel, hfirst, p, hp, hcolumns, fun c hc => ?_⟩
  obtain ⟨js, hjs, hjs'⟩ := hchains p (by rw [hp]; exact List.mem_cons_self) c hc
  rw [hcolumns, List.mem_singleton] at hc
  subst hc
  -- the first join leads from the root type to the column, so it is the whole chain
  have hjoin : r.2.join? 0 = some department := by decide +kernel
  have hchain : r.2.Chain (.joined 0) ([] ++ [department]) := .joined hjoin .root
  obtain rfl := (hjs _).1 hchain
  exact hjs'

end QueryFilter
