import QueryFilter.Proofs.Meaning

/-!
# Compilation leaf by leaf

A filter is compiled leaf by leaf. Neither the leaves before it nor what was compiled into the plan
earlier change what a leaf means, or which error it gives.

* `Expression.toPredicate`: the predicate of the shape of a tree, given those of its leaves;
* `Expression.translate`: the same with leaves that may fail;
* `compileFilter_translate`: a compilation translates its expressions;
* `compileFilter_compositional`: hence it is put together from its leaves compiled alone.
-/

namespace QueryFilter

open JoinPlan

variable {ε σ τ : Type}

/-- The first element of a list for which a function fails. -/
def firstFailure? {α β : Type} (f : α → Except ε β) (xs : List α) : Option α :=
  xs.find? fun x => !(f x).isOk

theorem exists_error_of_firstFailure? {α β : Type} {f : α → Except ε β} {xs : List α} {x : α}
    (h : firstFailure? f xs = some x) : ∃ e, f x = .error e := by
  have hx := List.find?_some h
  cases hf : f x with
  | error e => exact ⟨e, rfl⟩
  | ok y => simp [hf, Except.isOk, Except.toBool] at hx

/-- Without a failure there are results for all elements. -/
theorem exists_ok_of_firstFailure? {α β : Type} [Inhabited β] {f : α → Except ε β} {xs : List α}
    (h : firstFailure? f xs = none) : ∃ g : α → β, ∀ x ∈ xs, f x = .ok (g x) := by
  refine ⟨fun x => (f x).toOption.getD default, fun x hx => ?_⟩
  have hok := List.find?_eq_none.1 h x hx
  cases hf : f x with
  | ok y =>
    dsimp only
    rw [hf]
    rfl
  | error e => simp [hf, Except.isOk, Except.toBool] at hok

namespace Expression

instance : Inhabited (Predicate σ) := ⟨.always⟩

/-! ### Translating trees -/

mutual

/-- The predicate of the shape of a tree, with a predicate in the place of each leaf. -/
def toPredicate (f : String × Condition → Predicate σ) : Expression → Predicate σ
  | .leaf field c => f (field, c)
  | .compound op es => .compound op (toPredicates f es)

/-- The predicates of the shapes of a list of trees. -/
def toPredicates (f : String × Condition → Predicate σ) : List Expression → List (Predicate σ)
  | [] => []
  | e :: es => toPredicate f e :: toPredicates f es

end

mutual

/-- The predicate of the shape of a tree, or the error of the first leaf that fails. -/
def translate (f : String × Condition → Except ε (Predicate σ)) :
    Expression → Except ε (Predicate σ)
  | .leaf field c => f (field, c)
  | .compound op es => (translateAll f es).map (.compound op)

/-- The predicates of a list of trees, or the error of the first leaf that fails. -/
def translateAll (f : String × Condition → Except ε (Predicate σ)) :
    List Expression → Except ε (List (Predicate σ))
  | [] => .ok []
  | e :: es => do
    let p ← translate f e
    let ps ← translateAll f es
    return p :: ps

end

theorem toPredicates_eq_map (f : String × Condition → Predicate σ) (es : List Expression) :
    toPredicates f es = es.map (toPredicate f) := by
  induction es with
  | nil => rfl
  | cons e es ih => rw [toPredicates, ih, List.map_cons]

theorem translateAll_cons_ok {f : String × Condition → Except ε (Predicate σ)} {e : Expression}
    {p : Predicate σ} (h : e.translate f = .ok p) (es : List Expression) :
    translateAll f (e :: es) = (translateAll f es).map (p :: ·) := by
  rw [translateAll, h]
  cases translateAll f es <;> rfl

theorem translateAll_cons_error {f : String × Condition → Except ε (Predicate σ)}
    {e : Expression} {err : ε} (h : e.translate f = .error err) (es : List Expression) :
    translateAll f (e :: es) = .error err := by
  rw [translateAll, h]
  rfl

variable {f : String × Condition → Except ε (Predicate σ)}

theorem translateAll_eq_ok_of {g : Expression → Predicate σ} {es : List Expression}
    (h : ∀ e ∈ es, e.translate f = .ok (g e)) : translateAll f es = .ok (es.map g) := by
  induction es with
  | nil => rfl
  | cons e es ih =>
    rw [translateAll_cons_ok (h e List.mem_cons_self),
      ih fun d hd => h d (List.mem_cons_of_mem e hd)]
    rfl

/-- A tree of whose leaves none fails. -/
theorem translate_eq_ok {g : String × Condition → Predicate σ} {e : Expression}
    (h : ∀ l ∈ e.leaves, f l = .ok (g l)) : e.translate f = .ok (e.toPredicate g) := by
  induction e with
  | leaf field c => exact h (field, c) (by simp [leaves])
  | compound op es ih =>
    have hes : translateAll f es = .ok (es.map (toPredicate g)) :=
      translateAll_eq_ok_of fun e he =>
        ih e he fun l hl => h l (mem_leaves_compound.2 ⟨e, he, hl⟩)
    rw [translate, hes, toPredicate, toPredicates_eq_map]
    rfl

theorem translateAll_eq_ok {g : String × Condition → Predicate σ} {es : List Expression}
    (h : ∀ l ∈ leavesOfAll es, f l = .ok (g l)) :
    translateAll f es = .ok (es.map (toPredicate g)) :=
  translateAll_eq_ok_of fun e he => translate_eq_ok fun l hl =>
    h l (by rw [leavesOfAll_eq_flatMap]; exact List.mem_flatMap.2 ⟨e, he, hl⟩)

/-- A tree without a first failure is translated. -/
theorem exists_translate_eq_ok {e : Expression} (h : firstFailure? f e.leaves = none) :
    ∃ p, e.translate f = .ok p := by
  obtain ⟨g, hg⟩ := exists_ok_of_firstFailure? h
  exact ⟨e.toPredicate g, translate_eq_ok hg⟩

theorem translateAll_eq_error_of {l : String × Condition} {err : ε} {es : List Expression}
    (h : ∀ e ∈ es, firstFailure? f e.leaves = some l → e.translate f = .error err)
    (hl : firstFailure? f (leavesOfAll es) = some l) : translateAll f es = .error err := by
  induction es with
  | nil => cases hl
  | cons e es ih =>
    rw [leavesOfAll, firstFailure?, List.find?_append, ← firstFailure?, ← firstFailure?] at hl
    cases he : firstFailure? f e.leaves with
    | some k =>
      rw [he] at hl
      cases hl
      exact translateAll_cons_error (h e List.mem_cons_self he) es
    | none =>
      rw [he, Option.none_or] at hl
      obtain ⟨p, hp⟩ := exists_translate_eq_ok he
      rw [translateAll_cons_ok hp, ih (fun d hd => h d (List.mem_cons_of_mem e hd)) hl]
      rfl

/-- The first leaf that fails gives the error of the tree. -/
theorem translate_eq_error {e : Expression} {l : String × Condition} {err : ε}
    (hl : firstFailure? f e.leaves = some l) (herr : f l = .error err) :
    e.translate f = .error err := by
  induction e with
  | leaf field c =>
    have hmem := List.mem_of_find?_eq_some hl
    rw [leaves, List.mem_singleton] at hmem
    rw [translate, ← hmem, herr]
  | compound op es ih =>
    rw [translate, translateAll_eq_error_of ih (by rwa [leaves] at hl)]
    rfl

theorem translateAll_eq_error {es : List Expression} {l : String × Condition} {err : ε}
    (hl : firstFailure? f (leavesOfAll es) = some l) (herr : f l = .error err) :
    translateAll f es = .error err :=
  translateAll_eq_error_of (fun _ _ he => translate_eq_error he herr) hl

/-- Trees that are translated have no leaf that fails. -/
theorem exists_of_translateAll_eq_ok {es : List Expression} {ps : List (Predicate σ)}
    (h : translateAll f es = .ok ps) :
    ∃ g : String × Condition → Predicate σ,
      (∀ l ∈ leavesOfAll es, f l = .ok (g l)) ∧ ps = es.map (toPredicate g) := by
  cases hl : firstFailure? f (leavesOfAll es) with
  | some l =>
    obtain ⟨err, herr⟩ := exists_error_of_firstFailure? hl
    rw [translateAll_eq_error hl herr] at h
    cases h
  | none =>
    obtain ⟨g, hg⟩ := exists_ok_of_firstFailure? hl
    rw [translateAll_eq_ok hg] at h
    cases h
    exact ⟨g, hg, rfl⟩

end Expression

/-! ### Compiling is translating -/

open Expression

/-- The predicates that a compilation gives, with the names of their sources in place of them. -/
def Compiled.namedAll (r : Compiled (List Predicate)) :
    Except CompileError (List (Predicate (List String))) :=
  r.1.map (List.map (Predicate.mapSource r.2.names))

/-- The sources that the predicates of a compilation refer to are in its plan. -/
def Compiled.AllInPlan (r : Compiled (List Predicate)) : Prop :=
  ∀ ps, r.1 = .ok ps → ∀ p ∈ ps, ∀ column ∈ p.columns, column.source.IsBelow r.2.joins.length

/-- What is made of predicates without a look at their sources is made of their names, too. -/
theorem Compiled.named_map {F : List Predicate → Predicate}
    {G : List (Predicate (List String)) → Predicate (List String)}
    (h : ∀ f ps, (F ps).mapSource f = G (ps.map (Predicate.mapSource f)))
    (r : Compiled (List Predicate)) :
    Compiled.named (r.1.map F, r.2) = (Compiled.namedAll r).map G := by
  obtain ⟨ps | ps, q⟩ := r
  · rfl
  · simp only [named, namedAll, Except.map, h]

theorem Compiled.AllInPlan.compound {op : Connective} {r : Compiled (List Predicate)}
    (h : Compiled.AllInPlan r) : Compiled.InPlan (r.1.map (.compound op), r.2) := by
  intro p hp column hcolumn
  obtain ⟨ps, hps, rfl⟩ := Except.map_eq_ok_iff.1 hp
  rw [Predicate.columns_compound] at hcolumn
  obtain ⟨p, hmem, hcolumn⟩ := List.mem_flatMap.1 hcolumn
  exact h ps hps p hmem column hcolumn

/-- A predicate that is in a plan stays as it is when the plan grows under the rest. -/
theorem Compiled.cons {p : Predicate} {q : JoinPlan} (hp : Compiled.InPlan (.ok p, q))
    (hq : q.Grounded) {r : Compiled (List Predicate)} (hgrows : q.Grows r.2)
    (hr : Compiled.AllInPlan r) :
    Compiled.namedAll (r.1.map (p :: ·), r.2) =
        (Compiled.namedAll r).map (p.mapSource q.names :: ·) ∧
      Compiled.AllInPlan (r.1.map (p :: ·), r.2) := by
  -- the joins that are added under the rest do not rename the sources of the first predicate
  have hkeep : p.mapSource r.2.names = p.mapSource q.names :=
    Predicate.mapSource_congr fun column hcolumn => hgrows.names hq (hp p rfl column hcolumn)
  constructor
  · obtain ⟨ps | ps, q'⟩ := r
    · rfl
    · simp only [namedAll, Except.map, List.map_cons, hkeep]
  · intro ps hps p' hp' column hcolumn
    obtain ⟨rest, hrest, rfl⟩ := Except.map_eq_ok_iff.1 hps
    rcases List.mem_cons.1 hp' with rfl | hp'
    · exact (hp p' rfl column hcolumn).mono hgrows.length_le
    · exact hr rest hrest p' hp' column hcolumn

theorem compileAll_translate_of {C : Catalog τ} {config : Config} {root : τ}
    {es : List Expression}
    (h : ∀ e ∈ es, ∀ plan : JoinPlan, plan.Grounded →
      Compiled.named (compileExpression C config root e plan) =
          e.translate (C.meaning config root) ∧
        Compiled.InPlan (compileExpression C config root e plan))
    {plan : JoinPlan} (hp : plan.Grounded) :
    Compiled.namedAll (compileAll C config root es plan) =
        translateAll (C.meaning config root) es ∧
      Compiled.AllInPlan (compileAll C config root es plan) := by
  induction es generalizing plan with
  | nil =>
    refine ⟨rfl, fun ps hps p hmem => ?_⟩
    cases hps
    cases hmem
  | cons e es ih =>
    obtain ⟨hnamed, hin⟩ := h e List.mem_cons_self plan hp
    have hq := (compileExpression_steps C config root e plan).grounded hp
    cases hc : compileExpression C config root e plan with
    | mk r q =>
      rw [hc] at hnamed hin hq
      cases r with
      | error err =>
        -- neither side looks at the rest
        rw [compileAll_cons_of_error hc, translateAll_cons_error hnamed.symm]
        exact ⟨rfl, nofun⟩
      | ok p =>
        obtain ⟨hnamedAll, hinAll⟩ := ih (fun d hd => h d (List.mem_cons_of_mem e hd)) hq
        rw [compileAll_cons_of_ok hc, translateAll_cons_ok hnamed.symm, ← hnamedAll]
        exact Compiled.cons hin hq (compileAll_steps C config root es q).grows hinAll

theorem compileExpression_translate (C : Catalog τ) (config : Config) (root : τ)
    (e : Expression) {plan : JoinPlan} (hp : plan.Grounded) :
    Compiled.named (compileExpression C config root e plan) =
        e.translate (C.meaning config root) ∧
      Compiled.InPlan (compileExpression C config root e plan) := by
  induction e generalizing plan with
  | leaf field c => exact compileLeaf_meaning C config root field c hp
  | compound op es ih =>
    obtain ⟨hnamed, hin⟩ := compileAll_translate_of (fun e he _ hq => ih e he hq) hp
    rw [compileExpression_compound, Expression.translate, ← hnamed]
    exact ⟨Compiled.named_map (fun f => Predicate.mapSource_compound f op) _, hin.compound⟩

theorem compileAll_translate (C : Catalog τ) (config : Config) (root : τ) (es : List Expression)
    {plan : JoinPlan} (hp : plan.Grounded) :
    Compiled.namedAll (compileAll C config root es plan) =
        translateAll (C.meaning config root) es ∧
      Compiled.AllInPlan (compileAll C config root es plan) :=
  compileAll_translate_of (fun e _ _ hq => compileExpression_translate C config root e hq) hp

/-- A filter that is not nested too deeply is translated, into any plan. -/
theorem compileFilter_translate (C : Catalog τ) (config : Config) (root : τ)
    {es : List Expression} (hd : checkDepth config es = .ok ()) {plan : JoinPlan}
    (hp : plan.Grounded) :
    Compiled.named (compileFilter C config root es plan) =
      (translateAll (C.meaning config root) es).map Predicate.conjunction := by
  rw [compileFilter_of_checkDepth hd, ← (compileAll_translate C config root es hp).1]
  exact Compiled.named_map Predicate.mapSource_conjunction _

/-- A filter that compiles is put together from the meanings of its leaves. -/
theorem exists_meaning_of_compileFilter {C : Catalog τ} {config : Config} {root : τ}
    {es : List Expression} {plan q : JoinPlan} {p : Predicate} (hp : plan.Grounded)
    (h : compileFilter C config root es plan = (.ok p, q)) :
    ∃ g, (∀ l ∈ leavesOfAll es, C.meaning config root l = .ok (g l)) ∧
      p.mapSource q.names = Predicate.conjunction (es.map (toPredicate g)) := by
  cases hd : checkDepth config es with
  | error e =>
    rw [compileFilter_of_checkDepth_error hd] at h
    cases h
  | ok =>
    have hnamed := compileFilter_translate C config root hd hp
    rw [h] at hnamed
    obtain ⟨ps, hps, hp⟩ := Except.map_eq_ok_iff.1 hnamed.symm
    obtain ⟨g, hg, rfl⟩ := exists_of_translateAll_eq_ok hps
    exact ⟨g, hg, hp.symm⟩

/-! ### Leaves alone -/

/-- The predicate of a query with the names of its sources in their place. -/
def Query.named (q : Query) : Predicate (List String) := q.predicate.mapSource q.plan.names

/-- A leaf compiled alone, into a plan of its own. -/
def Catalog.alone (C : Catalog τ) (config : Config) (root : τ) (l : String × Condition) :
    Except CompileError (Predicate (List String)) :=
  (compileQuery C config root .rows [.leaf l.1 l.2]).map Query.named

/-- The result of a query is that of its filter. -/
theorem compileQuery_map_named (C : Catalog τ) (config : Config) (root : τ)
    (projection : Projection) (es : List Expression) :
    (compileQuery C config root projection es).map Query.named =
      Compiled.named
        (compileFilter C config root es (.start (C.typeName root) (C.primaryKey? root))) := by
  rw [compileQuery_eq]
  cases compileFilter C config root es (.start (C.typeName root) (C.primaryKey? root)) with
  | mk r q => cases r <;> rfl

/-- A leaf compiled into a plan of its own gives its meaning. -/
theorem compileQuery_leaf_meaning (C : Catalog τ) (config : Config) (root : τ)
    (projection : Projection) (field : String) (c : Condition) :
    (compileQuery C config root projection [.leaf field c]).map Query.named =
      C.meaning config root (field, c) := by
  have hd : checkDepth config [.leaf field c] = .ok () := by
    rw [checkDepth, if_neg (by simp [depth])]
    rfl
  rw [compileQuery_map_named, compileFilter_translate C config root hd (grounded_start _ _),
    translateAll, Expression.translate]
  cases C.meaning config root (field, c) <;> rfl

theorem Catalog.alone_eq_meaning (C : Catalog τ) (config : Config) (root : τ)
    (l : String × Condition) : C.alone config root l = C.meaning config root l :=
  compileQuery_leaf_meaning C config root .rows l.1 l.2

/-! ### Compositionality -/

/-- A tree whose leaves have one test each has as many tests as leaves. -/
theorem testCount_toPredicate {g : String × Condition → Predicate σ} {e : Expression}
    (h : ∀ l ∈ e.leaves, (g l).testCount = 1) : (e.toPredicate g).testCount = e.leaves.length := by
  induction e with
  | leaf field c => exact h (field, c) (by simp [leaves])
  | compound op es ih =>
    have hes : ∀ e ∈ es, (e.toPredicate g).columns.length = e.leaves.length := fun e he => by
      rw [← Predicate.testCount_eq_length_columns]
      exact ih e he fun l hl => h l (mem_leaves_compound.2 ⟨e, he, hl⟩)
    rw [Predicate.testCount_eq_length_columns, toPredicate, toPredicates_eq_map,
      Predicate.columns_compound, leaves, leavesOfAll_eq_flatMap, List.flatMap_map,
      List.length_flatMap, List.length_flatMap, List.map_congr_left hes]

/-- A conjunction of trees whose leaves have one test each has as many tests as leaves. -/
theorem testCount_conjunction_toPredicate {g : String × Condition → Predicate σ}
    {es : List Expression} (h : ∀ l ∈ leavesOfAll es, (g l).testCount = 1) :
    (Predicate.conjunction (es.map (toPredicate g))).testCount = (leavesOfAll es).length := by
  calc (Predicate.conjunction (es.map (toPredicate g))).testCount
      = ((compound .and es).toPredicate g).testCount := by
        rw [Predicate.testCount_eq_length_columns, Predicate.testCount_eq_length_columns,
          Predicate.columns_conjunction, toPredicate, toPredicates_eq_map,
          Predicate.columns_compound]
    _ = (leavesOfAll es).length := testCount_toPredicate (e := .compound .and es) h

theorem testCount_mapSource {ρ : Type} (f : σ → ρ) (p : Predicate σ) :
    (p.mapSource f).testCount = p.testCount := by
  rw [Predicate.testCount_eq_length_columns, Predicate.columns_mapSource, List.length_map,
    Predicate.testCount_eq_length_columns]

/-- A leaf compiled alone gives one test. -/
theorem Catalog.testCount_of_alone {C : Catalog τ} {config : Config} {root : τ}
    {l : String × Condition} {p : Predicate (List String)} (h : C.alone config root l = .ok p) :
    p.testCount = 1 := by
  rw [alone_eq_meaning] at h
  obtain ⟨column, hcolumn⟩ := columns_of_meaning h
  rw [Predicate.testCount_eq_length_columns, hcolumn]
  rfl

/-- **A filter is compiled leaf by leaf.** Whatever was compiled into the plan before, the first
leaf that fails when it is compiled alone gives the error, which names its field. When none fails,
the predicate is of the shape of the filter, with each leaf as it is compiled alone, once sources
are replaced by the names that lead to them. -/
theorem compileFilter_compositional (C : Catalog τ) (config : Config) (root : τ)
    {plan : JoinPlan} (hp : plan.Reached C) {es : List Expression}
    (hd : checkDepth config es = .ok ()) :
    (∀ l, firstFailure? (C.alone config root) (leavesOfAll es) = some l →
      ∃ e, C.alone config root l = .error e ∧
        (compileFilter C config root es plan).1 = .error e ∧ e.field? = some l.1) ∧
    (firstFailure? (C.alone config root) (leavesOfAll es) = none →
      ∃ g p q, (∀ l ∈ leavesOfAll es, C.alone config root l = .ok (g l)) ∧
        compileFilter C config root es plan = (.ok p, q) ∧
        p.mapSource q.names = Predicate.conjunction (es.map (toPredicate g)) ∧
        p.testCount = (leavesOfAll es).length) := by
  -- a leaf alone has its meaning, in which no plan occurs
  have halone : C.alone config root = C.meaning config root :=
    funext (C.alone_eq_meaning config root)
  have hcompile := compileFilter_translate C config root hd hp.grounded
  rw [← halone] at hcompile
  constructor
  · intro l hl
    obtain ⟨e, he⟩ := exists_error_of_firstFailure? hl
    rw [translateAll_eq_error hl he] at hcompile
    refine ⟨e, he, Except.map_eq_error_iff.1 hcompile, ?_⟩
    rw [halone] at he
    exact C.field?_of_meaning he
  · intro hl
    obtain ⟨g, hg⟩ := exists_ok_of_firstFailure? hl
    rw [translateAll_eq_ok hg] at hcompile
    obtain ⟨p, hok, hnamed⟩ := Except.map_eq_ok_iff.1 hcompile
    refine ⟨g, p, (compileFilter C config root es plan).2, hg, Prod.ext hok rfl, hnamed, ?_⟩
    rw [← testCount_mapSource, hnamed]
    exact testCount_conjunction_toPredicate fun l hl => C.testCount_of_alone (hg l hl)

/-- A failed filter leaves a left join behind. The filters after it find the join there, and each
fails, or not, as its leaves do alone. -/
theorem compileFilter_staff :
    let C := Registry.staff.catalog
    let plan := (compileFilter C {} .employee
      [.leaf "<department.head" (.single (.compare .equal) (.string "Ann"))]
      (.start "Employee" (some "id"))).2
    let named := leaf "department.name" (.single (.compare .equal) (.string "hr"))
    let numbered := leaf "id" (.single (.compare .greater) (.number (.int 3)))
    let headed := leaf "department.head" (.single (.compare .equal) .null)
    plan.joins.length = 1 ∧
      (∃ e, C.alone {} .employee ("department.head", .single (.compare .equal) .null) = .error e ∧
        (compileFilter C {} .employee [.compound .and [named, headed], numbered] plan).1 =
          .error e ∧ e.field? = some "department.head") ∧
      ∃ g p q, compileFilter C {} .employee [.compound .or [named, numbered]] plan = (.ok p, q) ∧
        p.mapSource q.names = .compound .or [named.toPredicate g, numbered.toPredicate g] ∧
        p.testCount = 2 := by
  intro C plan named numbered headed
  have hplan : plan.Reached C := .compile {} _ _ (.start _ _)
  have hdepth : checkDepth {} [.compound .or [named, numbered]] = .ok () := rfl
  refine ⟨by decide +kernel, ?_, ?_⟩
  · exact (compileFilter_compositional C {} .employee hplan rfl).1 _ (by decide +kernel)
  · obtain ⟨g, p, q, -, hok, hnamed, hcount⟩ :=
      (compileFilter_compositional C {} .employee hplan hdepth).2 (by decide +kernel)
    exact ⟨g, p, q, hok, hnamed, hcount⟩

end QueryFilter
