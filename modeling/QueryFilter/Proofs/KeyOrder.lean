import QueryFilter.Proofs.Distinct
import QueryFilter.Proofs.Reordering
import QueryFilter.Proofs.Routes
import QueryFilter.Query.Report

/-!
# The order of keys in a document

A document whose keys are put in another order is compiled leaf by leaf in another order, so the
joins are made in another order and have other places. It is accepted as before all the same, and
the query is the same but for these places and for the order of conjunctions.

* `exists_compileQuery_iff`: which filters are accepted, in whatever order their leaves are;
* `compileQuery_named`: the predicate that is then given, by the meanings of the leaves;
* `compileQuery_follows`: the joins, which follow the visits of the leaves;
* `Registry.isDistinct_iff_exists_visit`: whether duplicates are eliminated, by these visits;
* `Report.compileDocument_reordered`: what holds of documents with their keys in another order.
-/

namespace QueryFilter

open JoinPlan Expression

variable {τ : Type}

/-! ### Accepted filters -/

/-- The depth of a filter is that of its deepest expression. -/
theorem checkDepth_eq_ok_iff {config : Config} {es : List Expression} :
    checkDepth config es = .ok () ↔ depthOfAll es ≤ config.maxDepth + 1 := by
  induction es with
  | nil => simp [checkDepth, depthOfAll]
  | cons e es ih =>
    rw [checkDepth, depthOfAll]
    split
    · simp; omega
    · rw [ih]
      omega

section

variable {C : Catalog τ} {config : Config} {root : τ} {projection : Projection}
  {es ds : List Expression} {q q' : Query}

/-- A filter whose leaves have a meaning is compiled to the predicate that these meanings make. -/
theorem compileQuery_meaning (hd : checkDepth config es = .ok ())
    {g : String × Condition → Predicate (List String)}
    (hg : ∀ l ∈ leavesOfAll es, C.meaning config root l = .ok (g l)) :
    (compileQuery C config root projection es).map Query.named =
      .ok (Predicate.conjunction (es.map (toPredicate g))) := by
  rw [compileQuery_map_named, compileFilter_translate C config root hd (grounded_start _ _),
    translateAll_eq_ok hg]
  rfl

/-- A filter is accepted if it is not nested too deeply and each of its leaves has a meaning. -/
theorem exists_compileQuery_iff :
    (∃ q, compileQuery C config root projection es = .ok q) ↔
      depthOfAll es ≤ config.maxDepth + 1 ∧
        ∀ l ∈ leavesOfAll es, ∃ p, C.meaning config root l = .ok p := by
  rw [← checkDepth_eq_ok_iff]
  constructor
  · rintro ⟨q, hq⟩
    rw [compileQuery_eq] at hq
    obtain ⟨p, hp, -⟩ := Except.map_eq_ok_iff.1 hq
    obtain ⟨g, hg, -⟩ := exists_meaning_of_compileFilter (grounded_start _ _) (Prod.ext hp rfl)
    refine ⟨?_, fun l hl => ⟨g l, hg l hl⟩⟩
    cases hd : checkDepth config es with
    | ok => rfl
    | error e =>
      rw [compileFilter_of_checkDepth_error hd] at hp
      cases hp
  · rintro ⟨hd, hmeaning⟩
    choose! g hg using hmeaning
    obtain ⟨q, hq, -⟩ := Except.map_eq_ok_iff.1 (compileQuery_meaning hd hg)
    exact ⟨q, hq⟩

theorem compileQuery_named (h : compileQuery C config root projection es = .ok q)
    {g : String × Condition → Predicate (List String)}
    (hg : ∀ l ∈ leavesOfAll es, C.meaning config root l = .ok (g l)) :
    q.named = Predicate.conjunction (es.map (toPredicate g)) := by
  have hd := checkDepth_eq_ok_iff.2 (exists_compileQuery_iff.1 ⟨q, h⟩).1
  have hnamed : (compileQuery C config root projection es).map Query.named = _ :=
    compileQuery_meaning hd hg
  rw [h] at hnamed
  exact Except.ok.inj hnamed

/-- The joins of a query are made on the visits of its leaves, and each starts at an earlier one. -/
theorem compileQuery_follows (hC : C.Exact)
    (h : compileQuery C config root projection es = .ok q) :
    q.plan.Follows C root (C.visitsOf root (leavesOfAll es)) ∧ q.plan.Grounded := by
  rw [compileQuery_eq] at h
  obtain ⟨p, hp, rfl⟩ := Except.map_eq_ok_iff.1 h
  exact ⟨compileFilter_follows hC (follows_start C root _ _) hp,
    (compileFilter_steps C config root es _).grounded (grounded_start _ _)⟩

/-! ### Filters in another order -/

theorem Expression.Reordered.perm_leavesOfAll (h : (allOf es).Reordered (allOf ds)) :
    (leavesOfAll es).Perm (leavesOfAll ds) := h.perm_leaves

/-- A filter in another order is accepted if the filter is. -/
theorem Expression.Reordered.exists_compileQuery_iff (h : (allOf es).Reordered (allOf ds)) :
    (∃ q, compileQuery C config root projection es = .ok q) ↔
      ∃ q, compileQuery C config root projection ds = .ok q := by
  have hdepth : depthOfAll es = depthOfAll ds := by
    have hdepth := h.depth_eq
    rw [allOf, allOf, depth, depth] at hdepth
    omega
  rw [QueryFilter.exists_compileQuery_iff, QueryFilter.exists_compileQuery_iff, hdepth]
  simp only [h.perm_leavesOfAll.mem_iff]

/-- A filter in another order has the same predicate but for the order of conjunctions, when sources
are replaced by their names. -/
theorem Expression.Reordered.named (h : (allOf es).Reordered (allOf ds))
    (hq : compileQuery C config root projection es = .ok q)
    (hq' : compileQuery C config root projection ds = .ok q') : q.named.Reordered q'.named := by
  obtain ⟨-, hmeaning⟩ := QueryFilter.exists_compileQuery_iff.1 ⟨q, hq⟩
  choose! g hg using hmeaning
  rw [compileQuery_named hq hg,
    compileQuery_named hq' fun l hl => hg l (h.perm_leavesOfAll.mem_iff.2 hl)]
  exact h.conjunction g

/-- A filter in another order has the same routes, when its visits agree. -/
theorem Expression.Reordered.perm_routes (h : (allOf es).Reordered (allOf ds)) (hC : C.Exact)
    (hagree : Visit.Agree (C.visitsOf root (leavesOfAll es)))
    (hq : compileQuery C config root projection es = .ok q)
    (hq' : compileQuery C config root projection ds = .ok q') :
    q.plan.routes.Perm q'.plan.routes := by
  obtain ⟨hfollows, hp⟩ := compileQuery_follows hC hq
  obtain ⟨hfollows', hp'⟩ := compileQuery_follows hC hq'
  rw [hfollows.routes_eq hp, hfollows'.routes_eq hp']
  exact hagree.perm_routes h.perm_leavesOfAll

end

/-- A query eliminates duplicates exactly if one of its leaves visits a link to many entities. -/
theorem Registry.isDistinct_iff_exists_visit {r : Registry} (hr : r.Sound) {config : Config}
    {root : Entity} (hroot : root ∈ r.types) {projection : Projection} {es : List Expression}
    {q : Query} (h : compileQuery r.catalog config root projection es = .ok q) :
    q.isDistinct ↔ ∃ v ∈ r.catalog.visitsOf root (leavesOfAll es), v.IsMany r := by
  obtain ⟨hfollows, -⟩ := compileQuery_follows r.exact_catalog h
  rw [hr.isDistinct_iff hroot h, hfollows.joins, exists_joinOf_iff,
    exists_firstVisit_iff hfollows.fits]

/-! ### Documents in another order -/

/-- The links that the leaves of a document lead through. A document that is not decoded leads
through none. -/
def Document.visits (C : Catalog τ) (root : τ) (d : Document) : List Visit :=
  match d.expressions with
  | .ok es => C.visitsOf root (leavesOfAll es)
  | .error _ => []

/-- A document is compiled if it is decoded and its expressions are compiled. -/
theorem Report.compileDocument_eq_ok_iff {C : Catalog τ} {config : Config} {root : τ}
    {d : Document} {m : Metrics} {q : Query} :
    (compileDocument C config root d m).result = .ok q ↔
      ∃ es, d.expressions = .ok es ∧ QueryFilter.compileQuery C config root .rows es = .ok q := by
  rw [compileDocument]
  cases d.expressions with
  | error e => simp
  | ok es =>
    simp only [Except.ok.injEq, exists_eq_left', compileQuery_eq]
    dsimp only [compileQuery, compileFilter]
    cases (QueryFilter.compileFilter C config root es _).1 <;> simp [Except.map, Except.mapError]

/-- A document with its keys in another order is accepted if the document is. -/
theorem Report.exists_compileDocument_of_reordered {C : Catalog τ} {config : Config} {root : τ}
    {d d' : Document} (h : d.toJson.Reordered d'.toJson) {m m' : Metrics}
    (hok : ∃ q, (compileDocument C config root d m).result = .ok q) :
    ∃ q, (compileDocument C config root d' m').result = .ok q := by
  obtain ⟨q, hq⟩ := hok
  obtain ⟨es, hes, hq⟩ := compileDocument_eq_ok_iff.1 hq
  obtain ⟨ds, hds, hreordered⟩ := Document.expressions_reordered h hes
  obtain ⟨q', hq'⟩ := hreordered.exists_compileQuery_iff.1 ⟨q, hq⟩
  exact ⟨q', compileDocument_eq_ok_iff.2 ⟨ds, hds, hq'⟩⟩

/-- **The order of keys.** A document with its keys in another order, at any depth, is accepted if
the document is. The predicates differ in the order of conjunctions only, when sources are replaced
by the names that lead to them, and duplicates are eliminated in both or in none. When all visits of
an association ask for the same type of join, the joins lead through the same names to the same
targets with the same types. -/
theorem Report.compileDocument_reordered {types : List Entity} {r : Registry}
    (hr : Registry.ofEntities types = .ok r) (config : Config) {root : Entity}
    (hroot : root ∈ r.types) {d d' : Document} (h : d.toJson.Reordered d'.toJson)
    (m m' : Metrics) :
    let compiled := (compileDocument r.catalog config root d m).result
    let compiled' := (compileDocument r.catalog config root d' m').result
    ((∃ q, compiled = .ok q) ↔ ∃ q, compiled' = .ok q) ∧
    ∀ q q', compiled = .ok q → compiled' = .ok q' →
      q.named.Reordered q'.named ∧ q.isDistinct = q'.isDistinct ∧
      (Visit.Agree (d.visits r.catalog root) → q.plan.routes.Perm q'.plan.routes) := by
  intro compiled compiled'
  refine ⟨⟨exists_compileDocument_of_reordered h, exists_compileDocument_of_reordered h.symm⟩, ?_⟩
  intro q q' hq hq'
  obtain ⟨es, hes, hq⟩ := compileDocument_eq_ok_iff.1 hq
  obtain ⟨ds, hds, hq'⟩ := compileDocument_eq_ok_iff.1 hq'
  obtain ⟨ds', hds', hreordered⟩ := Document.expressions_reordered h hes
  obtain rfl := Except.ok.inj (hds.symm.trans hds')
  refine ⟨hreordered.named hq hq', ?_, fun hagree => ?_⟩
  · have hvisits : (r.catalog.visitsOf root (leavesOfAll es)).Perm
        (r.catalog.visitsOf root (leavesOfAll ds)) :=
      hreordered.perm_leavesOfAll.flatMap_right _
    have hsound := Registry.sound_of_ofEntities hr
    rw [Bool.eq_iff_iff, Registry.isDistinct_iff_exists_visit hsound hroot hq,
      Registry.isDistinct_iff_exists_visit hsound hroot hq']
    simp only [hvisits.mem_iff]
  · rw [Document.visits, hes] at hagree
    exact hreordered.perm_routes r.exact_catalog hagree hq hq'

/-- Persons with a name. -/
def Entity.person : Entity := (entity "Person").basic "name" .text

/-- Sales to a buyer, with any number of helpers. -/
def Entity.sale : Entity :=
  (((entity "Sale").basic "number" (.integer .long)).toOne "buyer" "Person").toMany "helpers"
    "Person"

/-- The registry of sales. -/
def Registry.sales : Registry := ⟨[.person, .sale]⟩

/-- The join over the buyer comes first in one order and second in the other. So the tests of the
names have other sources, under the names of which they are the same. -/
theorem Report.compileDocument_reordered_sales :
    let sub (ms : List (String × Json)) : Json :=
      .array [.object ms, .object [("number", .scalar .null)]]
    let buyer : String × Json := ("buyer.name", .scalar (.string "Ann"))
    let helpers : String × Json := ("<helpers.name", .scalar (.string "Bob"))
    let number : String × Json := ("number", .scalar (.number (.int 3)))
    let d : Document := ⟨[buyer, ("$or", sub [helpers, number])]⟩
    let d' : Document := ⟨[("$or", sub [number, helpers]), buyer]⟩
    let compile (d : Document) := (compileDocument Registry.sales.catalog {} .sale d {}).result
    ∃ q q', compile d = .ok q ∧ compile d' = .ok q' ∧
      q.plan.joins.map (·.key.path) = [["buyer"], ["helpers"]] ∧
      q'.plan.joins.map (·.key.path) = [["helpers"], ["buyer"]] ∧
      q.named.Reordered q'.named ∧ q.isDistinct = q'.isDistinct ∧
      q.plan.routes.Perm q'.plan.routes := by
  intro sub buyer helpers number d d' compile
  have hbuilt : Registry.ofEntities [.sale, .person] = .ok .sales := by decide +kernel
  have hsub : (sub [helpers, number]).Reordered (sub [number, helpers]) :=
    .array (.cons (.object (.cons (.value _ (.scalar _)) (.cons (.value _ (.scalar _)) .nil))
      (.swap _ _ [])) (.cons (.object (.cons (.value _ (.scalar _)) .nil) (.refl _)) .nil))
  have hd : d.toJson.Reordered d'.toJson :=
    .object (.cons (.value _ (.scalar _)) (.cons (.value _ hsub) .nil)) (.swap _ _ [])
  have hsale : Entity.sale ∈ Registry.sales.types := by decide
  obtain ⟨haccepted, hquery⟩ := compileDocument_reordered hbuilt {} hsale hd {} {}
  obtain ⟨q, hq⟩ : ∃ q, compile d = .ok q := Except.exists_ok_of_isOk (by decide +kernel)
  obtain ⟨q', hq'⟩ := haccepted.1 ⟨q, hq⟩
  obtain ⟨hnamed, hdistinct, hroutes⟩ := hquery q q' hq hq'
  refine ⟨q, q', hq, hq', ?_, ?_, hnamed, hdistinct, hroutes (by decide +kernel)⟩
  · apply Except.eq_of_toOption_map (·.plan.joins.map (·.key.path)) hq
    decide +kernel
  · apply Except.eq_of_toOption_map (·.plan.joins.map (·.key.path)) hq'
    decide +kernel

end QueryFilter
