import QueryFilter.Proofs.Joins
import QueryFilter.Proofs.Registry
import QueryFilter.Proofs.Resolution

/-!
# Duplicate elimination

A join over a link to many entities may give a row of the root type more than once. Duplicates are
eliminated exactly where there is such a join, after any compilations, whether these succeed or
not. So a query eliminates them exactly if one of its leaves leads through such a link.

* `Registry.DeclaresMany`: whether some names end in a link to many entities of a type;
* `JoinPlan.Marked`: duplicates are eliminated exactly where there is a join over such a link;
* `JoinPlan.Marked.visit` and `walk_marked`: an association and a walk keep that;
* `Registry.Sound.isDistinct_iff`: a query eliminates duplicates exactly if it has such a join;
* `Registry.PassesMany`: whether segments lead through such a link;
* `exists_visit_iff_passesMany`: the visits of a leaf show whether they do;
* `Registry.distinct_iff_many`: when a plan and when a query eliminates duplicates.
-/

namespace QueryFilter

open JoinPlan Expression FieldPath

/-! ### Joins over links to many entities -/

/-- Whether the last of some names is that of a link to many entities, as a type declares it. -/
def Registry.DeclaresMany (r : Registry) (owner : String) (path : List String) : Prop :=
  ∃ type name a, r.lookup? owner = some type ∧ path.getLast? = some name ∧
    type.attribute? name = some a ∧ a.isCollection

/-- Duplicates are eliminated exactly if there is a join over a link to many entities. -/
def JoinPlan.Marked (r : Registry) (plan : JoinPlan) : Prop :=
  plan.distinct ↔ ∃ j ∈ plan.joins, r.DeclaresMany j.key.owner j.key.path

variable {r : Registry}

/-- An attribute of a registered type, at the end of its names. -/
theorem Registry.Sound.declaresMany_iff (hr : r.Sound) {type : Entity} (htype : type ∈ r.types)
    {name : String} {a : Attribute} (ha : type.attribute? name = some a) (before : List String) :
    r.DeclaresMany type.name (before ++ [name]) ↔ a.isCollection := by
  have hname : (before ++ [name]).getLast? = some name := List.getLast?_concat
  constructor
  · rintro ⟨owner, n, b, howner, hn, hb, hmany⟩
    rw [hr.lookup?_name htype, Option.some_inj] at howner
    rw [hname, Option.some_inj] at hn
    subst howner hn
    rw [ha, Option.some_inj] at hb
    exact hb ▸ hmany
  · intro hmany
    exact ⟨type, name, a, hr.lookup?_name htype, hname, ha, hmany⟩

theorem JoinPlan.distinct_visit (p : JoinPlan) (many : Bool) (j : JoinRequest) :
    (p.visit many j).2.distinct = (many || p.distinct) := by
  have hdistinct : (if many then p.requireDistinct else p).distinct = (many || p.distinct) := by
    cases many <;> rfl
  rw [visit, ← hdistinct]
  cases h : (if many then p.requireDistinct else p).index? j.key with
  | some i => rw [join_of_index?_some h]
  | none =>
    rw [join_of_index?_none h]
    rfl

/-- Walking through an association keeps the mark, since the mark is set exactly for a link to many
entities, and there is a join over the association afterwards. -/
theorem JoinPlan.Marked.visit {plan : JoinPlan} (h : plan.Marked r) {many : Bool}
    {j : JoinRequest} (hj : r.DeclaresMany j.key.owner j.key.path ↔ many) :
    (plan.visit many j).2.Marked r := by
  unfold Marked at h ⊢
  rw [distinct_visit, Bool.or_eq_true, h, ← hj]
  cases hi : plan.index? j.key with
  | some i =>
    -- the association is joined already, with the same owner and the same names
    obtain ⟨k, hk, hkey⟩ := join?_of_index? hi
    rw [(visit_of_index?_some hi many).2]
    refine or_iff_right_of_imp fun hmany => ⟨k, List.mem_of_getElem? hk, ?_⟩
    rwa [hkey]
  | none =>
    rw [(visit_of_index?_none hi many).2]
    simp only [List.mem_append, List.mem_singleton, or_and_right, exists_or, exists_eq_left]
    exact or_comm

/-- A walk keeps the mark, also where it stops: links lead on in a sound registry, so the mark is
never set without a join. -/
theorem walk_marked (hr : r.Sound) (field : String) (c : Condition) {path : FieldPath}
    {type : Entity} {source : Source} {inner : List String} {plan : JoinPlan}
    (htype : type ∈ r.types) (h : plan.Marked r) :
    (walk r.catalog field c path type source inner plan).2.Marked r := by
  induction path generalizing type source inner plan with
  | broken text => exact h
  | last name =>
    rw [walk]
    split <;> exact h
  | step name join rest ih =>
    rcases walk_step_cases r.catalog field c name join rest type source inner plan with
      ⟨e, q, -, hw, rfl | ⟨rfl, a, ha, hmany, hnone⟩⟩ | ⟨a, next, hf, -, hw⟩ |
      ⟨a, next, hf, has, hw⟩
    · rw [hw]
      exact h
    · obtain ⟨target, hk⟩ : ∃ target, a.kind = .association target true := by
        cases hk : a.kind <;> simp_all [Attribute.isCollection]
      obtain ⟨next, hsome, -⟩ := hr.exists_target? htype (Entity.mem_of_attribute? ha) hk
      rw [hnone] at hsome
      cases hsome
    · rw [hw]
      exact ih (Registry.mem_of_step? (Catalog.step?_of_follow hf)) h
    · rw [hw]
      have ha := (Catalog.follow_eq_ok_iff.1 hf).1
      have hname : a.name = name := r.exact_catalog type name a ha
      refine ih (Registry.mem_of_step? (Catalog.step?_of_follow hf)) (h.visit ?_)
      rw [hname]
      exact hr.declaresMany_iff htype ha inner

/-! ### Compilations -/

/-- The plans that are reached from a plan without joins by any number of compilations, successful
or not, for types of a registry. -/
inductive JoinPlan.ReachedIn (r : Registry) : JoinPlan → Prop
  | start (root : String) (primaryKey : Option String) : ReachedIn r (.start root primaryKey)
  | compile {p : JoinPlan} {root : Entity} (config : Config) (es : List Expression) :
    root ∈ r.types → ReachedIn r p → ReachedIn r (compileFilter r.catalog config root es p).2

theorem compileFilter_marked (hr : r.Sound) (config : Config) {root : Entity}
    (hroot : root ∈ r.types) (es : List Expression) {plan : JoinPlan} (h : plan.Marked r) :
    (compileFilter r.catalog config root es plan).2.Marked r :=
  compileFilter_keeps (fun field c _ hp => compileLeaf_keeps hp (walk_marked hr field c hroot hp))
    es h

theorem JoinPlan.ReachedIn.marked (hr : r.Sound) {plan : JoinPlan} (h : plan.ReachedIn r) :
    plan.Marked r := by
  induction h with
  | start root primaryKey => simp [Marked, JoinPlan.start]
  | compile config es hroot _ ih => exact compileFilter_marked hr config hroot es ih

/-- A query eliminates duplicates exactly if it has a join over a link to many entities. -/
theorem Registry.Sound.isDistinct_iff (hr : r.Sound) {config : Config}
    {root : Entity} (hroot : root ∈ r.types) {projection : Projection} {es : List Expression}
    {q : Query} (h : compileQuery r.catalog config root projection es = .ok q) :
    q.isDistinct ↔ ∃ j ∈ q.plan.joins, r.DeclaresMany j.key.owner j.key.path := by
  rw [compileQuery_eq] at h
  obtain ⟨p, -, rfl⟩ := Except.map_eq_ok_iff.1 h
  exact compileFilter_marked hr config hroot es ((ReachedIn.start _ _).marked hr)

/-! ### Paths through links to many entities -/

/-- Whether segments lead from a type through a link to many entities, with a remainder behind
it. -/
def Registry.PassesMany (r : Registry) (type : Entity) (ss : List (List Char)) : Prop :=
  ∃ before s after owner a, ss = before ++ s :: after ∧ after ≠ [] ∧ r.Leads type before owner ∧
    owner.attribute? (bareName s) = some a ∧ a.isCollection

theorem Registry.not_passesMany_singleton (type : Entity) (s : List Char) :
    ¬r.PassesMany type [s] := by
  rintro ⟨before, s', after, owner, a, hss, hafter, -⟩
  cases before with
  | nil =>
    cases hss
    exact hafter rfl
  | cons => simp at hss

/-- The first segment is that of the link, or it leads to a type from which the others lead through
one. -/
theorem Registry.passesMany_cons_iff {type next : Entity} {s t : List Char}
    {ss : List (List Char)} {a : Attribute} (hs : (readMarkers s).name ≠ [])
    (hstep : r.catalog.step? type (bareName s) = some (a, next)) :
    r.PassesMany type (s :: t :: ss) ↔ a.isCollection ∨ r.PassesMany next (t :: ss) := by
  have ha := (step?_eq_some_iff.1 hstep).1
  constructor
  · rintro ⟨before, s', after, owner, b, hss, hafter, hleads, hb, hmany⟩
    cases before with
    | nil =>
      cases hss
      cases hleads
      rw [ha, Option.some_inj] at hb
      exact .inl (hb ▸ hmany)
    | cons s'' before =>
      rw [List.cons_append, List.cons.injEq] at hss
      obtain ⟨rfl, hss⟩ := hss
      obtain ⟨-, a', next', hstep', hleads⟩ := leads_cons_iff.1 hleads
      rw [hstep, Option.some_inj, Prod.mk.injEq] at hstep'
      obtain ⟨rfl, rfl⟩ := hstep'
      exact .inr ⟨before, s', after, owner, b, hss, hafter, hleads, hb, hmany⟩
  · rintro (hmany | ⟨before, s', after, owner, b, hss, hafter, hleads, hb, hmany⟩)
    · exact ⟨[], s, t :: ss, type, a, rfl, List.cons_ne_nil t ss, .nil type, ha, hmany⟩
    · exact ⟨s :: before, s', after, owner, b, by rw [hss, List.cons_append], hafter,
        leads_cons_iff.2 ⟨hs, a, next, hstep, hleads⟩, hb, hmany⟩

/-! ### Visits of links to many entities -/

/-- A visit of a link to many entities. -/
def Visit.IsMany (r : Registry) (v : Visit) : Prop := r.DeclaresMany v.owner v.path

/-- Segments that resolve visit a link to many entities exactly if they lead through one. -/
theorem exists_visit_iff_passesMany (hr : r.Sound) {c : Condition} {ss : List (List Char)}
    {type : Entity} (htype : type ∈ r.types) (h : r.Resolves c type ss) (before : List String) :
    (∃ v ∈ r.catalog.visits (ofSegments ss) type before, v.IsMany r) ↔ r.PassesMany type ss := by
  induction ss generalizing type before with
  | nil =>
    obtain ⟨init, last, -, -, hss, -⟩ := h
    simp at hss
  | cons s ss ih =>
    cases ss with
    | nil =>
      have hlast : s ≠ [] := (Registry.resolves_singleton_iff.1 h).1
      simp [ofSegments, hlast, Catalog.visits, Registry.not_passesMany_singleton]
    | cons t ss =>
      obtain ⟨hs, a, next, hstep, hrest⟩ := Registry.resolves_cons_iff.1 h
      have hne : ¬((readMarkers s).name = [] ∨ t :: ss = [[]]) := by
        rintro (hname | hempty)
        · exact hs hname
        · rw [hempty] at hrest
          exact (Registry.resolves_singleton_iff.1 hrest).1 rfl
      have hbehind := ih (Registry.mem_of_step? hstep) hrest (before ++ [bareName s])
      rw [Registry.passesMany_cons_iff hs hstep, ← hbehind, ofSegments, if_neg hne]
      cases has : a.isAssociation with
      | false =>
        rw [Catalog.visits_of_embedded hstep has, a.isCollection_eq_false has]
        simp
      | true =>
        have hmany := hr.declaresMany_iff htype (Registry.step?_eq_some_iff.1 hstep).1 before
        rw [Catalog.visits_of_association hstep has, ← hmany]
        exact List.exists_mem_cons_iff ..

theorem exists_firstVisit_iff {C : Catalog Entity} {root : Entity} {vs : List Visit}
    (h : ∀ v ∈ vs, v.Fits C root vs) :
    (∃ v ∈ firstVisits vs, v.IsMany r) ↔ ∃ v ∈ vs, v.IsMany r := by
  constructor
  · rintro ⟨v, hv, hmany⟩
    exact ⟨v, mem_of_mem_firstVisits hv, hmany⟩
  · rintro ⟨v, hv, hmany⟩
    -- the first visit of the same link has the same owner
    obtain ⟨u, hu, hpath⟩ := mem_pathsOf.1 (mem_paths_firstVisits.2 (mem_pathsOf.2 ⟨v, hv, rfl⟩))
    have howner := (h u (mem_of_mem_firstVisits hu)).owner
    rw [hpath, (h v hv).owner, Option.some_inj] at howner
    refine ⟨u, hu, ?_⟩
    rwa [Visit.IsMany, hpath, ← howner]

/-- The join of a visit is over a link to many entities exactly if the visit is one of such a
link. -/
theorem declaresMany_joinOf {C : Catalog Entity} {root : Entity} {paths : List (List String)}
    {v : Visit} : r.DeclaresMany (C.joinOf root paths v).key.owner
      (C.joinOf root paths v).key.path ↔ v.IsMany r := by
  have hlast : (v.path.drop (C.lastLink root v.path.dropLast).length).getLast? =
      v.path.getLast? := by
    have hle := (C.lastLink_prefix root v.path.dropLast).length_le
    rw [List.length_dropLast] at hle
    rw [List.getLast?_drop]
    cases hpath : v.path with
    | nil => simp
    | cons n ns =>
      rw [hpath, List.length_cons] at hle
      rw [if_neg (by rw [List.length_cons]; omega)]
  simp only [Registry.DeclaresMany, Catalog.joinOf, hlast, Visit.IsMany]

theorem exists_joinOf_iff {C : Catalog Entity} {root : Entity} {vs : List Visit} :
    (∃ j ∈ C.joinsOf root vs, r.DeclaresMany j.key.owner j.key.path) ↔ ∃ v ∈ vs, v.IsMany r := by
  have hrequests : (∃ j ∈ C.joinsOf root vs, r.DeclaresMany j.key.owner j.key.path) ↔
      ∃ j ∈ (C.joinsOf root vs).map (·.toJoinRequest), r.DeclaresMany j.key.owner j.key.path := by
    simp only [List.mem_map, exists_exists_and_eq_and]
  rw [hrequests, Catalog.map_toJoinRequest_joinsOf]
  simp only [List.mem_map, exists_exists_and_eq_and, declaresMany_joinOf]

/-- Leaves that resolve visit a link to many entities exactly if one of them leads through one. -/
theorem exists_visitsOf_iff (hr : r.Sound) {root : Entity} (hroot : root ∈ r.types)
    {ls : List (String × Condition)} (h : ∀ l ∈ ls, r.Resolves l.2 root (segments l.1)) :
    (∃ v ∈ r.catalog.visitsOf root ls, v.IsMany r) ↔
      ∃ l ∈ ls, r.PassesMany root (segments l.1) := by
  have hleaf : ∀ l ∈ ls, (∃ v ∈ r.catalog.visits (FieldPath.parse l.1) root [], v.IsMany r) ↔
      r.PassesMany root (segments l.1) := by
    intro l hl
    rw [parse_eq_ofSegments]
    exact exists_visit_iff_passesMany hr hroot (h l hl) []
  constructor
  · rintro ⟨v, hv, hmany⟩
    obtain ⟨l, hl, hv⟩ := List.mem_flatMap.1 hv
    exact ⟨l, hl, (hleaf l hl).1 ⟨v, hv, hmany⟩⟩
  · rintro ⟨l, hl, hpasses⟩
    obtain ⟨v, hv, hmany⟩ := (hleaf l hl).2 hpasses
    exact ⟨v, List.mem_flatMap.2 ⟨l, hl, hv⟩, hmany⟩

/-- **Duplicate elimination.** Whatever has been compiled into a plan for types of a registry that
was built, duplicates are eliminated exactly if there is a join over an attribute that its owner
declares as a link to many entities. A query eliminates them exactly if the path of one of its
leaves leads through such a link, with a remainder behind it. -/
theorem Registry.distinct_iff_many {es : List Entity} (h : ofEntities es = .ok r) :
    (∀ plan : JoinPlan, plan.ReachedIn r →
      (plan.distinct ↔ ∃ j ∈ plan.joins, r.DeclaresMany j.key.owner j.key.path)) ∧
    ∀ config root projection filter q, root ∈ r.types →
      compileQuery r.catalog config root projection filter = .ok q →
      (q.isDistinct ↔ ∃ l ∈ leavesOfAll filter, r.PassesMany root (segments l.1)) := by
  have hr := sound_of_ofEntities h
  refine ⟨fun plan hplan => hplan.marked hr, ?_⟩
  intro config root projection filter q hroot hq
  rw [compileQuery_eq] at hq
  obtain ⟨p, hp, rfl⟩ := Except.map_eq_ok_iff.1 hq
  let vs := r.catalog.visitsOf root (leavesOfAll filter)
  let start := JoinPlan.start root.name root.primaryKey
  let plan := (compileFilter r.catalog config root filter start).2
  have hmarked : plan.Marked r :=
    compileFilter_marked hr config hroot filter ((ReachedIn.start _ _).marked hr)
  have hfollows : plan.Follows r.catalog root vs :=
    compileFilter_follows r.exact_catalog (follows_start _ _ _ _) hp
  obtain ⟨g, hg, -⟩ := exists_meaning_of_compileFilter (grounded_start _ _) (Prod.ext hp rfl)
  calc plan.distinct
      ↔ ∃ j ∈ plan.joins, r.DeclaresMany j.key.owner j.key.path := hmarked
    _ ↔ ∃ v ∈ firstVisits vs, v.IsMany r := by rw [hfollows.joins, exists_joinOf_iff]
    _ ↔ ∃ v ∈ vs, v.IsMany r := exists_firstVisit_iff hfollows.fits
    _ ↔ ∃ l ∈ leavesOfAll filter, r.PassesMany root (segments l.1) :=
        exists_visitsOf_iff hr hroot fun l hl => (exists_meaning_iff.1 ⟨g l, hg l hl⟩).2.2

/-- A filter fails behind the staff of a department, and its plan asks for duplicate elimination
with the join over the staff. A query that goes through the staff eliminates duplicates, and one
that tests the department does not. -/
theorem Registry.distinct_iff_many_staff :
    let isNull (field : String) := Expression.leaf field (.single (.compare .equal) .null)
    let failed := compileFilter staff.catalog {} .employee [isNull "department.staff.salary"]
      (.start "Employee" (some "id"))
    let compile (field : String) := compileQuery staff.catalog {} .employee .rows [isNull field]
    ofEntities [.employee, .department, .address] = .ok staff ∧ failed.1.isOk = false ∧
      failed.2.distinct ∧
      (∃ q, compile "<department.staff?.address.city" = .ok q ∧ q.isDistinct) ∧
      ∃ q, compile "department.name" = .ok q ∧ q.isDistinct = false := by
  intro isNull failed compile
  have hbuilt : ofEntities [.employee, .department, .address] = .ok staff := by decide +kernel
  have hemployee : Entity.employee ∈ staff.types := by decide
  obtain ⟨hplan, hquery⟩ := distinct_iff_many hbuilt
  refine ⟨hbuilt, by decide +kernel, ?_, ?_, ?_⟩
  · refine (hplan failed.2 (.compile {} _ hemployee (.start _ _))).2 ?_
    refine ⟨⟨⟨⟨.joined 0, "Department", ["staff"]⟩, "Employee", .inner⟩, 1⟩, by decide +kernel, ?_⟩
    exact ⟨.department, "staff", ⟨"staff", .association "Employee" true⟩, by decide⟩
  · obtain ⟨q, hq⟩ : ∃ q, compile "<department.staff?.address.city" = .ok q :=
      Except.exists_ok_of_isOk (by decide +kernel)
    refine ⟨q, hq, (hquery {} .employee .rows _ q hemployee hq).2 ⟨_, List.mem_cons_self, ?_⟩⟩
    refine ⟨["<department".toList], "staff?".toList, ["address".toList, "city".toList],
      .department, ⟨"staff", .association "Employee" true⟩, by decide, by decide, ?_, by decide⟩
    exact .association (by decide) rfl rfl rfl (.nil _)
  · obtain ⟨q, hq⟩ : ∃ q, compile "department.name" = .ok q :=
      Except.exists_ok_of_isOk (by decide +kernel)
    refine ⟨q, hq, Bool.eq_false_iff.2 fun hdistinct => ?_⟩
    obtain ⟨l, hl, hpasses⟩ := (hquery {} .employee .rows _ q hemployee hq).1 hdistinct
    obtain rfl := List.mem_singleton.1 hl
    have hstep : staff.catalog.step? .employee (bareName "department".toList) =
        some (⟨"department", .association "Department" false⟩, .department) := by decide
    have hsegments : segments "department.name" = ["department".toList, "name".toList] := by decide
    rw [hsegments, passesMany_cons_iff (by decide) hstep] at hpasses
    rcases hpasses with hmany | hpasses
    · cases hmany
    · exact not_passesMany_singleton _ _ hpasses

end QueryFilter
