import Mathlib.Data.List.Basic
import QueryFilter.Proofs.Places

/-!
# The joins of a query

A query joins every link that its leaves walk through once, in the order of the first visits. A
plan identifies a join by its source, the owner of the link and the names between them; the visits
are told apart by the names from the root type alone. The two agree on every walk.

* `Catalog.visits`: the links that a path leads through;
* `firstVisits`: the first visit of each link;
* `Catalog.joinsOf`: the joins that visits call for;
* `walk_follows`: a walk adds the joins of its visits;
* `compileQuery_joins`: the joins of a query are those of the first visits along its leaves.
-/

namespace QueryFilter

open JoinPlan Expression

variable {τ : Type}

/-! ### Visits -/

/-- A visit of a link: the names that lead to it from the root type, the types on both of its
sides, and the type of join that is asked for. -/
structure Visit where
  path : List String
  owner : String
  target : String
  type : JoinType
  deriving DecidableEq, Repr

/-- The links that a path leads through with a remainder behind them, from a type that the names
`before` lead to. -/
def Catalog.visits (C : Catalog τ) : FieldPath → τ → (before : List String) → List Visit
  | .last _, _, _ | .broken _, _, _ => []
  | .step name join rest, type, before =>
    match C.step? type name with
    | none => []
    | some (a, next) =>
      if a.isAssociation then
        ⟨before ++ [name], C.typeName type, C.typeName next, join⟩ ::
          C.visits rest next (before ++ [name])
      else C.visits rest next (before ++ [name])

/-- The first visit of each link. -/
def firstVisits : List Visit → List Visit
  | [] => []
  | v :: vs => v :: (firstVisits vs).filter (·.path ≠ v.path)

/-- The names that lead to the links. -/
def pathsOf (vs : List Visit) : List (List String) := vs.map (·.path)

@[simp] theorem pathsOf_cons (v : Visit) (vs : List Visit) :
    pathsOf (v :: vs) = v.path :: pathsOf vs := rfl

@[simp] theorem pathsOf_append (us vs : List Visit) :
    pathsOf (us ++ vs) = pathsOf us ++ pathsOf vs := List.map_append

theorem mem_pathsOf {path : List String} {vs : List Visit} :
    path ∈ pathsOf vs ↔ ∃ v ∈ vs, v.path = path := List.mem_map

theorem mem_paths_firstVisits {path : List String} {vs : List Visit} :
    path ∈ pathsOf (firstVisits vs) ↔ path ∈ pathsOf vs := by
  induction vs with
  | nil => rfl
  | cons v vs ih =>
    by_cases h : path = v.path
    · simp [firstVisits, h]
    · have hne : ∀ u : Visit, u.path = path → u.path ≠ v.path := fun u hu => hu ▸ h
      rw [firstVisits, pathsOf_cons, pathsOf_cons, List.mem_cons, List.mem_cons, ← ih]
      simp only [mem_pathsOf, List.mem_filter, decide_eq_true_eq]
      grind

theorem mem_of_mem_firstVisits {v : Visit} {vs : List Visit} (h : v ∈ firstVisits vs) :
    v ∈ vs := by
  induction vs with
  | nil => exact h
  | cons u vs ih =>
    rcases List.mem_cons.1 h with rfl | h
    · exact List.mem_cons_self
    · exact List.mem_cons_of_mem u (ih (List.mem_filter.1 h).1)

/-- A visit counts unless there was one of the same link before. -/
theorem firstVisits_concat (vs : List Visit) (v : Visit) :
    firstVisits (vs ++ [v]) =
      if v.path ∈ pathsOf vs then firstVisits vs else firstVisits vs ++ [v] := by
  induction vs with
  | nil => rfl
  | cons u vs ih =>
    rw [List.cons_append, firstVisits, ih, firstVisits, pathsOf_cons]
    by_cases h : v.path ∈ pathsOf vs
    · rw [if_pos h, if_pos (List.mem_cons_of_mem _ h)]
    · rw [if_neg h, List.filter_append]
      by_cases hu : v.path = u.path
      · simp [hu]
      · rw [if_neg (by simp [h, hu])]
        simp [hu]

theorem nodup_pathsOf_firstVisits (vs : List Visit) : (pathsOf (firstVisits vs)).Nodup := by
  induction vs with
  | nil => exact List.nodup_nil
  | cons v vs ih =>
    rw [firstVisits, pathsOf_cons, List.nodup_cons]
    constructor
    · intro hmem
      obtain ⟨u, hu, hpath⟩ := mem_pathsOf.1 hmem
      have hne := (List.mem_filter.1 hu).2
      simp [hpath] at hne
    · exact (List.filter_sublist.map _).nodup ih

/-! ### Joins of visits -/

/-- The source that names from the root type lead to, when there are joins with some paths. -/
def sourceAt (paths : List (List String)) (path : List String) : Source :=
  if path = [] then .root else .joined (paths.idxOf path)

/-- Whether names lead to a source. -/
def HasSource (paths : List (List String)) (path : List String) : Prop := path = [] ∨ path ∈ paths

theorem HasSource.mono {paths paths' : List (List String)} {path : List String}
    (h : HasSource paths path) (hsub : ∀ p ∈ paths, p ∈ paths') : HasSource paths' path :=
  h.imp id (hsub path)

/-- Further joins do not change what names lead to. -/
theorem HasSource.sourceAt_append {paths : List (List String)} {path : List String}
    (h : HasSource paths path) (more : List (List String)) :
    sourceAt (paths ++ more) path = sourceAt paths path := by
  unfold sourceAt
  rcases h with rfl | h
  · rfl
  · rw [List.idxOf_append_of_mem h]

/-- Different names do not lead to the same source. -/
theorem HasSource.sourceAt_inj {paths : List (List String)} {path path' : List String}
    (h : HasSource paths path) (heq : sourceAt paths path = sourceAt paths path') :
    path = path' := by
  by_cases hp : path = [] <;> by_cases hp' : path' = []
  · rw [hp, hp']
  · simp [sourceAt, hp, hp'] at heq
  · simp [sourceAt, hp, hp'] at heq
  · have hmem : path ∈ paths := h.resolve_left hp
    simp only [sourceAt, if_neg hp, if_neg hp', Source.joined.injEq] at heq
    exact (List.idxOf_inj hmem).1 heq

/-- The join that a visit asks for, when there are joins with some paths: its source is that of the
last link before it, and its names are those after that source. -/
def Catalog.joinOf (C : Catalog τ) (root : τ) (paths : List (List String)) (v : Visit) :
    JoinRequest :=
  let before := C.lastLink root v.path.dropLast
  ⟨⟨sourceAt paths before, v.owner, v.path.drop before.length⟩, v.target, v.type⟩

/-- The joins of a list of visits, with their places as ids. -/
def Catalog.joinsOf (C : Catalog τ) (root : τ) (vs : List Visit) : List Join :=
  vs.mapIdx fun i v => ⟨C.joinOf root (pathsOf vs) v, i⟩

@[simp] theorem Catalog.length_joinsOf (C : Catalog τ) (root : τ) (vs : List Visit) :
    (C.joinsOf root vs).length = vs.length := List.length_mapIdx

/-- What the joins of visits are over and lead to is what the visits ask for. -/
theorem Catalog.map_toJoinRequest_joinsOf (C : Catalog τ) (root : τ) (vs : List Visit) :
    (C.joinsOf root vs).map (·.toJoinRequest) = vs.map (C.joinOf root (pathsOf vs)) :=
  List.ext_getElem (by simp) fun i _ _ => by simp [joinsOf]

/-- One visit more adds its join behind the others. -/
theorem Catalog.joinsOf_concat {C : Catalog τ} {root : τ} {vs : List Visit} {v : Visit}
    (h : ∀ u ∈ vs ++ [v], HasSource (pathsOf vs) (C.lastLink root u.path.dropLast)) :
    C.joinsOf root (vs ++ [v]) =
      C.joinsOf root vs ++ [⟨C.joinOf root (pathsOf vs) v, vs.length⟩] := by
  have hjoin : ∀ u ∈ vs ++ [v],
      C.joinOf root (pathsOf (vs ++ [v])) u = C.joinOf root (pathsOf vs) u := by
    intro u hu
    simp only [joinOf, pathsOf_append, (h u hu).sourceAt_append]
  rw [joinsOf, List.mapIdx_concat, hjoin v (by simp), joinsOf]
  congr 1
  refine List.mapIdx_eq_mapIdx_iff.2 fun i hi => ?_
  rw [hjoin _ (List.mem_append_left _ (List.getElem_mem hi))]

/-! ### Plans that follow visits -/

/-- A visit fits a list of visits: its owner is the type that is reached before the link, and the
last link before it was visited, too. -/
structure Visit.Fits (C : Catalog τ) (root : τ) (vs : List Visit) (v : Visit) : Prop where
  owner : (C.reach? root v.path.dropLast).map C.typeName = some v.owner
  source : HasSource (pathsOf vs) (C.lastLink root v.path.dropLast)

/-- A plan follows visits: each fits them, and its joins are those of the first ones. -/
structure JoinPlan.Follows (C : Catalog τ) (root : τ) (vs : List Visit) (plan : JoinPlan) :
    Prop where
  fits : ∀ v ∈ vs, v.Fits C root vs
  joins : plan.joins = C.joinsOf root (firstVisits vs)

variable {C : Catalog τ} {root : τ}

theorem Visit.Fits.mono {vs vs' : List Visit} {v : Visit} (h : v.Fits C root vs)
    (hsub : ∀ u ∈ vs, u ∈ vs') : v.Fits C root vs' := by
  refine ⟨h.owner, h.source.mono fun p hp => ?_⟩
  obtain ⟨u, hu, rfl⟩ := mem_pathsOf.1 hp
  exact mem_pathsOf.2 ⟨u, hsub u hu, rfl⟩

/-- Names from the root type identify a link as well as source, owner and names from the source
do. -/
theorem Visit.Fits.key_eq_iff {vs : List Visit} {u v : Visit} (hu : u.Fits C root vs)
    (hv : v.Fits C root vs) :
    (C.joinOf root (pathsOf (firstVisits vs)) u).key =
      (C.joinOf root (pathsOf (firstVisits vs)) v).key ↔ u.path = v.path := by
  constructor
  · intro h
    simp only [Catalog.joinOf, AssociationKey.mk.injEq] at h
    obtain ⟨hsource, -, hpath⟩ := h
    -- both start at the same source, which only one list of names leads to
    have hlast : C.lastLink root u.path.dropLast = C.lastLink root v.path.dropLast :=
      (hu.source.mono fun _ => mem_paths_firstVisits.2).sourceAt_inj hsource
    calc u.path = C.lastLink root u.path.dropLast ++
          u.path.drop (C.lastLink root u.path.dropLast).length :=
            (C.lastLink_append_drop root u.path).symm
      _ = C.lastLink root v.path.dropLast ++
          v.path.drop (C.lastLink root v.path.dropLast).length := by rw [hpath, hlast]
      _ = v.path := C.lastLink_append_drop root v.path
  · intro h
    have howner : u.owner = v.owner := by
      have := hu.owner.symm.trans ((congrArg _ (by rw [h])).trans hv.owner)
      exact Option.some.inj this
    simp only [Catalog.joinOf, h, howner]

/-- The first element with a property that a value of the elements decides. -/
theorem findIdx?_eq_ite_idxOf {α β : Type} [BEq β] [LawfulBEq β] {p : α → Bool} {f : α → β} {b : β}
    {xs : List α} (h : ∀ x ∈ xs, p x = true ↔ f x = b) :
    xs.findIdx? p = if b ∈ xs.map f then some ((xs.map f).idxOf b) else none := by
  induction xs with
  | nil => rfl
  | cons x xs ih =>
    have hx := h x List.mem_cons_self
    rw [List.findIdx?_cons, ih fun y hy => h y (List.mem_cons_of_mem x hy), List.map_cons,
      List.idxOf_cons]
    by_cases hb : f x = b
    · simp [hx.2 hb, hb]
    · have hp : p x = false := by simpa [hb] using hx
      have hne : b ≠ f x := fun heq => hb heq.symm
      have hbeq : (f x == b) = false := by simpa using hb
      by_cases hmem : b ∈ xs.map f <;> simp only [hp, hne, hbeq, hmem, List.mem_cons] <;> simp

/-- The join over a link is found by the names that lead to the link. -/
theorem JoinPlan.Follows.index? {vs : List Visit} {plan : JoinPlan} (h : plan.Follows C root vs)
    {v : Visit} (hv : v.Fits C root vs) :
    plan.index? (C.joinOf root (pathsOf (firstVisits vs)) v).key =
      if v.path ∈ pathsOf (firstVisits vs) then some ((pathsOf (firstVisits vs)).idxOf v.path)
      else none := by
  have hkeys : ∀ u ∈ firstVisits vs, ((C.joinOf root (pathsOf (firstVisits vs)) u).key ==
      (C.joinOf root (pathsOf (firstVisits vs)) v).key) = true ↔ u.path = v.path := by
    intro u hu
    rw [beq_iff_eq]
    exact (h.fits u (mem_of_mem_firstVisits hu)).key_eq_iff hv
  rw [JoinPlan.index?_eq_findIdx?, h.joins, Catalog.map_toJoinRequest_joinsOf, List.findIdx?_map]
  exact findIdx?_eq_ite_idxOf hkeys

/-- Visiting a link: a plan that follows visits follows one visit more, and gives back the source
that the names of the link lead to. -/
theorem JoinPlan.Follows.visit {vs : List Visit} {plan : JoinPlan} (h : plan.Follows C root vs)
    {v : Visit} (hv : v.Fits C root vs) (hpath : v.path ≠ []) (many : Bool) :
    let r := plan.visit many (C.joinOf root (pathsOf (firstVisits vs)) v)
    r.2.Follows C root (vs ++ [v]) ∧
      Source.joined r.1 = sourceAt (pathsOf (firstVisits (vs ++ [v]))) v.path := by
  intro r
  have hfits : ∀ u ∈ vs ++ [v], u.Fits C root (vs ++ [v]) := by
    intro u hu
    rcases List.mem_append.1 hu with hu | hu
    · exact (h.fits u hu).mono fun _ => List.mem_append_left _
    · rw [List.mem_singleton.1 hu]
      exact hv.mono fun _ => List.mem_append_left _
  have hindex := h.index? hv
  have hsource : sourceAt (pathsOf (firstVisits (vs ++ [v]))) v.path =
      .joined ((pathsOf (firstVisits (vs ++ [v]))).idxOf v.path) := if_neg hpath
  rw [hsource]
  by_cases hmem : v.path ∈ pathsOf (firstVisits vs)
  · rw [if_pos hmem] at hindex
    obtain ⟨hi, hjoins⟩ := visit_of_index?_some hindex many
    -- the link was visited before, so neither the joins nor the first visits change
    rw [firstVisits_concat, if_pos (mem_paths_firstVisits.1 hmem), hi]
    refine ⟨⟨hfits, ?_⟩, rfl⟩
    rw [firstVisits_concat, if_pos (mem_paths_firstVisits.1 hmem), hjoins, h.joins]
  · rw [if_neg hmem] at hindex
    obtain ⟨hi, hjoins⟩ := visit_of_index?_none hindex many
    have hmem' : v.path ∉ pathsOf vs := fun hv => hmem (mem_paths_firstVisits.2 hv)
    -- the link is new, and both its join and its visit come last
    rw [firstVisits_concat, if_neg hmem', hi, pathsOf_append, List.idxOf_append_of_notMem hmem,
      h.joins]
    refine ⟨⟨hfits, ?_⟩, by simp [pathsOf]⟩
    rw [firstVisits_concat, if_neg hmem', hjoins, h.joins, Catalog.length_joinsOf,
      Catalog.joinsOf_concat]
    intro u hu
    rw [List.mem_append, List.mem_singleton] at hu
    refine HasSource.mono ?_ fun _ => mem_paths_firstVisits.2
    rcases hu with hu | rfl
    · exact (h.fits u (mem_of_mem_firstVisits hu)).source
    · exact hv.source

/-! ### Walks -/

theorem Catalog.visits_of_embedded {name : String} {join : JoinType} {rest : FieldPath}
    {type next : τ} {before : List String} {a : Attribute} (h : C.step? type name = some (a, next))
    (has : a.isAssociation = false) :
    C.visits (.step name join rest) type before = C.visits rest next (before ++ [name]) := by
  rw [visits, h]
  dsimp only
  rw [has]
  rfl

theorem Catalog.visits_of_association {name : String} {join : JoinType} {rest : FieldPath}
    {type next : τ} {before : List String} {a : Attribute} (h : C.step? type name = some (a, next))
    (has : a.isAssociation) :
    C.visits (.step name join rest) type before =
      ⟨before ++ [name], C.typeName type, C.typeName next, join⟩ ::
        C.visits rest next (before ++ [name]) := by
  rw [visits, h]
  dsimp only
  rw [has]
  rfl

/-- A walk adds the joins of its visits, whether it succeeds or not. -/
theorem walk_follows (hC : C.Exact) (field : String) (c : Condition) {path : FieldPath} {type : τ}
    {before : List String} {vs : List Visit} {plan : JoinPlan} (h : plan.Follows C root vs)
    (hreach : C.reach? root before = some type)
    (hsource : HasSource (pathsOf vs) (C.lastLink root before)) :
    (walk C field c path type (sourceAt (pathsOf (firstVisits vs)) (C.lastLink root before))
      (before.drop (C.lastLink root before).length) plan).2.Follows C root
        (vs ++ C.visits path type before) := by
  induction path generalizing type before vs plan with
  | broken text =>
    rw [Catalog.visits, List.append_nil]
    exact h
  | last name =>
    rw [Catalog.visits, List.append_nil, walk]
    split <;> exact h
  | step name join rest ih =>
    have hlast := C.lastLink_concat root before name
    have hdrop : (before ++ [name]).drop (C.lastLink root before).length =
        before.drop (C.lastLink root before).length ++ [name] :=
      List.drop_append_of_le_length (C.lastLink_prefix root before).length_le
    rcases walk_step_cases C field c name join rest type _ _ plan with
      ⟨e, q, hf, hw, hq⟩ | ⟨a, next, hf, has, hw⟩ | ⟨a, next, hf, has, hw⟩
    · rw [hw, Catalog.visits, C.step?_of_follow_error hf, List.append_nil]
      rcases hq with rfl | ⟨rfl, -⟩
      · exact h
      · exact ⟨h.fits, h.joins⟩
    · -- a composite: the last link stays, and the names since then become one more
      have hstep := C.step?_of_follow hf
      have hnext : C.reach? root (before ++ [name]) = some next := by
        rw [C.reach?_concat hreach, hstep, Option.map_some]
      rw [C.isLink_concat hreach, hstep, Option.any_some, has, if_neg Bool.false_ne_true] at hlast
      rw [hw, C.visits_of_embedded hstep has, C.name_of_step? hC hstep, ← hdrop, ← hlast]
      exact ih h hnext (hlast ▸ hsource)
    · -- a link: it is the last one from here on, and there are no names since then
      have hstep := C.step?_of_follow hf
      have hnext : C.reach? root (before ++ [name]) = some next := by
        rw [C.reach?_concat hreach, hstep, Option.map_some]
      rw [C.isLink_concat hreach, hstep, Option.any_some, has, if_pos rfl] at hlast
      let v : Visit := ⟨before ++ [name], C.typeName type, C.typeName next, join⟩
      have hfits : v.Fits C root vs := by
        constructor
        · rw [List.dropLast_concat, hreach]
          rfl
        · rw [List.dropLast_concat]
          exact hsource
      have hjoin : C.joinOf root (pathsOf (firstVisits vs)) v =
          ⟨⟨sourceAt (pathsOf (firstVisits vs)) (C.lastLink root before), C.typeName type,
            before.drop (C.lastLink root before).length ++ [name]⟩, C.typeName next, join⟩ := by
        simp only [Catalog.joinOf, v, List.dropLast_concat, hdrop]
      -- the walk asks for the join of this visit, and goes on from its id
      obtain ⟨hfollows, hindex⟩ := h.visit hfits (List.concat_ne_nil _ _) a.isCollection
      have hrest := ih hfollows hnext (by rw [hlast]; exact .inr (by simp [v]))
      rw [hlast, List.drop_length, ← hindex, hjoin] at hrest
      rw [hw, C.visits_of_association hstep has, C.name_of_step? hC hstep, List.append_cons]
      exact hrest

/-! ### Filters -/

/-- The links that leaves lead through, one leaf after the other. -/
def Catalog.visitsOf (C : Catalog τ) (root : τ) (ls : List (String × Condition)) : List Visit :=
  ls.flatMap fun l => C.visits (FieldPath.parse l.1) root []

theorem Catalog.visitsOf_append (C : Catalog τ) (root : τ) (ks ls : List (String × Condition)) :
    C.visitsOf root (ks ++ ls) = C.visitsOf root ks ++ C.visitsOf root ls := List.flatMap_append

variable {config : Config}

theorem compileLeaf_follows (hC : C.Exact) {field : String} {c : Condition} {p : Predicate}
    {vs : List Visit} {plan : JoinPlan} (h : plan.Follows C root vs)
    (hok : (compileLeaf C config root field c plan).1 = .ok p) :
    (compileLeaf C config root field c plan).2.Follows C root
      (vs ++ C.visitsOf root [(field, c)]) := by
  rw [compileLeaf_eq] at hok ⊢
  rw [Catalog.visitsOf, List.flatMap_singleton]
  cases hlimit : overLimit? config field c with
  | some e =>
    rw [hlimit] at hok
    cases hok
  | none => exact walk_follows hC field c h rfl (.inl rfl)

theorem compileAll_follows_of {es : List Expression}
    (hes : ∀ e ∈ es, ∀ {p vs plan}, JoinPlan.Follows C root vs plan →
      (compileExpression C config root e plan).1 = .ok p →
      (compileExpression C config root e plan).2.Follows C root (vs ++ C.visitsOf root e.leaves))
    {ps : List Predicate} {vs : List Visit} {plan : JoinPlan} (h : plan.Follows C root vs)
    (hok : (compileAll C config root es plan).1 = .ok ps) :
    (compileAll C config root es plan).2.Follows C root
      (vs ++ C.visitsOf root (leavesOfAll es)) := by
  induction es generalizing ps vs plan with
  | nil =>
    rw [leavesOfAll, Catalog.visitsOf, List.flatMap_nil, List.append_nil]
    exact h
  | cons e es ih =>
    have hfirst := fun p => @hes e List.mem_cons_self p vs plan h
    cases hc : compileExpression C config root e plan with
    | mk r q =>
      rw [hc] at hfirst
      cases r with
      | error err =>
        rw [compileAll_cons_of_error hc] at hok
        cases hok
      | ok p =>
        rw [compileAll_cons_of_ok hc] at hok ⊢
        obtain ⟨qs, hqs, -⟩ := Except.map_eq_ok_iff.1 hok
        rw [leavesOfAll, Catalog.visitsOf_append, ← List.append_assoc]
        exact ih (fun d hd => hes d (List.mem_cons_of_mem e hd)) (hfirst p rfl) hqs

theorem compileExpression_follows (hC : C.Exact) {e : Expression} {p : Predicate}
    {vs : List Visit} {plan : JoinPlan} (h : plan.Follows C root vs)
    (hok : (compileExpression C config root e plan).1 = .ok p) :
    (compileExpression C config root e plan).2.Follows C root
      (vs ++ C.visitsOf root e.leaves) := by
  induction e generalizing p vs plan with
  | leaf field c => exact compileLeaf_follows hC h hok
  | compound op es ih =>
    rw [compileExpression_compound] at hok ⊢
    obtain ⟨ps, hps, -⟩ := Except.map_eq_ok_iff.1 hok
    exact compileAll_follows_of ih h hps

theorem follows_start (C : Catalog τ) (root : τ) (name : String) (primaryKey : Option String) :
    (JoinPlan.start name primaryKey).Follows C root [] := ⟨nofun, rfl⟩

theorem compileFilter_follows (hC : C.Exact) {es : List Expression} {p : Predicate}
    {vs : List Visit} {plan : JoinPlan} (h : plan.Follows C root vs)
    (hok : (compileFilter C config root es plan).1 = .ok p) :
    (compileFilter C config root es plan).2.Follows C root
      (vs ++ C.visitsOf root (leavesOfAll es)) := by
  cases hd : checkDepth config es with
  | error e =>
    rw [compileFilter_of_checkDepth_error hd] at hok
    cases hok
  | ok =>
    rw [compileFilter_of_checkDepth hd] at hok ⊢
    obtain ⟨ps, hps, -⟩ := Except.map_eq_ok_iff.1 hok
    exact compileAll_follows_of (fun e _ => compileExpression_follows hC) h hps

/-- **The joins of a query.** They are those of the links that its leaves lead through, each link
once and as it is visited first. The last link before another one is among them. -/
theorem compileQuery_joins (r : Registry) (config : Config) (root : Entity)
    (projection : Projection) (es : List Expression) (q : Query)
    (h : compileQuery r.catalog config root projection es = .ok q) :
    let vs := firstVisits (r.catalog.visitsOf root (leavesOfAll es))
    q.plan.joins = r.catalog.joinsOf root vs ∧ (pathsOf vs).Nodup ∧
      ∀ v ∈ vs, HasSource (pathsOf vs) (r.catalog.lastLink root v.path.dropLast) := by
  intro vs
  rw [compileQuery_eq] at h
  obtain ⟨p, hp, rfl⟩ := Except.map_eq_ok_iff.1 h
  have hfollows := compileFilter_follows r.exact_catalog (follows_start _ _ _ _) hp
  refine ⟨hfollows.joins, nodup_pathsOf_firstVisits _, fun v hv => ?_⟩
  exact (hfollows.fits v (mem_of_mem_firstVisits hv)).source.mono
    fun _ => mem_paths_firstVisits.2

/-- The second leaf comes to the department again, with another marker, and goes round to a
department that is a different one; the third finds all its links joined. -/
theorem compileQuery_joins_staff :
    let isNull (field : String) := Expression.leaf field (.single (.compare .equal) .null)
    ∃ q, compileQuery Registry.staff.catalog {} .employee .rows
        [.compound .or [isNull "<department.name", isNull "department.>staff.department.name"],
          isNull "department.staff?.address.city"] = .ok q ∧
      q.plan.joins = [
        ⟨⟨⟨.root, "Employee", ["department"]⟩, "Department", .left⟩, 0⟩,
        ⟨⟨⟨.joined 0, "Department", ["staff"]⟩, "Employee", .right⟩, 1⟩,
        ⟨⟨⟨.joined 1, "Employee", ["department"]⟩, "Department", .inner⟩, 2⟩] := by
  intro isNull
  let filter := [Expression.compound .or
    [isNull "<department.name", isNull "department.>staff.department.name"],
    isNull "department.staff?.address.city"]
  cases h : compileQuery Registry.staff.catalog {} .employee .rows filter with
  | error e =>
    have hok : (compileQuery Registry.staff.catalog {} .employee .rows filter).isOk := by
      decide +kernel
    rw [h] at hok
    cases hok
  | ok q =>
    refine ⟨q, rfl, (compileQuery_joins _ _ _ _ _ q h).1.trans ?_⟩
    decide +kernel

end QueryFilter
