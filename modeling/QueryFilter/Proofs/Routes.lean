import Mathlib.Data.List.Nodup
import QueryFilter.Proofs.Joins

/-!
# Routes of joins

The place of a join in a plan, and with it the source of the joins behind it, depends on the order
of the visits. What the join leads through and where to does not: it is told by the names from the
root type. Where all visits of a link ask for the same type of join, neither does that type.

* `JoinPlan.routes`: the joins of a plan with the names that lead to them;
* `JoinPlan.Follows.routes_eq`: they are those of the first visits;
* `Catalog.target_of_mem_visits`: the names of a link tell its target;
* `Visit.Agree`: all visits of a link ask for the same type of join;
* `perm_routes_firstVisits`: visits that agree have the same routes in any order.
-/

namespace QueryFilter

open JoinPlan

variable {τ : Type}

/-- The way that a join leads: the names from the root type, the type of the join and that of its
target. -/
structure Route where
  path : List String
  type : JoinType
  target : String
  deriving DecidableEq, Repr

/-- The joins of a plan, with the names of their sources and their own in the place of both. -/
def JoinPlan.routes (p : JoinPlan) : List Route :=
  p.joins.map fun j => ⟨p.names j.key.source ++ j.key.path, j.type, j.target⟩

/-- The way that a visit leads. -/
def Visit.route (v : Visit) : Route := ⟨v.path, v.type, v.target⟩

variable {C : Catalog τ} {root : τ}

/-! ### Plans that follow visits -/

/-- In a plan that follows visits, the source that names lead to is reached by these names. -/
theorem JoinPlan.Follows.names_sourceAt {vs : List Visit} {plan : JoinPlan}
    (h : plan.Follows C root vs) (hp : plan.Grounded) {path : List String}
    (hpath : HasSource (pathsOf (firstVisits vs)) path) :
    plan.names (sourceAt (pathsOf (firstVisits vs)) path) = path := by
  -- induction on the number of names, since fewer of them lead to the source of a join
  induction hn : path.length using Nat.strong_induction_on generalizing path with
  | _ n ih =>
    by_cases hnil : path = []
    · rw [hnil]
      exact plan.names_root
    -- the join over the link that the names end in, and its visit
    have hplace := List.getElem?_idxOf (hpath.resolve_left hnil)
    rw [pathsOf, List.getElem?_map, Option.map_eq_some_iff, ← pathsOf] at hplace
    obtain ⟨v, hv, hvpath⟩ := hplace
    have hjoin : plan.join? ((pathsOf (firstVisits vs)).idxOf path) =
        some ⟨C.joinOf root (pathsOf (firstVisits vs)) v,
          (pathsOf (firstVisits vs)).idxOf path⟩ := by
      rw [join?, h.joins, Catalog.joinsOf, List.getElem?_mapIdx, hv, Option.map_some]
    have hsource : HasSource (pathsOf (firstVisits vs)) (C.lastLink root path.dropLast) := by
      have hmem := mem_of_mem_firstVisits (List.mem_of_getElem? hv)
      rw [← hvpath]
      exact (h.fits v hmem).source.mono fun _ => mem_paths_firstVisits.2
    have hshorter : (C.lastLink root path.dropLast).length < n := by
      have hle := (C.lastLink_prefix root path.dropLast).length_le
      have hpos := List.length_pos_iff.2 hnil
      rw [List.length_dropLast] at hle
      omega
    calc plan.names (sourceAt (pathsOf (firstVisits vs)) path)
        = plan.names (.joined ((pathsOf (firstVisits vs)).idxOf path)) := by
          rw [sourceAt, if_neg hnil]
      _ = plan.names (sourceAt (pathsOf (firstVisits vs)) (C.lastLink root path.dropLast)) ++
            path.drop (C.lastLink root path.dropLast).length := by
          rw [hp.names_joined hjoin, Catalog.joinOf, hvpath]
      _ = C.lastLink root path.dropLast ++
            path.drop (C.lastLink root path.dropLast).length := by
          rw [ih _ hshorter hsource rfl]
      _ = path := C.lastLink_append_drop root path

/-- The routes of a plan that follows visits are those of the first visits. -/
theorem JoinPlan.Follows.routes_eq {vs : List Visit} {plan : JoinPlan}
    (h : plan.Follows C root vs) (hp : plan.Grounded) :
    plan.routes = (firstVisits vs).map Visit.route := by
  have hrequests : plan.routes = (plan.joins.map (·.toJoinRequest)).map fun j =>
      ⟨plan.names j.key.source ++ j.key.path, j.type, j.target⟩ := by
    rw [List.map_map]
    rfl
  rw [hrequests, h.joins, Catalog.map_toJoinRequest_joinsOf, List.map_map]
  refine List.map_congr_left fun v hv => ?_
  have hsource : HasSource (pathsOf (firstVisits vs)) (C.lastLink root v.path.dropLast) :=
    (h.fits v (mem_of_mem_firstVisits hv)).source.mono fun _ => mem_paths_firstVisits.2
  simp only [Function.comp_apply, Catalog.joinOf, h.names_sourceAt hp hsource,
    C.lastLink_append_drop, Visit.route]

/-! ### Visits in another order -/

/-- The names of a link tell the type of its target. -/
theorem Catalog.target_of_mem_visits {path : FieldPath} {type : τ} {before : List String}
    (hreach : C.reach? root before = some type) {v : Visit} (hv : v ∈ C.visits path type before) :
    (C.reach? root v.path).map C.typeName = some v.target := by
  induction path generalizing type before with
  | broken text | last name => cases hv
  | step name join rest ih =>
    rw [visits] at hv
    cases hstep : C.step? type name with
    | none =>
      rw [hstep] at hv
      cases hv
    | some s =>
      obtain ⟨a, next⟩ := s
      have hnext : C.reach? root (before ++ [name]) = some next := by
        rw [C.reach?_concat hreach, hstep, Option.map_some]
      rw [hstep] at hv
      dsimp only at hv
      split at hv
      · rcases List.mem_cons.1 hv with rfl | hv
        · rw [hnext, Option.map_some]
        · exact ih hnext hv
      · exact ih hnext hv

/-- All visits of a link ask for the same type of join. -/
def Visit.Agree (vs : List Visit) : Prop :=
  ∀ u ∈ vs, ∀ v ∈ vs, u.path = v.path → u.type = v.type

instance (vs : List Visit) : Decidable (Visit.Agree vs) :=
  inferInstanceAs (Decidable (∀ u ∈ vs, ∀ v ∈ vs, u.path = v.path → u.type = v.type))

/-- A route is that of a first visit exactly if it is one of any visit, when the names tell the
route. -/
theorem mem_routes_firstVisits {vs : List Visit}
    (h : ∀ u ∈ vs, ∀ v ∈ vs, u.path = v.path → u.route = v.route) {ρ : Route} :
    ρ ∈ (firstVisits vs).map Visit.route ↔ ρ ∈ vs.map Visit.route := by
  constructor
  · intro hρ
    obtain ⟨v, hv, rfl⟩ := List.mem_map.1 hρ
    exact List.mem_map_of_mem (mem_of_mem_firstVisits hv)
  · intro hρ
    obtain ⟨v, hv, rfl⟩ := List.mem_map.1 hρ
    obtain ⟨u, hu, hpath⟩ := mem_pathsOf.1 (mem_paths_firstVisits.2 (mem_pathsOf.2 ⟨v, hv, rfl⟩))
    rw [← h u (mem_of_mem_firstVisits hu) v hv hpath]
    exact List.mem_map_of_mem hu

theorem nodup_routes_firstVisits (vs : List Visit) : ((firstVisits vs).map Visit.route).Nodup := by
  refine List.Nodup.of_map Route.path ?_
  rw [List.map_map]
  exact nodup_pathsOf_firstVisits vs

/-- Visits whose names tell their routes have the same routes in any order. -/
theorem perm_routes_firstVisits {us vs : List Visit} (hperm : us.Perm vs)
    (h : ∀ u ∈ us, ∀ v ∈ us, u.path = v.path → u.route = v.route) :
    ((firstVisits us).map Visit.route).Perm ((firstVisits vs).map Visit.route) := by
  have h' : ∀ u ∈ vs, ∀ v ∈ vs, u.path = v.path → u.route = v.route := fun u hu v hv =>
    h u (hperm.mem_iff.2 hu) v (hperm.mem_iff.2 hv)
  refine (List.perm_ext_iff_of_nodup (nodup_routes_firstVisits us)
    (nodup_routes_firstVisits vs)).2 fun ρ => ?_
  rw [mem_routes_firstVisits h, mem_routes_firstVisits h']
  exact (hperm.map _).mem_iff

/-- Leaves in another order lead through the same routes, when their visits agree. -/
theorem Visit.Agree.perm_routes {ks ls : List (String × Condition)}
    (h : Agree (C.visitsOf root ks)) (hperm : ks.Perm ls) :
    ((firstVisits (C.visitsOf root ks)).map Visit.route).Perm
      ((firstVisits (C.visitsOf root ls)).map Visit.route) := by
  have htarget : ∀ v ∈ C.visitsOf root ks,
      (C.reach? root v.path).map C.typeName = some v.target := by
    intro v hv
    obtain ⟨l, -, hv⟩ := List.mem_flatMap.1 hv
    exact C.target_of_mem_visits rfl hv
  refine perm_routes_firstVisits (hperm.flatMap_right _) fun u hu v hv hpath => ?_
  have heq : u.target = v.target := by
    rw [← Option.some_inj, ← htarget u hu, ← htarget v hv, hpath]
  rw [route, route, hpath, h u hu v hv hpath, heq]

end QueryFilter
