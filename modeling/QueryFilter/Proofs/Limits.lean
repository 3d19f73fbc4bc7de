import Mathlib.Algebra.Group.Action.Defs
import Mathlib.Algebra.Order.BigOperators.Group.List
import QueryFilter.Proofs.Accounting
import QueryFilter.Proofs.Nesting
import QueryFilter.Proofs.Resolution

/-!
# Filters within the limits

A filter that compiles is within the limits on paths and lists at each of its leaves, however deep
they lie, and the limit on paths bounds the joins that it makes. The limits of a leaf are looked at
just before its path is walked, so the first leaf beyond them is reported if the leaves before it
are valid.

* `Config.Admits`: the leaves within the limits;
* `FieldPath.steps`: how many joins a path can make;
* `joinsOfLeaves_le`: how many joins leaves can make;
* `error?_compileExpression`: the error of a tree is that of its first leaf that fails, whatever the
  plan is;
* `compileFilter_withinLimits`: the filters that compile, and those beyond a limit.
-/

namespace QueryFilter

open Expression FieldPath

variable {τ : Type}

/-! ### Leaves -/

/-- Whether the path and the list of a leaf are within the limits. -/
structure Config.Admits (config : Config) (l : String × Condition) : Prop where
  segments : (segments l.1).length ≤ config.maxPathSegments
  values : ∀ op vs, l.2 = .list op vs → vs.length ≤ config.maxListValues

theorem Config.admits_iff {config : Config} {l : String × Condition} :
    config.Admits l ↔ overLimit? config l.1 l.2 = none := by
  rw [overLimit?_eq_none_iff]
  exact ⟨fun h => ⟨h.segments, h.values⟩, fun h => ⟨h.1, h.2⟩⟩

theorem code_of_overLimit? {config : Config} {field : String} {c : Condition} {e : CompileError}
    (h : overLimit? config field c = some e) : e.code = .limitExceeded := by
  unfold overLimit? overLimit?.segmentLimit at h
  grind [CompileError.code]

/-- A leaf beyond a limit has no meaning but the error. -/
theorem Catalog.meaning_of_overLimit? {C : Catalog τ} {config : Config} {root : τ}
    {l : String × Condition} {e : CompileError} (h : overLimit? config l.1 l.2 = some e) :
    C.meaning config root l = .error e := by
  rw [meaning, h]

theorem Catalog.admits_of_meaning {C : Catalog τ} {config : Config} {root : τ}
    {l : String × Condition} (h : (C.meaning config root l).error? = none) : config.Admits l := by
  rw [Config.admits_iff]
  cases hl : overLimit? config l.1 l.2 with
  | none => rfl
  | some e =>
    rw [meaning_of_overLimit? hl] at h
    cases h

/-! ### Joins -/

/-- The segments of a path that lead on. -/
def FieldPath.steps : FieldPath → Nat
  | .last _ => 0
  | .step _ _ rest => rest.steps + 1
  | .broken _ => 0

/-- All segments but the last one can lead on. -/
theorem FieldPath.steps_ofSegments (s : List Char) (ss : List (List Char)) :
    (ofSegments (s :: ss)).steps ≤ ss.length := by
  induction ss generalizing s with
  | nil =>
    rw [ofSegments]
    split <;> exact Nat.le_refl 0
  | cons t ss ih =>
    rw [ofSegments]
    split
    · exact Nat.zero_le _
    · exact Nat.succ_le_succ (ih t)

theorem FieldPath.steps_parse (field : String) :
    (parse field).steps ≤ (segments field).length - 1 := by
  obtain ⟨s, ss, hss⟩ := List.exists_cons_of_ne_nil (List.splitOn_ne_nil '.' field.toList)
  rw [parse_eq_ofSegments, segments, hss]
  exact steps_ofSegments s ss

/-- A walk makes at most one join at each segment that leads on. Composites make none, and a join
that is there already is used again. -/
theorem joinsOfWalk_le (C : Catalog τ) (path : FieldPath) (type : τ) (source : Source)
    (inner : List String) (plan : JoinPlan) :
    joinsOfWalk C path type source inner plan ≤ path.steps := by
  induction path generalizing type source inner plan with
  | broken text => exact Nat.le_refl 0
  | last name => exact Nat.le_refl 0
  | step name join rest ih =>
    rw [joinsOfWalk, steps]
    cases C.attribute? type name with
    | none => exact Nat.zero_le _
    | some a =>
      dsimp only
      cases a.kind with
      | basic t => exact Nat.zero_le _
      | embedded schema =>
        dsimp only
        cases C.embedded? type a with
        | none => exact Nat.zero_le _
        | some sub => exact Nat.le_succ_of_le (ih ..)
      | association target collection =>
        dsimp only
        cases C.target? type a with
        | none => exact Nat.zero_le _
        | some next =>
          rw [Nat.add_comm rest.steps]
          exact Nat.add_le_add (Bool.toNat_le _) (ih ..)

/-- Hence leaves make at most as many joins as their paths have segments before the last ones. -/
theorem joinsOfLeaves_le (C : Catalog τ) (config : Config) (root : τ)
    (ls : List (String × Condition)) (plan : JoinPlan) :
    joinsOfLeaves C config root ls plan ≤
      (ls.map fun l => (segments l.1).length - 1).sum := by
  induction ls generalizing plan with
  | nil => exact Nat.le_refl 0
  | cons l ls ih =>
    rw [joinsOfLeaves, List.map_cons, List.sum_cons]
    exact Nat.add_le_add ((joinsOfWalk_le ..).trans (steps_parse l.1)) (ih _)

/-- The path of a leaf within the limits has at most the segments that the limit allows, of which
the last one does not lead on. -/
theorem Config.sum_segments_le {config : Config} {ls : List (String × Condition)}
    (h : ∀ l ∈ ls, config.Admits l) :
    (ls.map fun l => (segments l.1).length - 1).sum ≤
      ls.length * (config.maxPathSegments - 1) := by
  have hle : ∀ n ∈ ls.map fun l => (segments l.1).length - 1, n ≤ config.maxPathSegments - 1 := by
    intro n hn
    obtain ⟨l, hl, rfl⟩ := List.mem_map.1 hn
    exact Nat.sub_le_sub_right (h l hl).segments 1
  calc (ls.map fun l => (segments l.1).length - 1).sum
      ≤ (ls.map fun l => (segments l.1).length - 1).length • (config.maxPathSegments - 1) :=
        List.sum_le_card_nsmul _ _ hle
    _ = ls.length * (config.maxPathSegments - 1) := by rw [List.length_map, smul_eq_mul]

/-! ### Errors -/

theorem checkDepth_eq_ok_of_forall {config : Config} {es : List Expression}
    (h : ∀ e ∈ es, e.depth - 1 ≤ config.maxDepth) : checkDepth config es = .ok () := by
  cases hd : checkDepth config es with
  | ok => rfl
  | error err =>
    obtain ⟨e, he, hlt, -⟩ := checkDepth_eq_error hd
    exact absurd (h e he) (Nat.not_le.2 hlt)

/-- A walk fails with the error of the walk without a plan, from whatever source it starts and
whatever the plan is. -/
theorem error?_walk (C : Catalog τ) (field : String) (c : Condition) (path : FieldPath) (type : τ)
    (source : Source) (names inner : List String) (plan : JoinPlan) :
    (walk C field c path type source inner plan).1.error? =
      (C.resolve field c path type names inner).error? := by
  induction path generalizing type source names inner plan with
  | broken text => rfl
  | last name =>
    rw [walk, Catalog.resolve]
    cases C.attribute? type name with
    | none => rfl
    | some a =>
      -- the sources of the predicates differ, and nothing else
      have hmap := endPredicate_mapSource (fun _ : Source => names) field
        ⟨source, inner ++ [a.name]⟩ a.kind c
      rw [Column.mapSource] at hmap
      dsimp only
      rw [hmap, Except.error?_map]
  | step name join rest ih =>
    rcases walk_step_cases C field c name join rest type source inner plan with
      ⟨e, q, hf, hw, -⟩ | ⟨a, next, hf, has, hw⟩ | ⟨a, next, hf, has, hw⟩
    · rw [hw, Catalog.resolve_step_error hf]
      rfl
    · rw [hw, Catalog.resolve_step_ok hf, if_neg (by simp [has])]
      exact ih ..
    · rw [hw, Catalog.resolve_step_ok hf, if_pos has]
      exact ih ..

variable {C : Catalog τ} {config : Config} {root : τ}

theorem error?_compileLeaf (field : String) (c : Condition) (plan : JoinPlan) :
    (compileLeaf C config root field c plan).1.error? =
      (C.meaning config root (field, c)).error? := by
  rw [compileLeaf_eq, Catalog.meaning]
  dsimp only
  cases overLimit? config field c with
  | some e => rfl
  | none => exact error?_walk ..

theorem error?_compileAll_of {es : List Expression}
    (h : ∀ e ∈ es, ∀ plan, (compileExpression C config root e plan).1.error? =
      e.leaves.findSome? fun l => (C.meaning config root l).error?) (plan : JoinPlan) :
    (compileAll C config root es plan).1.error? =
      (leavesOfAll es).findSome? fun l => (C.meaning config root l).error? := by
  induction es generalizing plan with
  | nil => rfl
  | cons e es ih =>
    have hfirst := h e List.mem_cons_self plan
    rw [leavesOfAll, List.findSome?_append, ← hfirst]
    cases hc : compileExpression C config root e plan with
    | mk r q =>
      cases r with
      | error err =>
        rw [compileAll_cons_of_error hc]
        rfl
      | ok p =>
        rw [compileAll_cons_of_ok hc]
        dsimp only
        rw [Except.error?_map, ih fun d hd => h d (List.mem_cons_of_mem e hd)]
        rfl

/-- A tree fails with the error of its first leaf that fails, and the plan does not matter. -/
theorem error?_compileExpression (e : Expression) (plan : JoinPlan) :
    (compileExpression C config root e plan).1.error? =
      e.leaves.findSome? fun l => (C.meaning config root l).error? := by
  induction e generalizing plan with
  | leaf field c =>
    rw [leaves, List.findSome?_singleton]
    exact error?_compileLeaf field c plan
  | compound op es ih =>
    rw [compileExpression_compound, leaves]
    exact (Except.error?_map _ _).trans (error?_compileAll_of ih plan)

theorem error?_compileFilter {es : List Expression} (hd : checkDepth config es = .ok ())
    (plan : JoinPlan) :
    (compileFilter C config root es plan).1.error? =
      (leavesOfAll es).findSome? fun l => (C.meaning config root l).error? := by
  rw [compileFilter_of_checkDepth hd]
  exact (Except.error?_map _ _).trans
    (error?_compileAll_of (fun e _ => error?_compileExpression e) plan)

/-- The leaves of a filter that compiles are within the limits. -/
theorem admits_of_compileFilter {es : List Expression} {p : Predicate} {plan q : JoinPlan}
    (h : compileFilter C config root es plan = (.ok p, q)) :
    ∀ l ∈ leavesOfAll es, config.Admits l := by
  cases hd : checkDepth config es with
  | error e =>
    rw [compileFilter_of_checkDepth_error hd] at h
    cases h
  | ok =>
    have herror := @error?_compileFilter _ C config root es hd plan
    rw [h] at herror
    exact fun l hl => C.admits_of_meaning (List.findSome?_eq_none_iff.1 herror.symm l hl)

/-- A leaf beyond a limit gives the error when the leaves before it are valid. -/
theorem compileFilter_of_overLimit? {es : List Expression} (hd : checkDepth config es = .ok ())
    {before after : List (String × Condition)} {l : String × Condition} {e : CompileError}
    (hes : leavesOfAll es = before ++ l :: after)
    (hbefore : ∀ k ∈ before, ∃ p, C.alone config root k = .ok p)
    (hl : overLimit? config l.1 l.2 = some e) (plan : JoinPlan) :
    (compileFilter C config root es plan).1 = .error e := by
  have hnone : before.findSome? (fun k => (C.meaning config root k).error?) = none := by
    refine List.findSome?_eq_none_iff.2 fun k hk => ?_
    rw [← C.alone_eq_meaning]
    exact Except.error?_eq_none_iff.2 (hbefore k hk)
  rw [← Except.error?_eq_some_iff, error?_compileFilter hd, hes, List.findSome?_append, hnone,
    List.findSome?_cons, Catalog.meaning_of_overLimit? hl]
  rfl

/-- **Filters within the limits.** A filter may be compiled into any plan. If that succeeds, each of
its leaves is within the limits on paths and lists, and it adds at most as many joins as the paths
of its leaves have segments before the last ones. If the filter is not nested too deeply and has a
leaf beyond a limit, with only valid leaves before it, it is refused with an error that names the
field of this leaf. -/
theorem compileFilter_withinLimits (C : Catalog τ) (config : Config) (root : τ)
    (es : List Expression) (plan : JoinPlan) :
    (∀ p q, compileFilter C config root es plan = (.ok p, q) →
      (∀ l ∈ leavesOfAll es, config.Admits l) ∧
      ∃ added, q.joins = plan.joins ++ added ∧
        added.length ≤ ((leavesOfAll es).map fun l => (segments l.1).length - 1).sum ∧
        added.length ≤ (leavesOfAll es).length * (config.maxPathSegments - 1)) ∧
    ∀ before l after, (∀ e ∈ es, e.depth - 1 ≤ config.maxDepth) →
      leavesOfAll es = before ++ l :: after →
      (∀ k ∈ before, ∃ p, C.alone config root k = .ok p) → ¬config.Admits l →
      ∃ e, (compileFilter C config root es plan).1 = .error e ∧
        e.code.text = "AERO_FILTER_LIMIT_EXCEEDED" ∧ e.field? = some l.1 := by
  constructor
  · intro p q h
    have hadmits := admits_of_compileFilter h
    obtain ⟨added, hadded⟩ : plan.joins <+: q.joins := by
      have hgrows := (compileFilter_steps C config root es plan).grows
      rw [h] at hgrows
      exact hgrows.joins
    have hle : added.length ≤ ((leavesOfAll es).map fun l => (segments l.1).length - 1).sum := by
      have hlength := length_joins_compileFilter h
      rw [← hadded, List.length_append] at hlength
      exact (Nat.add_left_cancel hlength).trans_le (joinsOfLeaves_le ..)
    exact ⟨hadmits, added, hadded.symm, hle, hle.trans (Config.sum_segments_le hadmits)⟩
  · intro before l after hdepth hes hbefore hl
    rw [Config.admits_iff, ← ne_eq, Option.ne_none_iff_exists'] at hl
    obtain ⟨e, he⟩ := hl
    have hd := checkDepth_eq_ok_of_forall hdepth
    refine ⟨e, compileFilter_of_overLimit? hd hes hbefore he plan, ?_, field?_of_overLimit? he⟩
    rw [code_of_overLimit? he]
    rfl

/-- The colleagues are two joins away, which is all that a path of three segments may need. A list
that is too long is refused in whatever compound it lies, for it stands behind a valid leaf. -/
theorem compileFilter_withinLimits_staff :
    let C := Registry.staff.catalog
    let config : Config := { maxPathSegments := 3, maxListValues := 1 }
    let colleague : String × Condition :=
      ("department.staff.id", .single (.compare .equal) (.string "7"))
    let listed : String × Condition :=
      ("id", .list .oneOf [.number (.int 1), .number (.int 2)])
    let filter (l : String × Condition) : List Expression :=
      [.leaf colleague.1 colleague.2, .compound .or [.compound .and [.leaf l.1 l.2]]]
    let plan : JoinPlan := .start "Employee" (some "id")
    (∃ p q added, compileFilter C config .employee (filter colleague) plan = (.ok p, q) ∧
      q.joins = plan.joins ++ added ∧ added.length ≤ 4 ∧ config.Admits colleague) ∧
    ∃ e, (compileFilter C config .employee (filter listed) plan).1 = .error e ∧
      e.code.text = "AERO_FILTER_LIMIT_EXCEEDED" ∧ e.field? = some "id" := by
  intro C config colleague listed filter plan
  constructor
  · obtain ⟨p, hp⟩ := Except.exists_ok_of_isOk
      (show (compileFilter C config .employee (filter colleague) plan).1.isOk by decide +kernel)
    have hcompiles : compileFilter C config .employee (filter colleague) plan = (.ok p, _) :=
      Prod.ext hp rfl
    obtain ⟨hadmits, added, hadded, hle, -⟩ :=
      (compileFilter_withinLimits C config .employee (filter colleague) plan).1 p _ hcompiles
    have hsum : ((leavesOfAll (filter colleague)).map
        fun l => (segments l.1).length - 1).sum = 4 := by decide +kernel
    exact ⟨p, _, added, hcompiles, hadded, hsum ▸ hle, hadmits colleague List.mem_cons_self⟩
  · have hvalid : ∃ p, C.alone config .employee colleague = .ok p :=
      Except.exists_ok_of_isOk (by decide +kernel)
    have hbeyond : ¬config.Admits listed := by
      rw [Config.admits_iff]
      decide +kernel
    obtain ⟨-, hrefused⟩ := compileFilter_withinLimits C config .employee (filter listed) plan
    exact hrefused [colleague] listed [] (by decide) rfl (by simpa using hvalid) hbeyond

end QueryFilter
