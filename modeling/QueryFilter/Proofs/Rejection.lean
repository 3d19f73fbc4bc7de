import QueryFilter.Proofs.Compositional
import QueryFilter.Proofs.Places

/-!
# What a rejected filter leaves behind

A compilation writes its plan while it walks, and nothing is taken back when a leaf fails. A plan
only grows, so it is as it was exactly if each walk found its joins there, up to the leaf that
fails.

* `JoinPlan.Grows.antisymm`: plans that grow into each other are equal;
* `JoinPlan.serves`: whether a plan has all that a path asks for;
* `walk_plan_eq_iff`: exactly then a walk leaves the plan as it was;
* `attempted`: the leaves that a compilation comes to;
* `compileFilter_plan_eq_iff`: a filter leaves the plan as it was exactly if the plan serves these
  leaves.
-/

namespace QueryFilter

open JoinPlan Expression

variable {τ : Type}

namespace JoinPlan

/-! ### Plans that stay -/

theorem Grows.antisymm {p q : JoinPlan} (h : p.Grows q) (h' : q.Grows p) : p = q := by
  have hroot := h'.root
  have hkey := h'.primaryKey
  have hjoins : p.joins = q.joins := h.joins.eq_of_length_le h'.length_le
  have hindex : p.index = q.index := h.index.eq_of_length_le h'.index.length_le
  have hdistinct : p.distinct = q.distinct := Bool.eq_iff_iff.2 ⟨h.distinct, h'.distinct⟩
  cases p
  cases q
  simp_all

/-- Nothing is lost on the way, so a plan that comes back to itself never changed. -/
theorem Grows.eq_iff {p q r : JoinPlan} (h : p.Grows q) (h' : q.Grows r) :
    r = p ↔ q = p ∧ r = q := by
  constructor
  · rintro rfl
    have hq : q = r := h'.antisymm h
    exact ⟨hq, hq.symm⟩
  · rintro ⟨rfl, rfl⟩
    rfl

theorem requireDistinct_eq_iff {p : JoinPlan} : p.requireDistinct = p ↔ p.distinct := by
  constructor
  · intro h
    rw [← h]
    rfl
  · intro h
    rw [requireDistinct, ← h]

theorem ite_requireDistinct_eq_iff {p : JoinPlan} {many : Bool} :
    (if many then p.requireDistinct else p) = p ↔ (many → p.distinct) := by
  cases many
  · simp
  · simp [requireDistinct_eq_iff]

theorem join_eq_iff {p : JoinPlan} {j : JoinRequest} :
    (p.join j).2.2 = p ↔ (p.index? j.key).isSome := by
  cases h : p.index? j.key with
  | some i => simp [join_of_index?_some h]
  | none =>
    have hne : p.add j h ≠ p := fun heq => by
      simpa [add] using congrArg (·.joins.length) heq
    simp [join_of_index?_none h, hne]

/-- Walking through an association changes nothing if it is joined already and brings no new need
for duplicate elimination. -/
theorem visit_eq_iff {p : JoinPlan} {many : Bool} {j : JoinRequest} :
    (p.visit many j).2 = p ↔ (many → p.distinct) ∧ (p.index? j.key).isSome := by
  have hgrows : p.Grows (if many then p.requireDistinct else p) := by
    cases many
    · exact .refl p
    · exact grows_requireDistinct p
  rw [visit, hgrows.eq_iff (grows_join _ j), ite_requireDistinct_eq_iff, join_eq_iff,
    index?_ite_requireDistinct]

/-! ### Paths -/

/-- Whether a plan has all that a path asks for: every association on its way is joined, and
duplicates are eliminated if there is a link to many entities among them. -/
def serves (C : Catalog τ) (plan : JoinPlan) :
    FieldPath → τ → Source → (inner : List String) → Bool
  | .last _, _, _, _ | .broken _, _, _, _ => true
  | .step name _ rest, type, source, inner =>
    (!(C.attribute? type name).any (·.isCollection) || plan.distinct) &&
      match C.step? type name with
      | none => true
      | some (a, next) =>
        if a.isAssociation then
          match plan.index? ⟨source, C.typeName type, inner ++ [a.name]⟩ with
          | none => false
          | some i => plan.serves C rest next (.joined i) []
        else plan.serves C rest next source (inner ++ [a.name])

end JoinPlan

/-- A walk that stops has asked for duplicate elimination if the attribute is a link to many
entities. -/
theorem walk_plan_of_follow_error {C : Catalog τ} {field : String} {c : Condition} {name : String}
    {join : JoinType} {rest : FieldPath} {type : τ} {source : Source} {inner : List String}
    {plan : JoinPlan} {e : CompileError} (h : C.follow field type name = .error e) :
    (walk C field c (.step name join rest) type source inner plan).2 =
      if (C.attribute? type name).any (·.isCollection) then plan.requireDistinct else plan := by
  rw [walk]
  unfold Catalog.follow at h
  cases ha : C.attribute? type name with
  | none => rfl
  | some a =>
    rw [ha] at h
    dsimp only at h ⊢
    rw [Option.any_some, Attribute.isCollection]
    cases hk : a.kind with
    | basic t => rfl
    | embedded schema =>
      cases he : C.embedded? type a with
      | none => rfl
      | some sub =>
        rw [hk] at h
        simp only [he] at h
        cases h
    | association target collection =>
      cases ht : C.target? type a with
      | none => rfl
      | some next =>
        rw [hk] at h
        simp only [ht] at h
        cases h

/-- A walk through an association leaves the plan as it was if both the association and the walk
behind it do. -/
theorem walk_visit_eq_iff (C : Catalog τ) (field : String) (c : Condition) (path : FieldPath)
    (type : τ) (plan : JoinPlan) (many : Bool) (j : JoinRequest) :
    (walk C field c path type (.joined (plan.visit many j).1) [] (plan.visit many j).2).2 = plan ↔
      (many → plan.distinct) ∧ ∃ i, plan.index? j.key = some i ∧
        (walk C field c path type (.joined i) [] plan).2 = plan := by
  have hsource : (Source.joined (plan.visit many j).1).IsBelow (plan.visit many j).2.joins.length :=
    lt_length_visit plan many j
  rw [(grows_visit plan many j).eq_iff (walk_steps C field c hsource).grows]
  constructor
  · rintro ⟨hv, hw⟩
    obtain ⟨hmany, hindex⟩ := visit_eq_iff.1 hv
    obtain ⟨i, hi⟩ := Option.isSome_iff_exists.1 hindex
    rw [hv, (visit_of_index?_some hi many).1] at hw
    exact ⟨hmany, i, hi, hw⟩
  · rintro ⟨hmany, i, hi, hw⟩
    have hv : (plan.visit many j).2 = plan := visit_eq_iff.2 ⟨hmany, by rw [hi]; rfl⟩
    rw [hv, (visit_of_index?_some hi many).1]
    exact ⟨rfl, hw⟩

/-- A walk leaves the plan as it was exactly if the plan has all that the path asks for. -/
theorem walk_plan_eq_iff (C : Catalog τ) (field : String) (c : Condition) {path : FieldPath}
    {type : τ} {source : Source} {inner : List String} {plan : JoinPlan}
    (hs : source.IsBelow plan.joins.length) :
    (walk C field c path type source inner plan).2 = plan ↔
      plan.serves C path type source inner := by
  induction path generalizing type source inner with
  | broken text => simp [walk, serves]
  | last name =>
    rw [walk, serves]
    split <;> simp
  | step name join rest ih =>
    rcases walk_step_cases C field c name join rest type source inner plan with
      ⟨e, -, hf, -, -⟩ | ⟨a, next, hf, has, hw⟩ | ⟨a, next, hf, has, hw⟩
    · rw [walk_plan_of_follow_error hf, ite_requireDistinct_eq_iff, serves,
        C.step?_of_follow_error hf]
      cases Option.any (·.isCollection) (C.attribute? type name) <;> simp
    · have ha := (Catalog.follow_eq_ok_iff.1 hf).1
      rw [hw, ih hs, serves, C.step?_of_follow hf, ha, Option.any_some,
        a.isCollection_eq_false has]
      simp [has]
    · have ha := (Catalog.follow_eq_ok_iff.1 hf).1
      rw [hw]
      dsimp only
      rw [walk_visit_eq_iff, serves, C.step?_of_follow hf, ha, Option.any_some]
      dsimp only
      rw [if_pos has]
      cases hi : plan.index? ⟨source, C.typeName type, inner ++ [a.name]⟩ with
      | none => simp
      | some i =>
        -- the join that is there comes before the end of the plan, so the walk goes on in it
        obtain ⟨k, hk, -⟩ := join?_of_index? hi
        have hsource : (Source.joined i).IsBelow plan.joins.length :=
          (List.getElem?_eq_some_iff.1 hk).1
        simp only [Option.some.injEq, exists_eq_left', ih hsource]
        cases a.isCollection <;> simp

/-! ### Leaves -/

/-- Whether a plan has all that a leaf asks for. A leaf that exceeds a limit asks for nothing. -/
def JoinPlan.servesLeaf (C : Catalog τ) (config : Config) (root : τ) (plan : JoinPlan)
    (l : String × Condition) : Bool :=
  (overLimit? config l.1 l.2).isSome || plan.serves C (FieldPath.parse l.1) root .root []

theorem compileLeaf_plan_eq_iff (C : Catalog τ) (config : Config) (root : τ) (field : String)
    (c : Condition) (plan : JoinPlan) :
    (compileLeaf C config root field c plan).2 = plan ↔
      plan.servesLeaf C config root (field, c) := by
  rw [compileLeaf_eq, servesLeaf]
  cases overLimit? config field c with
  | some e => simp
  | none => simpa using walk_plan_eq_iff C field c (Source.isBelow_root _)

/-! ### Filters -/

/-- The elements of a list that a function is tried on: those up to the first one for which it
fails. -/
def attempted {ε α β : Type} (f : α → Except ε β) : List α → List α
  | [] => []
  | x :: xs => if (f x).isOk then x :: attempted f xs else [x]

section

variable {ε α β : Type} {f : α → Except ε β}

theorem firstFailure?_cons (x : α) (xs : List α) :
    firstFailure? f (x :: xs) = if (f x).isOk then firstFailure? f xs else some x := by
  rw [firstFailure?, List.find?_cons]
  cases (f x).isOk <;> rfl

/-- Without a failure all elements are tried, and those that come after them. -/
theorem attempted_append_of_none {xs : List α} (h : firstFailure? f xs = none) (ys : List α) :
    attempted f (xs ++ ys) = xs ++ attempted f ys := by
  induction xs with
  | nil => rfl
  | cons x xs ih =>
    rw [firstFailure?_cons] at h
    split at h
    · rw [List.cons_append, attempted, if_pos ‹_›, ih h, List.cons_append]
    · cases h

/-- Nothing is tried behind a failure. -/
theorem attempted_append_of_some {xs : List α} {x : α} (h : firstFailure? f xs = some x)
    (ys : List α) : attempted f (xs ++ ys) = attempted f xs := by
  induction xs with
  | nil => cases h
  | cons y xs ih =>
    rw [firstFailure?_cons] at h
    rw [List.cons_append, attempted, attempted]
    split at h
    · rw [if_pos ‹_›, if_pos ‹_›, ih h]
    · rw [if_neg ‹_›, if_neg ‹_›]

end

/-- A tree that is translated has no leaf that fails. -/
theorem Expression.firstFailure?_of_translate_ok {ε σ : Type}
    {f : String × Condition → Except ε (Predicate σ)} {e : Expression} {p : Predicate σ}
    (h : e.translate f = .ok p) : firstFailure? f e.leaves = none := by
  cases hl : firstFailure? f e.leaves with
  | none => rfl
  | some l =>
    obtain ⟨err, herr⟩ := exists_error_of_firstFailure? hl
    rw [translate_eq_error hl herr] at h
    cases h

variable {C : Catalog τ} {config : Config} {root : τ}

theorem compileAll_plan_eq_iff_of {es : List Expression} {plan : JoinPlan} (hp : plan.Grounded)
    (h : ∀ e ∈ es, (compileExpression C config root e plan).2 = plan ↔
      ∀ l ∈ attempted (C.meaning config root) e.leaves, plan.servesLeaf C config root l) :
    (compileAll C config root es plan).2 = plan ↔
      ∀ l ∈ attempted (C.meaning config root) (leavesOfAll es),
        plan.servesLeaf C config root l := by
  induction es with
  | nil => simp [compileAll, leavesOfAll, attempted]
  | cons e es ih =>
    have hfirst := h e List.mem_cons_self
    have hgrows := (compileExpression_steps C config root e plan).grows
    have hnamed := (compileExpression_translate C config root e hp).1
    cases hc : compileExpression C config root e plan with
    | mk r q =>
      rw [hc] at hfirst hgrows hnamed
      cases r with
      | error err =>
        cases hl : firstFailure? (C.meaning config root) e.leaves with
        | none =>
          obtain ⟨p, hp⟩ := exists_translate_eq_ok hl
          rw [hp] at hnamed
          cases hnamed
        | some l =>
          rw [compileAll_cons_of_error hc, leavesOfAll, attempted_append_of_some hl]
          exact hfirst
      | ok p =>
        have hnone := firstFailure?_of_translate_ok hnamed.symm
        have hall : attempted (C.meaning config root) e.leaves = e.leaves := by
          simpa [attempted] using attempted_append_of_none hnone []
        rw [hall] at hfirst
        rw [compileAll_cons_of_ok hc, leavesOfAll, attempted_append_of_none hnone,
          hgrows.eq_iff (compileAll_steps C config root es q).grows, hfirst, List.forall_mem_append]
        refine and_congr_right fun hserves => ?_
        obtain rfl : q = plan := hfirst.2 hserves
        exact ih fun d hd => h d (List.mem_cons_of_mem e hd)

/-- An expression leaves the plan as it was exactly if the plan has what its leaves ask for, up to
the one that fails. -/
theorem compileExpression_plan_eq_iff {e : Expression} {plan : JoinPlan} (hp : plan.Grounded) :
    (compileExpression C config root e plan).2 = plan ↔
      ∀ l ∈ attempted (C.meaning config root) e.leaves, plan.servesLeaf C config root l := by
  induction e with
  | leaf field c =>
    rw [compileExpression, compileLeaf_plan_eq_iff, leaves, attempted]
    split <;> simp [attempted]
  | compound op es ih =>
    rw [compileExpression_compound, leaves]
    exact compileAll_plan_eq_iff_of hp ih

/-- **What a filter leaves behind.** Whatever was compiled into a plan before, a filter takes
nothing out of it. The plan is as it was exactly if the filter is nested too deeply, or all the
leaves that are tried find their joins in the plan, and duplicates eliminated where they ask for
it. This is so for a filter that is rejected as for any other: the leaves that are tried are then
those up to the one that fails. -/
theorem compileFilter_plan_eq_iff (C : Catalog τ) (config : Config) (root : τ) {plan : JoinPlan}
    (hp : plan.Reached C) (es : List Expression) :
    plan.Grows (compileFilter C config root es plan).2 ∧
    ((compileFilter C config root es plan).2 = plan ↔
      (∃ e, checkDepth config es = .error e) ∨
        ∀ l ∈ attempted (C.alone config root) (leavesOfAll es),
          plan.servesLeaf C config root l) := by
  refine ⟨(compileFilter_steps C config root es plan).grows, ?_⟩
  have halone : C.alone config root = C.meaning config root :=
    funext (C.alone_eq_meaning config root)
  cases hd : checkDepth config es with
  | error e => simp [compileFilter_of_checkDepth_error hd]
  | ok =>
    rw [compileFilter_of_checkDepth hd, halone]
    dsimp only
    rw [compileAll_plan_eq_iff_of hp.grounded fun e _ => compileExpression_plan_eq_iff hp.grounded]
    simp

/-- The department is joined. A filter that fails behind it changes nothing, and one that fails
behind its staff leaves a second join and the need for duplicate elimination. -/
theorem compileFilter_plan_staff :
    let C := Registry.staff.catalog
    let isNull (field : String) := leaf field (.single (.compare .equal) .null)
    let plan := (compileFilter C {} .employee [isNull "<department.name"]
      (.start "Employee" (some "id"))).2
    (compileFilter C {} .employee [isNull "department.head", isNull "department.staff.id"] plan).2 =
        plan ∧
      (compileFilter C {} .employee [isNull "department.staff.salary"] plan).2 ≠ plan := by
  intro C isNull plan
  have hplan : plan.Reached C := .compile {} _ _ (.start _ _)
  constructor
  · exact (compileFilter_plan_eq_iff C {} .employee hplan _).2.2 (.inr (by decide +kernel))
  · intro h
    rcases (compileFilter_plan_eq_iff C {} .employee hplan _).2.1 h with ⟨e, he⟩ | hserves
    · cases he
    · revert hserves
      decide +kernel

/-- A rejected filter changes the plan that it is compiled into: two joins and the need for
duplicate elimination stay behind. -/
theorem compileFilter_rejected_staff :
    let plan := JoinPlan.start "Employee" (some "id")
    let r := compileFilter Registry.staff.catalog {} .employee
      [leaf "department.staff.salary" (.single (.compare .equal) .null)] plan
    (∃ e, r.1 = .error e) ∧ r.2 ≠ plan ∧ r.2.distinct ∧ r.2.joins = [
      ⟨⟨⟨.root, "Employee", ["department"]⟩, "Department", .inner⟩, 0⟩,
      ⟨⟨⟨.joined 0, "Department", ["staff"]⟩, "Employee", .inner⟩, 1⟩] := by
  intro plan r
  exact ⟨Except.exists_error_of_isOk_eq_false (by decide +kernel), by decide +kernel⟩

end QueryFilter
