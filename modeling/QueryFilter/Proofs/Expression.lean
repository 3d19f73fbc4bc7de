import Mathlib.Data.List.Forall2
import QueryFilter.Expression.Basic

/-!
# Expressions that can be built

The constructors of expressions refuse some operands, so not every tree is built by them. This file
says which trees are:

* `Expression.induction` is the induction over trees that the other proofs use;
* `single_eq_ok_iff`, `list_eq_ok_iff` and `of_eq_ok_iff` say what each constructor accepts;
* `built_iff`: a tree is built exactly when each leaf has a valid condition, that is, null is
  compared only in a null test and no list of operands is empty.
-/

namespace QueryFilter

/-- The conditions that a leaf may have: null is compared only in a null test, and a list of
operands is not empty. -/
def Condition.Valid : Condition → Prop
  | .single op v => v = .null → op.acceptsNull
  | .list _ vs => vs ≠ []

instance : (c : Condition) → Decidable c.Valid
  | .single op v => inferInstanceAs (Decidable (v = .null → op.acceptsNull))
  | .list _ vs => inferInstanceAs (Decidable (vs ≠ []))

namespace Expression

/-- Induction over a tree: a compound node may use the statement for each of its children. -/
@[elab_as_elim, induction_eliminator]
theorem induction {P : Expression → Prop} (leaf : ∀ f c, P (.leaf f c))
    (compound : ∀ op es, (∀ e ∈ es, P e) → P (.compound op es)) : ∀ e, P e
  | .leaf f c => leaf f c
  | .compound op es => compound op es fun e _ => induction leaf compound e
termination_by e => sizeOf e
decreasing_by
  have := List.sizeOf_lt_of_mem ‹e ∈ es›
  simp only [Expression.compound.sizeOf_spec]
  omega

/-! ### Leaves -/

theorem leavesOfAll_eq_flatMap (es : List Expression) : leavesOfAll es = es.flatMap leaves := by
  induction es with
  | nil => rfl
  | cons e es ih => rw [leavesOfAll, ih, List.flatMap_cons]

theorem mem_leaves_compound {op : Connective} {es : List Expression} {l : String × Condition} :
    l ∈ (compound op es).leaves ↔ ∃ e ∈ es, l ∈ e.leaves := by
  rw [leaves, leavesOfAll_eq_flatMap, List.mem_flatMap]

/-! ### Depth -/

/-- Lists of trees are as deep as each other if the trees are. -/
theorem depthOfAll_congr {es ds : List Expression}
    (h : List.Forall₂ (fun e d : Expression => e.depth = d.depth) es ds) :
    depthOfAll es = depthOfAll ds := by
  induction h with
  | nil => rfl
  | cons hdepth _ ih => rw [depthOfAll, depthOfAll, hdepth, ih]

/-- The order of a list of trees has no influence on its depth. -/
theorem depthOfAll_perm {es ds : List Expression} (h : es.Perm ds) :
    depthOfAll es = depthOfAll ds := by
  induction h with
  | nil => rfl
  | cons e _ ih => rw [depthOfAll, depthOfAll, ih]
  | swap e d es => simp only [depthOfAll, Nat.max_left_comm]
  | trans _ _ ih ih' => exact ih.trans ih'

/-! ### What the constructors accept -/

theorem single_eq_ok_iff {f : String} {op : Operator} {v : Json} {e : Expression} :
    single f op v = .ok e ↔ ∃ o s, op = .single o ∧ v = .scalar s ∧
      (Condition.single o s).Valid ∧ e = .leaf f (.single o s) := by
  unfold single Condition.Valid
  split
  · simp
  · simp
  · split
    · split
      · -- null, for an operator that does not take it
        rename_i h
        simp only [reduceCtorEq, Operator.single.injEq, Json.scalar.injEq, false_iff, not_exists]
        rintro o s ⟨rfl, rfl, hs, -⟩
        exact h.2 (hs h.1)
      · rename_i h
        simp only [Except.ok.injEq, Operator.single.injEq, Json.scalar.injEq]
        constructor
        · rintro rfl
          exact ⟨_, _, rfl, rfl, fun hv => by simpa [hv] using h, rfl⟩
        · rintro ⟨o, s, rfl, rfl, -, rfl⟩
          rfl
    · rename_i h
      simp only [reduceCtorEq, false_iff, not_exists]
      rintro o s ⟨-, rfl, -⟩
      exact h s rfl

theorem scalars_map (f : String) (ss : List Json.Scalar) : scalars f (ss.map .scalar) = .ok ss := by
  induction ss with
  | nil => rfl
  | cons s ss ih =>
    rw [List.map_cons, scalars, ih]
    rfl

theorem eq_map_of_scalars {f : String} {vs : List Json} {ss : List Json.Scalar}
    (h : scalars f vs = .ok ss) : vs = ss.map .scalar := by
  induction vs generalizing ss with
  | nil =>
    cases h
    rfl
  | cons v vs ih =>
    cases v with
    | scalar s =>
      rw [scalars] at h
      cases hr : scalars f vs with
      | error err =>
        rw [hr] at h
        cases h
      | ok ts =>
        rw [hr] at h
        cases h
        rw [List.map_cons, ih hr]
    | array vs' => cases h
    | object ms => cases h

theorem list_eq_ok_iff {f : String} {op : Operator} {vs : List Json} {e : Expression} :
    list f op vs = .ok e ↔ ∃ o ss, op = .list o ∧ vs = ss.map .scalar ∧
      (Condition.list o ss).Valid ∧ e = .leaf f (.list o ss) := by
  unfold list Condition.Valid
  split
  · rename_i o
    constructor
    · intro h
      split at h
      · cases h
      · rename_i hne
        cases hr : scalars f vs with
        | error err => rw [hr] at h; cases h
        | ok ss =>
          rw [hr] at h
          cases h
          have hvs := eq_map_of_scalars hr
          refine ⟨o, ss, rfl, hvs, ?_, rfl⟩
          rintro rfl
          exact hne (by simp [hvs])
    · rintro ⟨o', ss, ho, rfl, hne, rfl⟩
      cases ho
      rw [if_neg (by simpa using hne), scalars_map]
      rfl
  · rename_i h
    simp only [reduceCtorEq, false_iff, not_exists]
    rintro o ss ⟨rfl, -⟩
    exact h o rfl

/-- The constructor that picks the arity accepts just the conditions that are valid. -/
theorem of_eq_ok_iff {f : String} {op : Operator} {v : Json} {e : Expression} :
    of f op v = .ok e ↔ ∃ c : Condition, op = c.operator ∧ v = c.operand ∧ c.Valid ∧
      e = .leaf f c := by
  constructor
  · intro h
    unfold of at h
    split at h
    · obtain ⟨o, ss, ho, rfl, hc, rfl⟩ := list_eq_ok_iff.1 h
      exact ⟨.list o ss, ho, rfl, hc, rfl⟩
    · cases h
    · obtain ⟨o, s, ho, rfl, hc, rfl⟩ := single_eq_ok_iff.1 h
      exact ⟨.single o s, ho, rfl, hc, rfl⟩
  · rintro ⟨c, rfl, rfl, hc, rfl⟩
    cases c with
    | single o s => exact single_eq_ok_iff.2 ⟨o, s, rfl, rfl, hc, rfl⟩
    | list o ss => exact list_eq_ok_iff.2 ⟨o, ss, rfl, rfl, hc, rfl⟩

/-! ### Built trees -/

/-- The trees that the constructors give, nested in any way. -/
inductive Built : Expression → Prop
  | single {f : String} {op : Operator} {v : Json} {e : Expression} :
    Expression.single f op v = .ok e → Built e
  | list {f : String} {op : Operator} {vs : List Json} {e : Expression} :
    Expression.list f op vs = .ok e → Built e
  | of {f : String} {op : Operator} {v : Json} {e : Expression} :
    Expression.of f op v = .ok e → Built e
  | and {a b : Expression} : Built a → Built b → Built (a.and b)
  | or {a b : Expression} : Built a → Built b → Built (a.or b)
  | allOf {es : List Expression} : (∀ e ∈ es, Built e) → Built (allOf es)
  | anyOf {es : List Expression} : (∀ e ∈ es, Built e) → Built (anyOf es)

/-- The leaves of a built tree have valid conditions. -/
theorem Built.valid {e : Expression} (h : e.Built) : ∀ l ∈ e.leaves, l.2.Valid := by
  -- `and` and `or` are the compounds with two children
  have pair {op : Connective} {a b : Expression} (ha : ∀ l ∈ a.leaves, l.2.Valid)
      (hb : ∀ l ∈ b.leaves, l.2.Valid) : ∀ l ∈ (compound op [a, b]).leaves, l.2.Valid := by
    intro l hl
    obtain ⟨e, he, hle⟩ := mem_leaves_compound.1 hl
    simp only [List.mem_cons, List.not_mem_nil, or_false] at he
    rcases he with rfl | rfl
    · exact ha l hle
    · exact hb l hle
  induction h with
  | single h =>
    obtain ⟨o, s, -, -, hc, rfl⟩ := single_eq_ok_iff.1 h
    simpa [leaves] using hc
  | list h =>
    obtain ⟨o, ss, -, -, hc, rfl⟩ := list_eq_ok_iff.1 h
    simpa [leaves] using hc
  | of h =>
    obtain ⟨c, -, -, hc, rfl⟩ := of_eq_ok_iff.1 h
    simpa [leaves] using hc
  | and _ _ iha ihb => exact pair iha ihb
  | or _ _ iha ihb => exact pair iha ihb
  | allOf _ ih | anyOf _ ih =>
    intro l hl
    obtain ⟨e, he, hle⟩ := mem_leaves_compound.1 hl
    exact ih e he l hle

theorem built_iff {e : Expression} : e.Built ↔ ∀ l ∈ e.leaves, l.2.Valid := by
  refine ⟨Built.valid, fun h => ?_⟩
  induction e with
  | leaf f c => exact .of (of_eq_ok_iff.2 ⟨c, rfl, rfl, h (f, c) (by simp [leaves]), rfl⟩)
  | compound op es ih =>
    have hes : ∀ e ∈ es, e.Built := fun e he =>
      ih e he fun l hl => h l (mem_leaves_compound.2 ⟨e, he, hl⟩)
    cases op with
    | and => exact .allOf hes
    | or => exact .anyOf hes

end Expression

end QueryFilter
