import QueryFilter.FieldPath

/-!
# Join plans

What a compilation collects beside the predicate: the joins that lead from the root type to the
columns in use, each association once, and whether joining to many rows calls for duplicate
elimination. A join is identified by its source, the type that owns the association and the path
of attribute names from the source; the join type is the one asked for first. It gets an id when it
is made, by which columns and other joins refer to it. An index beside the joins tells whether an
association is joined, and by which of them.
-/

namespace QueryFilter

/-- Where rows come from: the root type, or the join with an id. -/
inductive Source
  | root
  | joined (id : Nat)
  deriving DecidableEq, Repr

/-- The alias of a source. -/
def Source.alias : Source → String
  | root => "t0"
  | joined i => "t" ++ toString (i + 1)

/-- What identifies a join. -/
structure AssociationKey where
  source : Source
  owner : String
  path : List String
  deriving DecidableEq, Repr

/-- A join that is asked for: the association, the type behind it and the type of the join. -/
structure JoinRequest where
  key : AssociationKey
  target : String
  type : JoinType
  deriving DecidableEq, Repr

/-- A join over an association, with the id that it was given. -/
structure Join extends JoinRequest where
  id : Nat
  deriving DecidableEq, Repr

/-- The joins of a query, in the order in which they were made, with the root type, its identifier
and the need for duplicate elimination. An index beside the joins has the place of the join over
each association that is joined, and nothing else. -/
structure JoinPlan where
  root : String
  primaryKey : Option String
  joins : List Join
  index : List (AssociationKey × Nat)
  distinct : Bool
  lookup_index : ∀ key i, index.lookup key = some i ↔ ∃ j, joins[i]? = some j ∧ j.key = key
  deriving DecidableEq, Repr

namespace JoinPlan

/-- A plan without joins. -/
def start (root : String) (primaryKey : Option String) : JoinPlan where
  root := root
  primaryKey := primaryKey
  joins := []
  index := []
  distinct := false
  lookup_index := by simp

/-- The join in a place, which is where an id leads to. -/
def join? (p : JoinPlan) (i : Nat) : Option Join := p.joins[i]?

/-- The id of the join over an association. -/
def index? (p : JoinPlan) (key : AssociationKey) : Option Nat := p.index.lookup key

/-- An association is found in the index exactly if it is joined in that place. -/
theorem index?_eq_some_iff {p : JoinPlan} {key : AssociationKey} {i : Nat} :
    p.index? key = some i ↔ ∃ j, p.join? i = some j ∧ j.key = key := p.lookup_index key i

theorem index?_eq_none {p : JoinPlan} {key : AssociationKey} :
    p.index? key = none ↔ ∀ j ∈ p.joins, j.key ≠ key := by
  constructor
  · intro h j hj hkey
    obtain ⟨i, hi⟩ := List.mem_iff_getElem?.1 hj
    have hsome : p.index? key = some i := index?_eq_some_iff.2 ⟨j, hi, hkey⟩
    rw [h] at hsome
    cases hsome
  · intro h
    refine Option.eq_none_iff_forall_ne_some.2 fun i hi => ?_
    obtain ⟨j, hj, hkey⟩ := index?_eq_some_iff.1 hi
    exact h j (List.mem_of_getElem? hj) hkey

/-- With one join more, a join is found among those before, or it is the last one. -/
theorem exists_getElem?_concat {joins : List Join} {j : Join} {key : AssociationKey} {i : Nat} :
    (∃ k, (joins ++ [j])[i]? = some k ∧ k.key = key) ↔
      (∃ k, joins[i]? = some k ∧ k.key = key) ∨ i = joins.length ∧ j.key = key := by
  rcases Nat.lt_trichotomy i joins.length with hi | rfl | hi
  · rw [List.getElem?_append_left hi]
    simp [Nat.ne_of_lt hi]
  · simp
  · rw [List.getElem?_eq_none (by simp; omega), List.getElem?_eq_none (Nat.le_of_lt hi)]
    simp [Nat.ne_of_gt hi]

/-- Add a join over an association that is not joined yet. Its id is the number of joins so far. -/
def add (p : JoinPlan) (j : JoinRequest) (h : p.index? j.key = none) : JoinPlan where
  root := p.root
  primaryKey := p.primaryKey
  joins := p.joins ++ [⟨j, p.joins.length⟩]
  index := (j.key, p.joins.length) :: p.index
  distinct := p.distinct
  lookup_index := by
    intro key i
    rw [exists_getElem?_concat, List.lookup_cons]
    by_cases hkey : key = j.key
    · subst hkey
      -- no other join is one over this association
      have hnone : ¬∃ k, p.joins[i]? = some k ∧ k.key = j.key := by
        rintro ⟨k, hk, hkj⟩
        exact index?_eq_none.1 h k (List.mem_of_getElem? hk) hkj
      rw [or_iff_right hnone, beq_self_eq_true, and_iff_left rfl]
      exact Option.some_inj.trans eq_comm
    · have hne : (key == j.key) = false := beq_false_of_ne hkey
      simp [hne, p.lookup_index, Ne.symm hkey]

/-- The join over an association, which is made when there is none yet: its id, whether it was made,
and the plan. -/
def join (p : JoinPlan) (j : JoinRequest) : Nat × Bool × JoinPlan :=
  match h : p.index? j.key with
  | some i => (i, false, p)
  | none => (p.joins.length, true, p.add j h)

/-- The join that is found is one over the association. -/
theorem join?_of_index? {p : JoinPlan} {key : AssociationKey} {i : Nat}
    (h : p.index? key = some i) : ∃ j, p.join? i = some j ∧ j.key = key := index?_eq_some_iff.1 h

theorem join_of_index?_some {p : JoinPlan} {j : JoinRequest} {i : Nat}
    (h : p.index? j.key = some i) : p.join j = (i, false, p) := by
  unfold join
  split
  · simp_all
  · simp_all

theorem join_of_index?_none {p : JoinPlan} {j : JoinRequest} (h : p.index? j.key = none) :
    p.join j = (p.joins.length, true, p.add j h) := by
  unfold join
  split
  · simp_all
  · simp_all

/-- A join is added behind the others, and only for an association that has none yet. -/
theorem joins_join (p : JoinPlan) (j : JoinRequest) :
    (p.join j).2.2.joins =
      if p.index? j.key = none then p.joins ++ [⟨j, p.joins.length⟩] else p.joins := by
  cases h : p.index? j.key with
  | some i => simp [join_of_index?_some h]
  | none => simp [join_of_index?_none h, add]

/-- The id that is given back leads to a join over the association. -/
theorem join?_join (p : JoinPlan) (j : JoinRequest) :
    ∃ k, (p.join j).2.2.join? (p.join j).1 = some k ∧ k.key = j.key := by
  cases h : p.index? j.key with
  | some i =>
    rw [join_of_index?_some h]
    exact join?_of_index? h
  | none =>
    rw [join_of_index?_none h]
    exact ⟨⟨j, p.joins.length⟩, by simp [join?, add], rfl⟩

/-- Ask for duplicate elimination. -/
def requireDistinct (p : JoinPlan) : JoinPlan := { p with distinct := true }

end JoinPlan

end QueryFilter
