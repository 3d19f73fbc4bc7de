import QueryFilter.Query.JoinPlan

/-!
# Growing join plans

A plan is only ever added to, and a join starts at the root type or at an earlier join. So every
source has a fixed list of attribute names that leads to it from the root type.

* `Grows p q`: everything that is in the plan `p` is in `q`;
* `Grounded p`: joins have their places as ids and start at the root type or at earlier joins;
* `names p s`: the attribute names from the root type to the source `s`;
* `Grows.names`: a plan that grows keeps the names of its sources;
* `Chain p s js`: the joins from the root type to the source `s`;
* `Grows.chain`: a plan that grows keeps these joins, too.
-/

namespace QueryFilter

/-- Whether a source is the root type or one of the first `n` joins. -/
def Source.IsBelow (n : Nat) : Source → Prop
  | root => True
  | joined i => i < n

@[simp] theorem Source.isBelow_root (n : Nat) : root.IsBelow n := trivial

@[simp] theorem Source.isBelow_joined (n i : Nat) : (joined i).IsBelow n ↔ i < n := Iff.rfl

theorem Source.IsBelow.mono {m n : Nat} {s : Source} (h : s.IsBelow m) (hmn : m ≤ n) :
    s.IsBelow n := by
  cases s with
  | root => trivial
  | joined i => exact Nat.lt_of_lt_of_le h hmn

namespace JoinPlan

/-! ### Growth -/

/-- A plan grows into another: its joins are the first ones there, what is in its index stays
there, and duplicate elimination is not given up. -/
structure Grows (p q : JoinPlan) : Prop where
  root : q.root = p.root
  primaryKey : q.primaryKey = p.primaryKey
  joins : p.joins <+: q.joins
  index : p.index <:+ q.index
  distinct : p.distinct → q.distinct

theorem Grows.refl (p : JoinPlan) : p.Grows p :=
  ⟨rfl, rfl, List.prefix_refl _, List.suffix_refl _, id⟩

theorem Grows.trans {p q r : JoinPlan} (h : p.Grows q) (h' : q.Grows r) : p.Grows r :=
  ⟨h'.root.trans h.root, h'.primaryKey.trans h.primaryKey, h.joins.trans h'.joins,
    h.index.trans h'.index, fun hp => h'.distinct (h.distinct hp)⟩

theorem grows_requireDistinct (p : JoinPlan) : p.Grows p.requireDistinct :=
  ⟨rfl, rfl, List.prefix_refl _, List.suffix_refl _, fun _ => rfl⟩

theorem grows_join (p : JoinPlan) (j : JoinRequest) : p.Grows (p.join j).2.2 := by
  cases h : p.index? j.key with
  | some i =>
    rw [join_of_index?_some h]
    exact Grows.refl p
  | none =>
    rw [join_of_index?_none h]
    exact ⟨rfl, rfl, List.prefix_append _ _, List.suffix_cons _ _, id⟩

theorem Grows.length_le {p q : JoinPlan} (h : p.Grows q) : p.joins.length ≤ q.joins.length :=
  h.joins.length_le

theorem Grows.join? {p q : JoinPlan} (h : p.Grows q) {i : Nat} {j : Join}
    (hj : p.join? i = some j) : q.join? i = some j := by
  obtain ⟨hi, rfl⟩ := List.getElem?_eq_some_iff.1 hj
  exact List.prefix_iff_getElem?.1 h.joins i hi

/-! ### Grounded plans -/

/-- The id of a join is its place among the joins, and it starts at the root type or at a join with
a smaller id. -/
structure Grounded (p : JoinPlan) : Prop where
  id : ∀ i j, p.join? i = some j → j.id = i
  source : ∀ i j, p.join? i = some j → j.key.source.IsBelow i

theorem grounded_start (root : String) (primaryKey : Option String) :
    (start root primaryKey).Grounded := by
  constructor <;>
  · intro i j h
    simp [start, join?] at h

theorem Grounded.requireDistinct {p : JoinPlan} (h : p.Grounded) : p.requireDistinct.Grounded :=
  ⟨h.id, h.source⟩

/-- After an association is joined, a join is one of those before, or it is the new one in the last
place. -/
theorem join?_join_cases {p : JoinPlan} {j : JoinRequest} {i : Nat} {k : Join}
    (h : (p.join j).2.2.join? i = some k) :
    p.join? i = some k ∨ i = p.joins.length ∧ k = ⟨j, p.joins.length⟩ := by
  simp only [join?, joins_join] at h ⊢
  split at h
  · rw [List.getElem?_append] at h
    split at h
    · exact .inl h
    · have hlt := (List.getElem?_eq_some_iff.1 h).1
      simp only [List.length_singleton] at hlt
      obtain rfl : i = p.joins.length := by omega
      simp only [Nat.sub_self, List.getElem?_cons_zero, Option.some.injEq] at h
      exact .inr ⟨rfl, h.symm⟩
  · exact .inl h

theorem Grounded.join {p : JoinPlan} (h : p.Grounded) {j : JoinRequest}
    (hj : j.key.source.IsBelow p.joins.length) : (p.join j).2.2.Grounded := by
  constructor
  · intro i k hk
    rcases join?_join_cases hk with hk | ⟨rfl, rfl⟩
    · exact h.id i k hk
    · rfl
  · intro i k hk
    rcases join?_join_cases hk with hk | ⟨rfl, rfl⟩
    · exact h.source i k hk
    · exact hj

/-- A source in a grounded plan is the root type, or it has the id of a join. -/
theorem Grounded.exists_join {p : JoinPlan} (h : p.Grounded) {s : Source}
    (hs : s.IsBelow p.joins.length) : s = .root ∨ ∃ j ∈ p.joins, s = .joined j.id := by
  cases s with
  | root => exact .inl rfl
  | joined i =>
    obtain ⟨j, hj⟩ : ∃ j, p.join? i = some j := ⟨_, List.getElem?_eq_getElem hs⟩
    exact .inr ⟨j, List.mem_of_getElem? hj, by rw [h.id i j hj]⟩

/-- The index of a grounded plan has the id of each join, and nothing else. -/
theorem Grounded.lookup_index {p : JoinPlan} (h : p.Grounded) {key : AssociationKey} {i : Nat} :
    p.index.lookup key = some i ↔ ∃ j ∈ p.joins, j.key = key ∧ j.id = i := by
  rw [p.lookup_index]
  constructor
  · rintro ⟨j, hj, hkey⟩
    exact ⟨j, List.mem_of_getElem? hj, hkey, h.id i j hj⟩
  · rintro ⟨j, hj, hkey, rfl⟩
    obtain ⟨i, hi⟩ := List.mem_iff_getElem?.1 hj
    exact ⟨j, h.id i j hi ▸ hi, hkey⟩

/-! ### Names of sources -/

/-- The names that lead from the root type to a source, where at most `n` joins are followed
back. -/
def namesWithin (p : JoinPlan) : (n : Nat) → Source → List String
  | _, .root => []
  | 0, .joined _ => []
  | n + 1, .joined i =>
    match p.join? i with
    | none => []
    | some j => p.namesWithin n j.key.source ++ j.key.path

/-- The names that lead from the root type to a source: those of the joins on the way. -/
def names (p : JoinPlan) (s : Source) : List String := p.namesWithin p.joins.length s

@[simp] theorem namesWithin_root (p : JoinPlan) (n : Nat) : p.namesWithin n .root = [] := by
  cases n <;> rfl

@[simp] theorem names_root (p : JoinPlan) : p.names .root = [] := namesWithin_root p _

/-- It is enough to follow back as many joins as come before the source, and a plan that has grown
is followed in the same way. -/
theorem Grows.namesWithin_eq {p q : JoinPlan} (h : p.Grows q) (hp : p.Grounded) {m n : Nat}
    {s : Source} (hs : s.IsBelow p.joins.length) (hm : s.IsBelow m) (hn : s.IsBelow n) :
    q.namesWithin m s = p.namesWithin n s := by
  induction m generalizing n s with
  | zero =>
    cases s with
    | root => simp
    | joined i => exact absurd hm (Nat.not_lt_zero i)
  | succ m ih =>
    cases s with
    | root => simp
    | joined i =>
      obtain ⟨n, rfl⟩ : ∃ k, n = k + 1 := Nat.exists_eq_add_one.2 (Nat.zero_lt_of_lt hn)
      obtain ⟨j, hj⟩ : ∃ j, p.join? i = some j := ⟨_, List.getElem?_eq_getElem hs⟩
      -- the source of a join comes before it, so one join less is enough to follow it back
      have hsource := hp.source i j hj
      simp only [Source.isBelow_joined] at hs hm hn
      have hnames : q.namesWithin m j.key.source = p.namesWithin n j.key.source :=
        ih (hsource.mono (by omega)) (hsource.mono (by omega)) (hsource.mono (by omega))
      simp only [namesWithin, hj, h.join? hj, hnames]

/-- A plan that grows keeps the names of its sources. -/
theorem Grows.names {p q : JoinPlan} (h : p.Grows q) (hp : p.Grounded) {s : Source}
    (hs : s.IsBelow p.joins.length) : q.names s = p.names s :=
  h.namesWithin_eq hp hs (hs.mono h.length_le) hs

/-- A join is reached by the names of its source and those of its own path. -/
theorem Grounded.names_joined {p : JoinPlan} (h : p.Grounded) {i : Nat} {j : Join}
    (hj : p.join? i = some j) : p.names (.joined i) = p.names j.key.source ++ j.key.path := by
  have hi : i < p.joins.length := (List.getElem?_eq_some_iff.1 hj).1
  have hsource := h.source i j hj
  have fuel {m n : Nat} {s : Source} (hs : s.IsBelow p.joins.length) (hm : s.IsBelow m)
      (hn : s.IsBelow n) : p.namesWithin m s = p.namesWithin n s :=
    (Grows.refl p).namesWithin_eq h hs hm hn
  calc p.names (.joined i)
      = p.namesWithin (i + 1) (.joined i) := fuel hi hi (Nat.lt_succ_self i)
    _ = p.namesWithin i j.key.source ++ j.key.path := by rw [namesWithin, hj]
    _ = p.names j.key.source ++ j.key.path := by
        rw [JoinPlan.names, fuel (hsource.mono (Nat.le_of_lt hi)) hsource
          (hsource.mono (Nat.le_of_lt hi))]

/-! ### Chains of joins -/

/-- The joins that lead from the root type to a source, from the first one on. -/
inductive Chain (p : JoinPlan) : Source → List Join → Prop
  | root : Chain p .root []
  | joined {i : Nat} {j : Join} {js : List Join} : p.join? i = some j →
    Chain p j.key.source js → Chain p (.joined i) (js ++ [j])

/-- One list of joins at most leads to a source. -/
theorem Chain.unique {p : JoinPlan} {s : Source} {js ks : List Join} (h : p.Chain s js)
    (h' : p.Chain s ks) : js = ks := by
  induction h generalizing ks with
  | root =>
    cases h'
    rfl
  | joined hj _ ih =>
    cases h' with
    | joined hk hks =>
      obtain rfl := Option.some.inj (hj.symm.trans hk)
      rw [ih hks]

/-- In a grounded plan every source is reached. -/
theorem Grounded.exists_chain {p : JoinPlan} (h : p.Grounded) {s : Source}
    (hs : s.IsBelow p.joins.length) : ∃ js, p.Chain s js := by
  cases s with
  | root => exact ⟨[], .root⟩
  | joined i =>
    -- induction on the id, since a join starts at an earlier one
    induction i using Nat.strongRecOn with
    | ind i ih =>
      obtain ⟨j, hj⟩ : ∃ j, p.join? i = some j := ⟨_, List.getElem?_eq_getElem hs⟩
      have hsource := h.source i j hj
      obtain ⟨js, hjs⟩ : ∃ js, p.Chain j.key.source js := by
        cases hk : j.key.source with
        | root => exact ⟨[], .root⟩
        | joined k =>
          rw [hk] at hsource
          exact ih k hsource (Nat.lt_trans hsource hs)
      exact ⟨js ++ [j], .joined hj hjs⟩

/-- A plan that grows keeps the joins that lead to its sources. -/
theorem Grows.chain {p q : JoinPlan} (h : p.Grows q) {s : Source} {js : List Join}
    (hjs : p.Chain s js) : q.Chain s js := by
  induction hjs with
  | root => exact .root
  | joined hj _ ih => exact .joined (h.join? hj) ih

/-! ### Association steps -/

/-- There is one join over an association at most, so the index gives the first one. -/
theorem index?_eq_findIdx? (p : JoinPlan) (key : AssociationKey) :
    p.index? key = (p.joins.map (·.toJoinRequest)).findIdx? (·.key == key) := by
  rw [List.findIdx?_map]
  cases h : p.index? key with
  | none =>
    rw [eq_comm, List.findIdx?_eq_none_iff]
    exact fun j hj => beq_false_of_ne (index?_eq_none.1 h j hj)
  | some i =>
    obtain ⟨j, hj, hkey⟩ := index?_eq_some_iff.1 h
    obtain ⟨hi, rfl⟩ := List.getElem?_eq_some_iff.1 hj
    refine (List.findIdx?_eq_some_iff_getElem.2 ⟨hi, by simpa using hkey, fun k hk hk' => ?_⟩).symm
    have hfirst : p.index? key = some k :=
      index?_eq_some_iff.2 ⟨_, List.getElem?_eq_getElem (Nat.lt_trans hk hi), by simpa using hk'⟩
    rw [h, Option.some.injEq] at hfirst
    exact absurd hfirst.symm (Nat.ne_of_lt hk)

/-- No two joins are over one association. -/
theorem nodup_keys (p : JoinPlan) : (p.joins.map (·.key)).Nodup := by
  refine List.pairwise_iff_getElem.2 fun i k hi hk hik heq => ?_
  rw [List.getElem_map, List.getElem_map] at heq
  rw [List.length_map] at hi hk
  have hindex : p.index? p.joins[i].key = some i :=
    index?_eq_some_iff.2 ⟨_, List.getElem?_eq_getElem hi, rfl⟩
  have hindex' : p.index? p.joins[i].key = some k :=
    index?_eq_some_iff.2 ⟨_, List.getElem?_eq_getElem hk, heq.symm⟩
  rw [hindex, Option.some.injEq] at hindex'
  exact Nat.ne_of_lt hik hindex'

/-- What walking through an association does with a plan: a link to many entities calls for
duplicate elimination, and the association is joined unless it is already. The id is that of its
join. -/
def visit (p : JoinPlan) (many : Bool) (j : JoinRequest) : Nat × JoinPlan :=
  let r := (if many then p.requireDistinct else p).join j
  (r.1, r.2.2)

theorem joins_ite_requireDistinct (p : JoinPlan) (many : Bool) :
    (if many then p.requireDistinct else p).joins = p.joins := by
  cases many <;> rfl

theorem grows_visit (p : JoinPlan) (many : Bool) (j : JoinRequest) :
    p.Grows (p.visit many j).2 := by
  refine Grows.trans ?_ (grows_join _ j)
  cases many
  · exact Grows.refl p
  · exact grows_requireDistinct p

theorem index?_ite_requireDistinct (p : JoinPlan) (many : Bool) (key : AssociationKey) :
    (if many then p.requireDistinct else p).index? key = p.index? key := by
  cases many <;> rfl

/-- An association that is joined already. -/
theorem visit_of_index?_some {p : JoinPlan} {j : JoinRequest} {i : Nat}
    (h : p.index? j.key = some i) (many : Bool) :
    (p.visit many j).1 = i ∧ (p.visit many j).2.joins = p.joins := by
  rw [← index?_ite_requireDistinct p many] at h
  rw [visit, join_of_index?_some h]
  exact ⟨rfl, joins_ite_requireDistinct p many⟩

/-- An association that is not joined yet. -/
theorem visit_of_index?_none {p : JoinPlan} {j : JoinRequest} (h : p.index? j.key = none)
    (many : Bool) : (p.visit many j).1 = p.joins.length ∧
      (p.visit many j).2.joins = p.joins ++ [⟨j, p.joins.length⟩] := by
  rw [← index?_ite_requireDistinct p many] at h
  rw [visit, join_of_index?_none h]
  simp only [add, joins_ite_requireDistinct, and_self]

/-- The id that is given back leads to a join over the association. -/
theorem join?_visit (p : JoinPlan) (many : Bool) (j : JoinRequest) :
    ∃ k, (p.visit many j).2.join? (p.visit many j).1 = some k ∧ k.key = j.key :=
  join?_join _ j

theorem lt_length_visit (p : JoinPlan) (many : Bool) (j : JoinRequest) :
    (p.visit many j).1 < (p.visit many j).2.joins.length := by
  obtain ⟨k, hk, -⟩ := join?_visit p many j
  exact (List.getElem?_eq_some_iff.1 hk).1

theorem Grounded.visit {p : JoinPlan} (h : p.Grounded) (many : Bool) {j : JoinRequest}
    (hj : j.key.source.IsBelow p.joins.length) : (p.visit many j).2.Grounded := by
  refine Grounded.join (p := if many then p.requireDistinct else p) ?_
    (by rwa [joins_ite_requireDistinct])
  cases many
  · exact h
  · exact h.requireDistinct

/-- The join of an association, made now or before, is reached by the names of the association. -/
theorem Grounded.names_visit {p : JoinPlan} (h : p.Grounded) (many : Bool) {j : JoinRequest}
    (hj : j.key.source.IsBelow p.joins.length) :
    (p.visit many j).2.names (.joined (p.visit many j).1) = p.names j.key.source ++ j.key.path := by
  obtain ⟨k, hk, hkey⟩ := join?_visit p many j
  rw [(h.visit many hj).names_joined hk, hkey, (grows_visit p many j).names h hj]

end JoinPlan

end QueryFilter
