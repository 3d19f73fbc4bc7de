import Mathlib.Data.List.Forall2
import QueryFilter.Proofs.FieldPath
import QueryFilter.Proofs.Walk

/-!
# Markers in paths

Two filters that differ only in the markers of their paths are compiled side by side. They fail at
the same place, and the joins that they make are over the same associations in the same order. A
marker shows in the type of a join, and nowhere else.

* `FieldPath.SameNames` and `FieldPath.SameRequests`: paths that differ in markers, and in the
  spelling of markers, only;
* `Expression.Alike`: trees that differ in the fields of their leaves only;
* `JoinPlan.Alike`: plans that differ in the types of joins only;
* `Compiled.Alike`: compilations with the same result, or with errors of the same code;
* `walk_alike`: what holds of one path;
* `compileFilter_alike`: what holds of a whole filter;
* `compileQuery_markers`: what the markers have to do with a query.
-/

namespace QueryFilter

variable {τ : Type}

/-! ### Paths -/

namespace FieldPath

/-- The join types that the segments of a path before the last one ask for. -/
def requestedJoins (field : String) : List JoinType :=
  (segments field).dropLast.map fun s => (readMarkers s).join

/-- Two paths with the same segments, once the markers before the last segment are left out. -/
def SameNames (f g : String) : Prop := spelledNames (segments f) = spelledNames (segments g)

/-- Two paths that ask for the same join types besides. -/
def SameRequests (f g : String) : Prop := SameNames f g ∧ requestedJoins f = requestedJoins g

instance (f g : String) : Decidable (SameNames f g) :=
  inferInstanceAs (Decidable (spelledNames (segments f) = spelledNames (segments g)))

instance (f g : String) : Decidable (SameRequests f g) :=
  inferInstanceAs (Decidable (SameNames f g ∧ requestedJoins f = requestedJoins g))

/-- Two walks through the same names, with join types that are related. -/
inductive Alike (R : JoinType → JoinType → Prop) : FieldPath → FieldPath → Prop
  | last (name : String) : Alike R (.last name) (.last name)
  | step {join join' : JoinType} {rest rest' : FieldPath} (name : String) : R join join' →
    Alike R rest rest' → Alike R (.step name join rest) (.step name join' rest')
  | broken (text text' : String) : Alike R (.broken text) (.broken text')

theorem length_spelledNames (ss : List (List Char)) : (spelledNames ss).length = ss.length := by
  induction ss using spelledNames.induct with
  | case1 | case2 s => rfl
  | case3 s t ss ih => rw [spelledNames, List.length_cons, ih, ← List.length_cons]

theorem spelledNames_eq_singleton_empty {ss : List (List Char)} :
    spelledNames ss = [""] ↔ ss = [[]] := by
  constructor
  · intro h
    have hlength : ss.length = 1 := by rw [← length_spelledNames, h, List.length_singleton]
    obtain ⟨s, rfl⟩ := List.length_eq_one_iff.1 hlength
    rw [spelledNames, List.cons.injEq] at h
    rw [String.ofList_inj.1 (h.1.trans String.ofList_nil.symm)]
  · rintro rfl
    rfl

theorem SameNames.length_segments {f g : String} (h : SameNames f g) :
    (segments f).length = (segments g).length := by
  rw [← length_spelledNames, h, length_spelledNames]

/-- Segments that spell the same names are walked through alike. -/
theorem ofSegments_alike {R : JoinType → JoinType → Prop} {ss ts : List (List Char)}
    (hnames : spelledNames ss = spelledNames ts)
    (hjoins : List.Forall₂ R (ss.dropLast.map fun s => (readMarkers s).join)
      (ts.dropLast.map fun s => (readMarkers s).join)) :
    (ofSegments ss).Alike R (ofSegments ts) := by
  have hlength : ss.length = ts.length := by
    rw [← length_spelledNames, hnames, length_spelledNames]
  induction ss using spelledNames.induct generalizing ts with
  | case1 =>
    obtain rfl : ts = [] := List.length_eq_zero_iff.1 hlength.symm
    exact .broken _ _
  | case2 s =>
    obtain ⟨t, rfl⟩ := List.length_eq_one_iff.1 hlength.symm
    -- the last segment is taken as it is, so it is the same one
    obtain rfl : s = t := String.ofList_inj.1 (List.cons.inj hnames).1
    rw [ofSegments]
    split
    · exact .broken _ _
    · exact .last _
  | case3 s s' ss ih =>
    obtain ⟨t, ts, rfl⟩ := List.exists_cons_of_length_eq_add_one hlength.symm
    obtain ⟨t', ts, rfl⟩ := List.exists_cons_of_length_eq_add_one (Nat.succ.inj hlength.symm)
    obtain ⟨hbare, hrest⟩ := List.cons.inj hnames
    obtain ⟨hjoin, hjoins⟩ := List.forall₂_cons.1 hjoins
    have hname : (readMarkers s).name = (readMarkers t).name := String.ofList_inj.1 hbare
    have hempty : s' :: ss = [[]] ↔ t' :: ts = [[]] := by
      rw [← spelledNames_eq_singleton_empty, hrest, spelledNames_eq_singleton_empty]
    rw [ofSegments, ofSegments, hname, hbare]
    simp only [hempty]
    split
    · exact .broken _ _
    · exact .step _ hjoin (ih hrest hjoins (Nat.succ.inj hlength))

theorem SameNames.parse_alike {f g : String} (h : SameNames f g) :
    (parse f).Alike (fun _ _ => True) (parse g) := by
  rw [parse_eq_ofSegments, parse_eq_ofSegments]
  refine ofSegments_alike h (List.forall₂_iff_get.2 ⟨?_, fun _ _ _ => trivial⟩)
  simp only [List.length_map, List.length_dropLast, h.length_segments]

theorem SameRequests.parse_alike {f g : String} (h : SameRequests f g) :
    (parse f).Alike Eq (parse g) := by
  rw [parse_eq_ofSegments, parse_eq_ofSegments]
  refine ofSegments_alike h.1 ?_
  rw [List.forall₂_eq_eq_eq]
  exact h.2

end FieldPath

/-! ### Trees -/

/-- Two trees of the same shape and with the same conditions, whose fields are related. -/
inductive Expression.Alike (S : String → String → Prop) : Expression → Expression → Prop
  | leaf {f g : String} (c : Condition) : S f g → Alike S (.leaf f c) (.leaf g c)
  | compound (op : Connective) {es ds : List Expression} : List.Forall₂ (Alike S) es ds →
    Alike S (.compound op es) (.compound op ds)

/-- Induction over two trees that are alike: for compound nodes, the statement holds of the children
side by side. -/
@[elab_as_elim]
theorem Expression.Alike.induction {S : String → String → Prop}
    {P : Expression → Expression → Prop} {e d : Expression} (h : e.Alike S d)
    (leaf : ∀ f g c, S f g → P (.leaf f c) (.leaf g c))
    (compound : ∀ op es ds, List.Forall₂ P es ds → P (.compound op es) (.compound op ds)) :
    P e d :=
  @Expression.Alike.rec S (fun e d _ => P e d) (fun es ds _ => List.Forall₂ P es ds)
    (fun c hfg => leaf _ _ c hfg) (fun op _ _ _ hes => compound op _ _ hes) .nil
    (fun _ _ hed hes => .cons hed hes) e d h

/-- Trees that are alike are as deep as each other. -/
theorem Expression.Alike.depth_eq {S : String → String → Prop} {e d : Expression}
    (h : e.Alike S d) : e.depth = d.depth := by
  refine h.induction (fun f g c _ => rfl) fun op es ds hes => ?_
  rw [depth, depth, depthOfAll_congr hes]

/-! ### Plans -/

/-- Two requests over one association with one target, whose types are related. -/
structure JoinRequest.Alike (R : JoinType → JoinType → Prop) (j k : JoinRequest) : Prop where
  key : j.key = k.key
  target : j.target = k.target
  type : R j.type k.type

/-- Two joins with one id, made for requests that are alike. -/
structure Join.Alike (R : JoinType → JoinType → Prop) (j k : Join) : Prop where
  request : j.toJoinRequest.Alike R k.toJoinRequest
  id : j.id = k.id

/-- Two plans that differ in the types of their joins only, which are related. -/
structure JoinPlan.Alike (R : JoinType → JoinType → Prop) (p q : JoinPlan) : Prop where
  root : p.root = q.root
  primaryKey : p.primaryKey = q.primaryKey
  joins : List.Forall₂ (Join.Alike R) p.joins q.joins
  index : p.index = q.index
  distinct : p.distinct = q.distinct

namespace JoinPlan

variable {R : JoinType → JoinType → Prop} {p q : JoinPlan}

theorem alike_start (R : JoinType → JoinType → Prop) (root : String) (primaryKey : Option String) :
    (start root primaryKey).Alike R (start root primaryKey) :=
  ⟨rfl, rfl, .nil, rfl, rfl⟩

theorem Alike.requireDistinct (h : p.Alike R q) : p.requireDistinct.Alike R q.requireDistinct :=
  ⟨h.root, h.primaryKey, h.joins, h.index, rfl⟩

theorem Alike.add (h : p.Alike R q) {j k : JoinRequest} (hjk : j.Alike R k)
    (hp : p.index? j.key = none) (hq : q.index? k.key = none) :
    (p.add j hp).Alike R (q.add k hq) where
  root := h.root
  primaryKey := h.primaryKey
  joins := List.rel_append h.joins (.cons ⟨hjk, h.joins.length_eq⟩ .nil)
  index := by
    have hlength : p.joins.length = q.joins.length := h.joins.length_eq
    simp only [JoinPlan.add, hjk.key, hlength, h.index]
  distinct := h.distinct

/-- An association is found at the same place in both plans, or it is joined in both. -/
theorem Alike.join (h : p.Alike R q) {j k : JoinRequest} (hjk : j.Alike R k) :
    (p.join j).1 = (q.join k).1 ∧ (p.join j).2.2.Alike R (q.join k).2.2 := by
  have hindex : p.index? j.key = q.index? k.key := by
    rw [index?, index?, h.index, hjk.key]
  cases hq : q.index? k.key with
  | some i =>
    have hp := hindex.trans hq
    rw [join_of_index?_some hp, join_of_index?_some hq]
    exact ⟨rfl, h⟩
  | none =>
    have hp := hindex.trans hq
    rw [join_of_index?_none hp, join_of_index?_none hq]
    exact ⟨h.joins.length_eq, h.add hjk hp hq⟩

theorem Alike.visit (h : p.Alike R q) (many : Bool) {j k : JoinRequest} (hjk : j.Alike R k) :
    (p.visit many j).1 = (q.visit many k).1 ∧ (p.visit many j).2.Alike R (q.visit many k).2 := by
  refine Alike.join ?_ hjk
  cases many with
  | false => exact h
  | true => exact h.requireDistinct

/-- Plans that do not differ in the types of their joins either are the same. -/
theorem Alike.eq (h : p.Alike Eq q) : p = q := by
  obtain ⟨hroot, hprimaryKey, hjoins, hindex, hdistinct⟩ := h
  have hsame : ∀ j k, Join.Alike Eq j k → j = k := by
    rintro ⟨⟨key, target, type⟩, id⟩ ⟨⟨_, _, _⟩, _⟩ ⟨⟨rfl, rfl, rfl⟩, rfl⟩
    rfl
  have heq : p.joins = q.joins := List.forall₂_eq_eq_eq ▸ hjoins.imp hsame
  cases p
  cases q
  simp_all only

end JoinPlan

/-! ### Results -/

/-- Two compilations with the same result, or with errors of the same code, whose plans differ in
the types of joins only. -/
structure Compiled.Alike {α : Type} (R : JoinType → JoinType → Prop) (r s : Compiled α) :
    Prop where
  result : r.1.mapError CompileError.code = s.1.mapError CompileError.code
  plan : r.2.Alike R s.2

theorem Compiled.Alike.ok {α : Type} {R : JoinType → JoinType → Prop} {r s : Compiled α}
    (h : Compiled.Alike R r s) {a : α} (hr : r.1 = .ok a) : s.1 = .ok a := by
  have hresult := h.result
  rw [hr] at hresult
  cases hs : s.1 with
  | error e =>
    rw [hs] at hresult
    cases hresult
  | ok b =>
    rw [hs] at hresult
    rw [Except.ok.inj hresult]

theorem Compiled.Alike.error {α : Type} {R : JoinType → JoinType → Prop} {r s : Compiled α}
    (h : Compiled.Alike R r s) {e : CompileError} (hr : r.1 = .error e) :
    ∃ e', s.1 = .error e' ∧ e'.code = e.code := by
  have hresult := h.result
  rw [hr] at hresult
  cases hs : s.1 with
  | error e' =>
    rw [hs] at hresult
    exact ⟨e', rfl, (Except.error.inj hresult).symm⟩
  | ok b =>
    rw [hs] at hresult
    cases hresult

/-- What is made of results that agree agrees. -/
theorem Compiled.Alike.map {α β : Type} {R : JoinType → JoinType → Prop} {r s : Compiled α}
    (h : Compiled.Alike R r s) (f : α → β) :
    Compiled.Alike R (r.1.map f, r.2) (s.1.map f, s.2) := by
  refine ⟨?_, h.plan⟩
  dsimp only
  cases hr : r.1 with
  | ok a => rw [h.ok hr]
  | error e =>
    obtain ⟨e', hs, hcode⟩ := h.error hr
    rw [hs]
    exact congrArg Except.error hcode.symm

/-! ### Walks -/

section

variable {σ : Type} (field field' : String)

theorem code_convertOperand (type : ColumnType) (raw : Json) :
    (convertOperand field type raw).mapError CompileError.code =
      (convertOperand field' type raw).mapError CompileError.code := by
  unfold convertOperand
  cases Value.ofOperand? raw type <;> rfl

theorem code_convertOperands (type : ColumnType) (raws : List Json) :
    (convertOperands field type raws).mapError CompileError.code =
      (convertOperands field' type raws).mapError CompileError.code := by
  induction raws with
  | nil => rfl
  | cons raw raws ih =>
    exact Except.mapError_bind_congr (code_convertOperand field field' type raw) fun v =>
      Except.mapError_bind_congr ih fun vs => rfl

theorem code_singleTest (column : Column σ) (type : ColumnType) (op : SingleOperator)
    (raw : Json.Scalar) (value : Value) :
    (singleTest field column type op raw value).mapError CompileError.code =
      (singleTest field' column type op raw value).mapError CompileError.code := by
  rcases op with c | _ | ⟨anchor, ignoreCase⟩
  · cases c <;> simp only [singleTest] <;> split <;> rfl
  · simp only [singleTest]
    split <;> rfl
  · rfl

/-- What a condition gives does not depend on how its field is written, but for what the errors
say. -/
theorem code_endPredicate (column : Column σ) (kind : AttributeKind) (c : Condition) :
    (endPredicate field column kind c).mapError CompileError.code =
      (endPredicate field' column kind c).mapError CompileError.code := by
  cases kind with
  | basic type =>
    cases c with
    | single op raw =>
      exact Except.mapError_bind_congr (code_convertOperand field field' type _) fun value =>
        Except.mapError_bind_congr (code_singleTest field field' column type op raw value)
          fun t => rfl
    | list op raws =>
      exact Except.mapError_bind_congr (code_convertOperands field field' type _) fun values => rfl
  | embedded schema => rfl
  | association target collection =>
    cases collection with
    | true => rfl
    | false =>
      simp only [endPredicate]
      split <;> rfl

end

/-- Walks along paths that are alike, in plans that are alike. -/
theorem walk_alike (C : Catalog τ) (field field' : String) (c : Condition)
    {R : JoinType → JoinType → Prop} {path path' : FieldPath} (h : path.Alike R path') {type : τ}
    {source : Source} {inner : List String} {p q : JoinPlan} (hpq : p.Alike R q) :
    Compiled.Alike R (walk C field c path type source inner p)
      (walk C field' c path' type source inner q) := by
  induction h generalizing type source inner p q with
  | broken text text' => exact ⟨rfl, hpq⟩
  | last name =>
    rw [walk, walk]
    cases C.attribute? type name with
    | none => exact ⟨rfl, hpq⟩
    | some a => exact ⟨code_endPredicate field field' _ a.kind c, hpq⟩
  | @step join join' rest rest' name hjoin _ ih =>
    rw [walk, walk]
    cases C.attribute? type name with
    | none => exact ⟨rfl, hpq⟩
    | some a =>
      dsimp only
      cases a.kind with
      | basic t => exact ⟨rfl, hpq⟩
      | embedded schema =>
        cases C.embedded? type a with
        | none => exact ⟨rfl, hpq⟩
        | some sub => exact ih hpq
      | association target collection =>
        cases C.target? type a with
        | none =>
          cases collection with
          | false => exact ⟨rfl, hpq⟩
          | true => exact ⟨rfl, hpq.requireDistinct⟩
        | some next =>
          let key : AssociationKey := ⟨source, C.typeName type, inner ++ [a.name]⟩
          let made (type : JoinType) : JoinRequest := ⟨key, C.typeName next, type⟩
          have hmade : (made join).Alike R (made join') := ⟨rfl, rfl, hjoin⟩
          obtain ⟨hindex, hplans⟩ := hpq.visit collection hmade
          -- both walks go on from the same join
          change Compiled.Alike R
            (walk C field c rest next (.joined (p.visit collection (made join)).1) []
              (p.visit collection (made join)).2)
            (walk C field' c rest' next (.joined (q.visit collection (made join')).1) []
              (q.visit collection (made join')).2)
          rw [hindex]
          exact ih hplans

/-! ### Filters -/

section

variable (C : Catalog τ) (config : Config) (root : τ) {R : JoinType → JoinType → Prop}
  {S : String → String → Prop}

theorem code_overLimit? (c : Condition) {f g : String} (h : FieldPath.SameNames f g) :
    (overLimit? config f c).map CompileError.code =
      (overLimit? config g c).map CompileError.code := by
  have hsegments : FieldPath.countSegments f.toList = FieldPath.countSegments g.toList := by
    rw [FieldPath.countSegments_eq_length, FieldPath.countSegments_eq_length]
    exact h.length_segments
  unfold overLimit? overLimit?.segmentLimit
  rw [hsegments]
  cases c with
  | single op v =>
    dsimp only
    split <;> rfl
  | list op vs =>
    dsimp only
    split
    · rfl
    · split <;> rfl

theorem compileLeaf_alike (c : Condition) {f g : String} (hnames : FieldPath.SameNames f g)
    (hpath : (FieldPath.parse f).Alike R (FieldPath.parse g)) {p q : JoinPlan}
    (hpq : p.Alike R q) :
    Compiled.Alike R (compileLeaf C config root f c p) (compileLeaf C config root g c q) := by
  have hlimit := code_overLimit? config c hnames
  rw [compileLeaf_eq, compileLeaf_eq]
  cases hf : overLimit? config f c with
  | some e =>
    rw [hf, Option.map_some, eq_comm, Option.map_eq_some_iff] at hlimit
    obtain ⟨e', hg, hcode⟩ := hlimit
    rw [hg]
    exact ⟨congrArg Except.error hcode.symm, hpq⟩
  | none =>
    rw [hf, Option.map_none, eq_comm, Option.map_eq_none_iff] at hlimit
    rw [hlimit]
    exact walk_alike C f g c hpath hpq

variable {C config root}

/-- Lists of expressions that compile alike one by one compile alike. -/
theorem compileAll_alike_of {es ds : List Expression}
    (h : List.Forall₂ (fun e d => ∀ p q : JoinPlan, p.Alike R q →
      Compiled.Alike R (compileExpression C config root e p) (compileExpression C config root d q))
      es ds) {p q : JoinPlan} (hpq : p.Alike R q) :
    Compiled.Alike R (compileAll C config root es p) (compileAll C config root ds q) := by
  induction h generalizing p q with
  | nil => exact ⟨rfl, hpq⟩
  | @cons e d es ds hed _ ih =>
    have hfirst := hed p q hpq
    cases he : compileExpression C config root e p with
    | mk r p' =>
      rw [he] at hfirst
      cases r with
      | error err =>
        -- neither side looks at the rest
        obtain ⟨err', herr', hcode⟩ := hfirst.error rfl
        rw [compileAll_cons_of_error he, compileAll_cons_of_error (Prod.ext herr' rfl)]
        exact ⟨congrArg Except.error hcode.symm, hfirst.plan⟩
      | ok a =>
        rw [compileAll_cons_of_ok he, compileAll_cons_of_ok (Prod.ext (hfirst.ok rfl) rfl)]
        exact (ih hfirst.plan).map (a :: ·)

/-- Trees that are alike pass the same checks of their depth. -/
theorem checkDepth_alike {es ds : List Expression} (h : List.Forall₂ (Expression.Alike S) es ds) :
    checkDepth config es = checkDepth config ds := by
  induction h with
  | nil => rfl
  | cons hed _ ih => rw [checkDepth, checkDepth, hed.depth_eq, ih]

variable (hleaf : ∀ f g c, S f g → ∀ p q : JoinPlan, p.Alike R q →
  Compiled.Alike R (compileLeaf C config root f c p) (compileLeaf C config root g c q))

include hleaf

theorem compileExpression_alike {e d : Expression} (h : e.Alike S d) :
    ∀ p q : JoinPlan, p.Alike R q → Compiled.Alike R (compileExpression C config root e p)
      (compileExpression C config root d q) := by
  refine h.induction hleaf fun op es ds hes p q hpq => ?_
  rw [compileExpression_compound, compileExpression_compound]
  exact (compileAll_alike_of hes hpq).map (Predicate.compound op)

/-- What leaves have in common that are alike, filters have in common that are alike. -/
theorem compileFilter_alike {es ds : List Expression}
    (h : List.Forall₂ (Expression.Alike S) es ds) {p q : JoinPlan} (hpq : p.Alike R q) :
    Compiled.Alike R (compileFilter C config root es p) (compileFilter C config root ds q) := by
  have hdepth : checkDepth config es = checkDepth config ds := checkDepth_alike h
  cases hd : checkDepth config ds with
  | error e =>
    rw [compileFilter_of_checkDepth_error (hdepth.trans hd), compileFilter_of_checkDepth_error hd]
    exact ⟨rfl, hpq⟩
  | ok =>
    rw [compileFilter_of_checkDepth (hdepth.trans hd), compileFilter_of_checkDepth hd]
    have hall := h.imp fun e d hed => compileExpression_alike hleaf hed
    exact (compileAll_alike_of hall hpq).map Predicate.conjunction

end

/-- **Markers and join types.** Filters that differ in the markers of their paths only are accepted
alike, and errors have the same code. The queries have the same predicate, the same need for
duplicate elimination, and joins over the same associations to the same targets, in the same order.
When the markers ask for the same join types, too, the queries are the same. -/
theorem compileQuery_markers (C : Catalog τ) (config : Config) (root : τ)
    (projection : Projection) {es ds : List Expression}
    (h : List.Forall₂ (Expression.Alike FieldPath.SameNames) es ds) :
    (∀ e, compileQuery C config root projection es = .error e →
      ∃ e', compileQuery C config root projection ds = .error e' ∧ e'.code = e.code) ∧
    ∀ q, compileQuery C config root projection es = .ok q →
      ∃ q', compileQuery C config root projection ds = .ok q' ∧
        q'.predicate = q.predicate ∧ q'.isDistinct = q.isDistinct ∧
        q'.projection = q.projection ∧ q'.plan.root = q.plan.root ∧
        q'.plan.primaryKey = q.plan.primaryKey ∧
        List.Forall₂ (fun j j' => j' = { j with type := j'.type }) q.plan.joins q'.plan.joins ∧
        (List.Forall₂ (Expression.Alike FieldPath.SameRequests) es ds → q' = q) := by
  let start := JoinPlan.start (C.typeName root) (C.primaryKey? root)
  let compile (es : List Expression) := compileFilter C config root es start
  have halike : Compiled.Alike (fun _ _ => True) (compile es) (compile ds) :=
    compileFilter_alike (fun f g c hfg _ _ => compileLeaf_alike C config root c hfg hfg.parse_alike)
      h (JoinPlan.alike_start _ _ _)
  rw [compileQuery_eq, compileQuery_eq]
  constructor
  · intro e he
    obtain ⟨e', he', hcode⟩ := halike.error (Except.map_eq_error_iff.1 he)
    exact ⟨e', Except.map_eq_error_iff.2 he', hcode⟩
  · intro q hq
    obtain ⟨p, hp, rfl⟩ := Except.map_eq_ok_iff.1 hq
    have hplan := halike.plan
    refine ⟨_, Except.map_eq_ok_iff.2 ⟨p, halike.ok hp, rfl⟩, rfl, hplan.distinct.symm, rfl,
      hplan.root.symm, hplan.primaryKey.symm, ?_, fun hsame => ?_⟩
    · refine hplan.joins.imp ?_
      rintro ⟨⟨key, target, type⟩, id⟩ ⟨⟨_, _, type'⟩, _⟩ ⟨⟨rfl, rfl, -⟩, rfl⟩
      rfl
    · have hequal : Compiled.Alike Eq (compile es) (compile ds) :=
        compileFilter_alike
          (fun f g c hfg _ _ => compileLeaf_alike C config root c hfg.1 hfg.parse_alike) hsame
          (JoinPlan.alike_start _ _ _)
      rw [hequal.plan.eq]

/-- Two filters with other markers give the same predicate over other types of joins. In another
spelling of the markers the query is the very same. -/
theorem compileQuery_markers_staff :
    let isNull (field : String) := Expression.leaf field (.single (.compare .equal) .null)
    let filter (first second : String) := [Expression.compound .or [isNull first, isNull second]]
    let compile := compileQuery Registry.staff.catalog {} .employee .rows
    ∃ q q', compile (filter "<department.name" "department.>staff.department?.name") = .ok q ∧
      compile (filter ">department.name" "department?.staff.<>department.name") = .ok q' ∧
      q'.predicate = q.predicate ∧ q.plan.joins.map (·.type) = [.left, .right, .left] ∧
      q'.plan.joins.map (·.type) = [.right, .inner, .left] ∧
      compile (filter "department?.name" "department.>>staff.<>department?.name") = .ok q := by
  intro isNull filter compile
  have halike {S : String → String → Prop} {f f' g g' : String} (hf : S f f') (hg : S g g') :
      List.Forall₂ (Expression.Alike S) (filter f g) (filter f' g') :=
    .cons (.compound .or (.cons (.leaf _ hf) (.cons (.leaf _ hg) .nil))) .nil
  have hfirst : FieldPath.SameNames "<department.name" ">department.name" := by decide +kernel
  have hsecond : FieldPath.SameNames "department.>staff.department?.name"
      "department?.staff.<>department.name" := by decide +kernel
  have hfirst' : FieldPath.SameRequests "<department.name" "department?.name" := by
    decide +kernel
  have hsecond' : FieldPath.SameRequests "department.>staff.department?.name"
      "department.>>staff.<>department?.name" := by decide +kernel
  obtain ⟨q, hq⟩ : ∃ q, compile (filter "<department.name" "department.>staff.department?.name") =
      .ok q := Except.exists_ok_of_isOk (by decide +kernel)
  obtain ⟨-, hother⟩ := compileQuery_markers Registry.staff.catalog {} .employee .rows
    (halike hfirst hsecond)
  obtain ⟨q', hq', hpredicate, -⟩ := hother q hq
  obtain ⟨-, hspelled⟩ := compileQuery_markers Registry.staff.catalog {} .employee .rows
    (halike hfirst'.1 hsecond'.1)
  obtain ⟨q'', hq'', -, -, -, -, -, -, hsame⟩ := hspelled q hq
  refine ⟨q, q', hq, hq', hpredicate, ?_, ?_, ?_⟩
  · apply Except.eq_of_toOption_map (·.plan.joins.map (·.type)) hq
    decide +kernel
  · apply Except.eq_of_toOption_map (·.plan.joins.map (·.type)) hq'
    decide +kernel
  · rw [← hsame (halike hfirst' hsecond')]
    exact hq''

end QueryFilter
