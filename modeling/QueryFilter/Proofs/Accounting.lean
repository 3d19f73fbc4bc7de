import Mathlib.Algebra.GroupWithZero.Nat
import QueryFilter.Proofs.Expression
import QueryFilter.Proofs.Walk
import QueryFilter.Query.Report

/-!
# What the counters say

Any number of compilers may count into one set of counters. The joins are counted while paths are
walked, apart from the plan, and the need for duplicate elimination by comparing the plan before and
after. After any sequence of calls the counters say what the calls gave.

* `length_joins_compileFilter`: the joins that are counted are those by which the plan has grown.
* `Call.metrics_report`: what one call adds to the counters.
* `Call.run_accounts`: what a sequence of calls leaves in counters that started at zero.
-/

namespace QueryFilter

open Expression

/-! ### Joins that are counted -/

section

variable {τ : Type}

/-- A join that is made is one more. -/
theorem JoinPlan.length_joins_join (p : JoinPlan) (j : JoinRequest) :
    (p.join j).2.2.joins.length = p.joins.length + (p.join j).2.1.toNat := by
  cases h : p.index? j.key with
  | some i => rw [join_of_index?_some h, Bool.toNat_false, Nat.add_zero]
  | none =>
    rw [join_of_index?_none h, add, List.length_append, Bool.toNat_true, List.length_singleton]

/-- A walk counts the joins by which it lets the plan grow, even if it fails. -/
theorem length_joins_walk (C : Catalog τ) (field : String) (c : Condition) (path : FieldPath)
    (type : τ) (source : Source) (inner : List String) (plan : JoinPlan) :
    (walk C field c path type source inner plan).2.joins.length =
      plan.joins.length + joinsOfWalk C path type source inner plan := by
  induction path generalizing type source inner plan with
  | broken text => rfl
  | last name =>
    rw [walk]
    split <;> rfl
  | step name join rest ih =>
    rw [walk, joinsOfWalk]
    cases ha : C.attribute? type name with
    | none => rfl
    | some a =>
      dsimp only
      cases hk : a.kind with
      | basic t => rfl
      | embedded schema =>
        dsimp only
        cases he : C.embedded? type a with
        | none => rfl
        | some sub => exact ih sub source _ plan
      | association target collection =>
        dsimp only
        cases ht : C.target? type a with
        | none =>
          dsimp only
          rw [JoinPlan.joins_ite_requireDistinct, Nat.add_zero]
        | some next =>
          dsimp only
          rw [ih, JoinPlan.length_joins_join, JoinPlan.joins_ite_requireDistinct, Nat.add_assoc]

variable {C : Catalog τ} {config : Config} {root : τ}

/-- A leaf that compiles has been walked, so the joins it makes have been counted. -/
theorem length_joins_compileLeaf {field : String} {c : Condition} {p : Predicate}
    {plan : JoinPlan} (h : (compileLeaf C config root field c plan).1 = .ok p) :
    (compileLeaf C config root field c plan).2.joins.length =
      plan.joins.length + joinsOfWalk C (FieldPath.parse field) root .root [] plan := by
  rw [compileLeaf_eq] at h ⊢
  cases hlimit : overLimit? config field c with
  | some e =>
    rw [hlimit] at h
    cases h
  | none => exact length_joins_walk ..

/-- The plan that leaves leave behind which are compiled one after the other. -/
def planAfter (C : Catalog τ) (config : Config) (root : τ) (ls : List (String × Condition))
    (plan : JoinPlan) : JoinPlan :=
  ls.foldl (fun p l => (compileLeaf C config root l.1 l.2 p).2) plan

theorem joinsOfLeaves_append (ks ls : List (String × Condition)) (plan : JoinPlan) :
    joinsOfLeaves C config root (ks ++ ls) plan =
      joinsOfLeaves C config root ks plan +
        joinsOfLeaves C config root ls (planAfter C config root ks plan) := by
  induction ks generalizing plan with
  | nil => rw [List.nil_append, joinsOfLeaves, planAfter, List.foldl_nil, Nat.zero_add]
  | cons k ks ih =>
    rw [List.cons_append, joinsOfLeaves, joinsOfLeaves, ih, planAfter, planAfter, List.foldl_cons,
      Nat.add_assoc]

/-- Leaves that lead from one plan to another, and the joins that are counted on the way. -/
structure JoinPlan.Counts (C : Catalog τ) (config : Config) (root : τ)
    (ls : List (String × Condition)) (p q : JoinPlan) : Prop where
  plan : q = planAfter C config root ls p
  joins : q.joins.length = p.joins.length + joinsOfLeaves C config root ls p

theorem JoinPlan.Counts.append {ks ls : List (String × Condition)} {p q r : JoinPlan}
    (h : Counts C config root ks p q) (h' : Counts C config root ls q r) :
    Counts C config root (ks ++ ls) p r where
  plan := by rw [h'.plan, h.plan, planAfter, planAfter, planAfter, List.foldl_append]
  joins := by rw [h'.joins, h.joins, joinsOfLeaves_append, ← h.plan, Nat.add_assoc]

/-- Expressions count when each of them does. -/
theorem counts_compileAll_of {es : List Expression}
    (hes : ∀ e ∈ es, ∀ {p plan q}, compileExpression C config root e plan = (.ok p, q) →
      plan.Counts C config root e.leaves q)
    {ps : List Predicate} {plan q : JoinPlan}
    (h : compileAll C config root es plan = (.ok ps, q)) :
    plan.Counts C config root (leavesOfAll es) q := by
  induction es generalizing ps plan with
  | nil =>
    cases h
    exact ⟨rfl, rfl⟩
  | cons e es ih =>
    cases hc : compileExpression C config root e plan with
    | mk r q' =>
      cases r with
      | error err =>
        rw [compileAll_cons_of_error hc] at h
        cases h
      | ok p =>
        rw [compileAll_cons_of_ok hc] at h
        obtain ⟨hps, hq⟩ := Prod.mk.inj h
        obtain ⟨qs, hqs, -⟩ := Except.map_eq_ok_iff.1 hps
        have hrest := ih (fun d hd => hes d (List.mem_cons_of_mem e hd)) (Prod.ext hqs hq)
        exact (hes e List.mem_cons_self hc).append hrest

theorem counts_compileExpression {e : Expression} {p : Predicate} {plan q : JoinPlan}
    (h : compileExpression C config root e plan = (.ok p, q)) :
    plan.Counts C config root e.leaves q := by
  induction e generalizing p plan q with
  | leaf field c =>
    rw [compileExpression] at h
    have hjoins := length_joins_compileLeaf (congrArg Prod.fst h)
    rw [h] at hjoins
    refine ⟨?_, hjoins⟩
    rw [leaves, planAfter, List.foldl_cons, List.foldl_nil, h]
  | compound op es ih =>
    rw [compileExpression_compound] at h
    obtain ⟨hps, hq⟩ := Prod.mk.inj h
    obtain ⟨ps, hps, -⟩ := Except.map_eq_ok_iff.1 hps
    rw [leaves]
    exact counts_compileAll_of ih (Prod.ext hps hq)

/-- **Joins are counted once each.** A filter that compiles counts as many joins as its plan has
more than before. -/
theorem length_joins_compileFilter {es : List Expression} {p : Predicate} {plan q : JoinPlan}
    (h : compileFilter C config root es plan = (.ok p, q)) :
    q.joins.length =
      plan.joins.length + joinsOfLeaves C config root (leavesOfAll es) plan := by
  cases hd : checkDepth config es with
  | error e =>
    rw [compileFilter_of_checkDepth_error hd] at h
    cases h
  | ok =>
    rw [compileFilter_of_checkDepth hd] at h
    obtain ⟨hps, hq⟩ := Prod.mk.inj h
    obtain ⟨ps, hps, -⟩ := Except.map_eq_ok_iff.1 hps
    exact (counts_compileAll_of (fun e _ => counts_compileExpression) (Prod.ext hps hq)).joins

end

/-! ### Calls -/

/-- What a compiler is asked for: a query for expressions, or one for a document. -/
inductive Request
  | expressions (projection : Projection) (es : List Expression)
  | document (d : Document)

/-- A call of a compiler. Each call has the limits of its compiler, and a catalogue and a root type
of its own. -/
structure Call where
  Root : Type
  catalog : Catalog Root
  config : Config
  root : Root
  request : Request

namespace Call

/-- What is compiled, if it can be decoded. -/
def decoded (c : Call) : Except ExpressionError (Projection × List Expression) :=
  match c.request with
  | .expressions projection es => .ok (projection, es)
  | .document d => d.expressions.map (Prod.mk .rows)

/-- What a call gives, whatever is counted. -/
def answer (c : Call) : Except Error Query :=
  match c.decoded with
  | .error e => .error (.expression e)
  | .ok (projection, es) =>
    (compileQuery c.catalog c.config c.root projection es).mapError .compile

/-- A call with what it leaves in the counters and in the log. -/
def report (c : Call) (m : Metrics) : Report (Except Error Query) :=
  match c.request with
  | .expressions projection es =>
    let r := Report.compileQuery c.catalog c.config c.root projection es m
    { r with result := r.result.mapError .compile }
  | .document d => Report.compileDocument c.catalog c.config c.root d m

/-- Calls one after the other: what they give, and the counters at the end. -/
def run : List Call → Metrics → List (Except Error Query) × Metrics
  | [], m => ([], m)
  | c :: cs, m =>
    let r := c.report m
    let (answers, m) := run cs r.metrics
    (r.result :: answers, m)

/-- Whether a call is one with a document that can be decoded. -/
def decodesDocument (c : Call) : Bool :=
  match c.request with
  | .expressions _ _ => false
  | .document d => d.expressions.isOk

end Call

/-- Whether an answer is an error of compiling, and not one of decoding. -/
def isRejection : Except Error Query → Bool
  | .error (.compile _) => true
  | _ => false

/-- The queries among answers. -/
def queriesOf (answers : List (Except Error Query)) : List Query :=
  answers.filterMap Except.toOption

@[simp] theorem queriesOf_ok (q : Query) : queriesOf [.ok q] = [q] := rfl

@[simp] theorem queriesOf_error (e : Error) : queriesOf [.error e] = [] := rfl

/-! ### Counters after calls -/

/-- The counters as calls have to leave them, judged by what the calls give. -/
def Metrics.after (m : Metrics) (cs : List Call) : Metrics :=
  let answers := cs.map Call.answer
  { documentsDecoded := m.documentsDecoded + UInt64.ofNat (cs.countP Call.decodesDocument)
    compilations := m.compilations + UInt64.ofNat (answers.countP Except.isOk)
    rejections := m.rejections + UInt64.ofNat (answers.countP isRejection)
    joinsCreated := m.joinsCreated +
      UInt64.ofNat ((queriesOf answers).map (·.plan.joins.length)).sum
    distinctQueries := m.distinctQueries +
      UInt64.ofNat ((queriesOf answers).countP Query.isDistinct) }

theorem Metrics.after_nil (m : Metrics) : m.after [] = m := by
  simp [after, queriesOf]

theorem Metrics.after_append (m : Metrics) (cs ds : List Call) :
    m.after (cs ++ ds) = (m.after cs).after ds := by
  simp [after, queriesOf, UInt64.ofNat_add, UInt64.add_assoc]

/-- A compilation without a plan to start from counts the query that it gives, or a rejection. -/
theorem Report.metrics_compileQuery {τ : Type} (C : Catalog τ) (config : Config) (root : τ)
    (projection : Projection) (es : List Expression) (m : Metrics) :
    (compileQuery C config root projection es m).metrics =
      match QueryFilter.compileQuery C config root projection es with
      | .error _ => m.addRejection
      | .ok q =>
        let m := m.addCompilation.addJoins (UInt64.ofNat q.plan.joins.length)
        if q.isDistinct then m.addDistinct else m := by
  rw [compileQuery_eq]
  unfold compileQuery compileFilter
  dsimp only
  cases hc : QueryFilter.compileFilter C config root es
    (.start (C.typeName root) (C.primaryKey? root)) with
  | mk r q =>
    cases r with
    | error e => rfl
    | ok p =>
      -- the plan had no joins and no mark before
      have hjoins := (length_joins_compileFilter hc).trans (Nat.zero_add _)
      have hnew (name : String) (primaryKey : Option String) :
          (q.distinct && !(JoinPlan.start name primaryKey).distinct) = q.distinct := Bool.and_true _
      rw [count, ← hjoins, hnew]
      rfl

namespace Call

/-- A call whose document cannot be decoded gives the error and leaves the counters alone. -/
theorem report_of_decoded_error {c : Call} {e : ExpressionError} (h : c.decoded = .error e)
    (m : Metrics) : c.report m = ⟨.error (.expression e), m, []⟩ ∧ c.decodesDocument = false := by
  unfold decoded at h
  unfold report decodesDocument
  cases hr : c.request with
  | expressions projection es =>
    rw [hr] at h
    cases h
  | document d =>
    rw [hr] at h
    have hd : d.expressions = .error e := Except.map_eq_error_iff.1 h
    simp only [Report.compileDocument, hd]
    exact ⟨trivial, rfl⟩

/-- A call compiles what is decoded, after it has counted the document if there is one. -/
theorem report_of_decoded_ok {c : Call} {projection : Projection} {es : List Expression}
    (h : c.decoded = .ok (projection, es)) (m : Metrics) :
    let r := Report.compileQuery c.catalog c.config c.root projection es
      (if c.decodesDocument then m.addDecoded else m)
    (c.report m).result = r.result.mapError .compile ∧ (c.report m).metrics = r.metrics := by
  unfold decoded at h
  unfold report decodesDocument
  cases hr : c.request with
  | expressions projection' es' =>
    rw [hr] at h
    cases h
    exact ⟨rfl, rfl⟩
  | document d =>
    rw [hr] at h
    obtain ⟨es', hd, hes⟩ := Except.map_eq_ok_iff.1 h
    cases hes
    simp only [Report.compileDocument, hd]
    exact ⟨rfl, rfl⟩

/-- What a call gives does not depend on the counters. -/
theorem result_report (c : Call) (m : Metrics) : (c.report m).result = c.answer := by
  unfold answer
  cases h : c.decoded with
  | error e => rw [(report_of_decoded_error h m).1]
  | ok d =>
    dsimp only
    rw [(report_of_decoded_ok h m).1, compileQuery_eq]
    rfl

/-- One call leaves the counters as it has to. -/
theorem metrics_report (c : Call) (m : Metrics) : (c.report m).metrics = m.after [c] := by
  unfold Metrics.after
  rw [List.map_singleton]
  cases h : c.decoded with
  | error e =>
    obtain ⟨hr, hd⟩ := report_of_decoded_error h m
    have ha : c.answer = .error (.expression e) := by rw [answer, h]
    simp [hr, hd, ha, isRejection, Except.isOk, Except.toBool]
  | ok d =>
    obtain ⟨projection, es⟩ := d
    rw [(report_of_decoded_ok h m).2, Report.metrics_compileQuery]
    cases hq : compileQuery c.catalog c.config c.root projection es with
    | error e =>
      have ha : c.answer = .error (.compile e) := by simp only [answer, h, hq, Except.mapError]
      cases hd : c.decodesDocument <;>
        simp [ha, hd, isRejection, Except.isOk, Except.toBool, Metrics.addRejection,
          Metrics.addDecoded]
    | ok q =>
      have ha : c.answer = .ok q := by simp only [answer, h, hq, Except.mapError]
      cases hd : c.decodesDocument <;> cases hdistinct : q.isDistinct <;>
        simp [ha, hd, hdistinct, isRejection, Except.isOk, Except.toBool, Metrics.addCompilation,
          Metrics.addJoins, Metrics.addDistinct, Metrics.addDecoded]

/-- Any number of calls leave the counters as they have to, and counting does not change what they
give. -/
theorem run_eq (cs : List Call) (m : Metrics) : run cs m = (cs.map answer, m.after cs) := by
  induction cs generalizing m with
  | nil => rw [run, List.map_nil, Metrics.after_nil]
  | cons c cs ih =>
    rw [run, ih, result_report, metrics_report, List.map_cons, ← Metrics.after_append,
      List.singleton_append]

/-- The events that calls have to be counted for. -/
def events (cs : List Call) : Nat :=
  let answers := cs.map answer
  cs.countP decodesDocument + answers.countP Except.isOk + answers.countP isRejection +
    ((queriesOf answers).map (·.plan.joins.length)).sum +
    (queriesOf answers).countP Query.isDistinct

/-- **The counters account for every call.** After any sequence of calls, by any number of compilers
that count into counters which started at zero, these say how many calls gave a query, how many gave
an error of compiling, how many documents could be decoded, and over the queries that were given how
many joins they have and how many of them need duplicate elimination. A call whose document cannot
be decoded changes no counter. -/
theorem run_accounts (cs : List Call) (hevents : events cs < 2 ^ 64) :
    let answers := (run cs {}).1
    let m := (run cs {}).2
    answers = cs.map answer ∧
      m.compilations.toNat = answers.countP Except.isOk ∧
      m.rejections.toNat = answers.countP isRejection ∧
      m.documentsDecoded.toNat = cs.countP decodesDocument ∧
      m.joinsCreated.toNat = ((queriesOf answers).map (·.plan.joins.length)).sum ∧
      m.distinctQueries.toNat = (queriesOf answers).countP Query.isDistinct ∧
      ∀ c ∈ cs, ∀ e, c.decoded = .error e → ∀ m, (c.report m).metrics = m := by
  rw [run_eq, Metrics.after]
  rw [events] at hevents
  dsimp only at hevents ⊢
  have hzero (n : Nat) (hn : n < 2 ^ 64) : (0 + UInt64.ofNat n).toNat = n := by
    rw [UInt64.zero_add, UInt64.toNat_ofNat_of_lt' hn]
  refine ⟨rfl, hzero _ ?_, hzero _ ?_, hzero _ ?_, hzero _ ?_, hzero _ ?_,
    fun c _ e he m => ?_⟩
  iterate 5 omega
  rw [(report_of_decoded_error he m).1]

/-- Two compilers, one of which allows only short paths. The staff of the own department are two
joins away, in rows and in their number. The other compiler refuses the same filter. One document is
compiled, one is decoded and refused, and one cannot be decoded. -/
theorem run_accounts_staff :
    let colleague : Expression :=
      .leaf "department.staff.id" (.single (.compare .equal) (.string "7"))
    let number (v : Json) : Document := ⟨[("id", v)]⟩
    let ask (config : Config) (request : Request) : Call :=
      ⟨Entity, Registry.staff.catalog, config, .employee, request⟩
    let short : Config := { maxPathSegments := 2 }
    let calls : List Call :=
      [ask {} (.expressions .rows [colleague]), ask short (.expressions .rows [colleague]),
        ask {} (.expressions .count [colleague]), ask short (.document (number (.scalar .null))),
        ask {} (.document ⟨[("salary", .scalar .null)]⟩),
        ask short (.document (number (.object [])))]
    let m := (run calls {}).2
    events calls < 2 ^ 64 ∧ m.compilations.toNat = 3 ∧ m.rejections.toNat = 2 ∧
      m.documentsDecoded.toNat = 2 ∧ m.joinsCreated.toNat = 4 ∧ m.distinctQueries.toNat = 2 := by
  intro colleague number ask short calls m
  have hevents : events calls < 2 ^ 64 := by decide +kernel
  obtain ⟨-, hcompiled, hrejected, hdecoded, hjoins, hdistinct, -⟩ := run_accounts calls hevents
  refine ⟨hevents, hcompiled.trans ?_, hrejected.trans ?_, hdecoded.trans ?_, hjoins.trans ?_,
    hdistinct.trans ?_⟩
  all_goals decide +kernel

end Call

end QueryFilter
