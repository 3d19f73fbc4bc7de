import QueryFilter.Proofs.Tokens

/-!
# The condition of a query as a formula

The tokens after `WHERE` are read with the usual precedence: `NOT` binds tightest, then `AND`, then
`OR`, and parentheses group. They have one reading, and it is true where the predicate is.

* `Predicate.holds` and `Formula.holds`: the truth value when each test has one;
* `Reads`: the grammar of the tokens;
* `Reads.unique`: tokens have at most one reading, since a reader from left to right with a stack
  comes to every reading;
* `readable`: the tokens of a predicate have a reading with its truth value;
* `Token.text` and `toText_reads`: how tokens are written, and what the text of a query is.
-/

namespace QueryFilter

/-! ### Truth values -/

/-- The truth value of several joined by a connective. -/
def Connective.apply : Connective → List Bool → Bool
  | and, bs => bs.all id
  | or, bs => bs.any id

/-- The first two of several may be joined first. -/
theorem Connective.apply_cons_cons (op : Connective) (a b : Bool) (bs : List Bool) :
    op.apply (op.apply [a, b] :: bs) = op.apply (a :: b :: bs) := by
  cases op
  · simp [apply, Bool.and_assoc]
  · simp [apply, Bool.or_assoc]

namespace Predicate

variable {σ : Type}

mutual

/-- The truth value of a predicate when each test has one. -/
def holds (v : Test σ → Bool) : Predicate σ → Bool
  | always => true
  | test t => v t
  | not p => !p.holds v
  | compound op ps => op.apply (holdsOfAll v ps)

/-- The truth values of a list of predicates. -/
def holdsOfAll (v : Test σ → Bool) : List (Predicate σ) → List Bool
  | [] => []
  | p :: ps => p.holds v :: holdsOfAll v ps

end

theorem holdsOfAll_eq_map (v : Test σ → Bool) (ps : List (Predicate σ)) :
    holdsOfAll v ps = ps.map (holds v) := by
  induction ps with
  | nil => rfl
  | cons p ps ih => rw [holdsOfAll, ih, List.map_cons]

theorem holds_compound (v : Test σ → Bool) (op : Connective) (ps : List (Predicate σ)) :
    (compound op ps).holds v = op.apply (ps.map (holds v)) := by
  rw [holds, holdsOfAll_eq_map]

end Predicate

namespace Sql

/-- A formula over the atoms of a condition. -/
inductive Formula
  | atom (a : Atom)
  | not (f : Formula)
  | binary (op : Connective) (f g : Formula)
  deriving DecidableEq, Repr

/-- The truth value of an atom. `NOT IN` is the negation of `IN`. -/
def Atom.holds (v : Test → Bool) : Atom → Bool
  | constant b => b
  | test t => v t
  | noneOf c vs => !v (.oneOf c vs)

namespace Formula

/-- The truth value of a formula. -/
def holds (v : Test → Bool) : Formula → Bool
  | atom a => a.holds v
  | not f => !f.holds v
  | binary op f g => op.apply [f.holds v, g.holds v]

/-- Formulas joined from left to right have the truth value of all of them joined. -/
theorem holds_foldl_binary (v : Test → Bool) (op : Connective) (f : Formula) (gs : List Formula) :
    (gs.foldl (binary op) f).holds v = op.apply (f.holds v :: gs.map (holds v)) := by
  induction gs generalizing f with
  | nil => cases op <;> simp [Connective.apply]
  | cons g gs ih => rw [List.foldl_cons, ih, List.map_cons, holds, Connective.apply_cons_cons]

end Formula

/-! ### The grammar -/

/-- What a phrase may be: one operand, or operands joined by `AND`, or those joined by `OR`. -/
inductive Rank
  | operand
  | conjunction
  | disjunction

/-- Tokens read as a formula with the usual precedence. -/
inductive Reads : Rank → List Token → Formula → Prop
  | atom (a : Atom) : Reads .operand [.atom a] (.atom a)
  | not {ts : List Token} {f : Formula} (h : Reads .operand ts f) :
    Reads .operand (.not :: ts) (.not f)
  | group {ts : List Token} {f : Formula} (h : Reads .disjunction ts f) :
    Reads .operand (enclose ts) f
  | operand {ts : List Token} {f : Formula} (h : Reads .operand ts f) : Reads .conjunction ts f
  | and {ts us : List Token} {f g : Formula} (hf : Reads .conjunction ts f)
    (hg : Reads .operand us g) :
    Reads .conjunction (ts ++ .connective .and :: us) (.binary .and f g)
  | conjunction {ts : List Token} {f : Formula} (h : Reads .conjunction ts f) :
    Reads .disjunction ts f
  | or {ts us : List Token} {f g : Formula} (hf : Reads .disjunction ts f)
    (hg : Reads .conjunction us g) :
    Reads .disjunction (ts ++ .connective .or :: us) (.binary .or f g)

/-! ### Tokens have one reading -/

namespace Formula

/-- A formula under a number of negations. -/
def negate : Nat → Formula → Formula
  | 0, f => f
  | n + 1, f => negate n f.not

/-- A formula behind the one that it is joined to, if there is one. -/
def after (op : Connective) : Option Formula → Formula → Formula
  | none, g => g
  | some f, g => binary op f g

end Formula

/-- What a reader has behind it since the last open parenthesis, with an operand to come: the
disjunction and the conjunction that are not finished, and the negations of the operand. -/
structure Frame where
  disjuncts : Option Formula
  conjuncts : Option Formula
  negations : Nat

/-- The conjunction that an operand finishes for now. -/
def Frame.close (c : Frame) (f : Formula) : Formula :=
  Formula.after .and c.conjuncts (Formula.negate c.negations f)

/-- The state of a reader from left to right. It waits for an operand, or it has read one; below are
the frames of the parentheses that are open. -/
inductive Reader
  | waiting (frame : Frame) (outer : List Frame)
  | reading (disjuncts : Option Formula) (f : Formula) (outer : List Frame)

namespace Reader

/-- Read one token. -/
def step : Reader → Token → Option Reader
  | waiting c outer, .atom a => some (reading c.disjuncts (c.close (.atom a)) outer)
  | waiting c outer, .not => some (waiting { c with negations := c.negations + 1 } outer)
  | waiting c outer, .opening => some (waiting ⟨none, none, 0⟩ (c :: outer))
  | reading d f outer, .connective .and => some (waiting ⟨d, some f, 0⟩ outer)
  | reading d f outer, .connective .or => some (waiting ⟨some (.after .or d f), none, 0⟩ outer)
  | reading d f (c :: outer), .closing =>
    some (reading c.disjuncts (c.close (.after .or d f)) outer)
  | _, _ => none

/-- Read tokens. -/
def run (r : Reader) (ts : List Token) : Option Reader := ts.foldlM step r

@[simp] theorem run_nil (r : Reader) : r.run [] = some r := rfl

@[simp] theorem run_cons (r : Reader) (t : Token) (ts : List Token) :
    r.run (t :: ts) = (r.step t).bind fun r => r.run ts := List.foldlM_cons

@[simp] theorem run_append (r : Reader) (ts us : List Token) :
    r.run (ts ++ us) = (r.run ts).bind fun r => r.run us := List.foldlM_append

/-- What a reader does with a phrase of a rank in the place where one may stand. -/
def Follows : Rank → List Token → Formula → Prop
  | .operand, ts, f => ∀ c outer,
    (waiting c outer).run ts = some (reading c.disjuncts (c.close f) outer)
  | .conjunction, ts, f => ∀ d outer,
    (waiting ⟨d, none, 0⟩ outer).run ts = some (reading d f outer)
  | .disjunction, ts, f => ∃ d g, Formula.after .or d g = f ∧ ∀ outer,
    (waiting ⟨none, none, 0⟩ outer).run ts = some (reading d g outer)

end Reader

open Reader in
/-- The reader follows every reading that the grammar allows. -/
theorem Reads.follows {r : Rank} {ts : List Token} {f : Formula} (h : Reads r ts f) :
    Follows r ts f := by
  induction h with
  | atom a => exact fun c outer => rfl
  | not h ih => exact fun c outer => ih { c with negations := c.negations + 1 } outer
  | group h ih =>
    intro c outer
    obtain ⟨d, g, rfl, hrun⟩ := ih
    simp [enclose, step, hrun]
  | operand h ih => exact fun d outer => ih ⟨d, none, 0⟩ outer
  | @and ts us f g hf hg ihf ihg =>
    intro d outer
    have hus : (waiting ⟨d, some f, 0⟩ outer).run us =
        some (reading d (.binary .and f g) outer) := ihg _ outer
    simp [ihf d outer, step, hus]
  | @conjunction ts f h ih => exact ⟨none, f, rfl, ih none⟩
  | @or ts us f g hf hg ihf ihg =>
    obtain ⟨d, f', rfl, hrun⟩ := ihf
    refine ⟨some (.after .or d f'), g, rfl, fun outer => ?_⟩
    have hus := ihg (some (.after .or d f')) outer
    simp [hrun, step, hus]

/-- Tokens have at most one reading. -/
theorem Reads.unique {ts : List Token} {f g : Formula} (hf : Reads .disjunction ts f)
    (hg : Reads .disjunction ts g) : f = g := by
  obtain ⟨d, f', rfl, hrun⟩ := hf.follows
  obtain ⟨e, g', rfl, hrun'⟩ := hg.follows
  have heq := (hrun []).symm.trans (hrun' [])
  cases heq
  rfl

/-! ### The tokens of a predicate have a reading -/

/-- The rank of what a connective makes. -/
def rankOf : Connective → Rank
  | .and => .conjunction
  | .or => .disjunction

theorem Reads.ofOperand {ts : List Token} {f : Formula} (h : Reads .operand ts f) :
    ∀ op, Reads (rankOf op) ts f
  | .and => h.operand
  | .or => h.operand.conjunction

theorem Reads.toDisjunction {ts : List Token} {f : Formula} :
    ∀ {op}, Reads (rankOf op) ts f → Reads .disjunction ts f
  | .and, h => h.conjunction
  | .or, h => h

theorem Reads.binary {op : Connective} {ts us : List Token} {f g : Formula}
    (hf : Reads (rankOf op) ts f) (hg : Reads .operand us g) :
    Reads (rankOf op) (ts ++ .connective op :: us) (.binary op f g) := by
  cases op with
  | and => exact hf.and hg
  | or => exact hf.or hg.operand

/-- Operands joined by one connective are read from left to right. -/
theorem Reads.joinTokens {op : Connective} {tss : List (List Token)} {gs : List Formula}
    (hs : List.Forall₂ (Reads .operand) tss gs) {ts : List Token} {f : Formula}
    (h : Reads (rankOf op) ts f) :
    Reads (rankOf op) (ts ++ tss.flatMap (.connective op :: ·)) (gs.foldl (.binary op) f) := by
  induction hs generalizing ts f with
  | nil => simpa using h
  | @cons us g tss gs hg _ ih =>
    rw [List.flatMap_cons, ← List.append_assoc]
    exact ih (h.binary hg)

/-- A formula has the truth value of a predicate under every assignment. -/
def Formula.Means (f : Formula) (p : Predicate) : Prop := ∀ v, f.holds v = p.holds v

/-- A predicate can be read by itself and as a child of a compound one. -/
structure Readable (p : Predicate) : Prop where
  alone : ∃ f : Formula, Reads .disjunction (tokens p) f ∧ f.Means p
  child : ∃ f : Formula, Reads .operand (childTokens p) f ∧ f.Means p

/-- What is not compound stands as an operand without parentheses. -/
theorem Readable.of_operand {p : Predicate} (hp : isCompound p = false) {f : Formula}
    (h : Reads .operand (tokens p) f) (hf : f.Means p) : Readable p := by
  refine ⟨⟨f, h.operand.conjunction, hf⟩, f, ?_, hf⟩
  rwa [childTokens, hp]

/-- What is compound becomes an operand by its parentheses. -/
theorem Readable.of_compound {op : Connective} {ps : List Predicate} {f : Formula}
    (h : Reads .disjunction (tokens (.compound op ps)) f) (hf : f.Means (.compound op ps)) :
    Readable (.compound op ps) :=
  ⟨⟨f, h, hf⟩, f, h.group, hf⟩

/-- The children of a compound predicate are operands, one for each. -/
theorem exists_forall₂_reads {ps : List Predicate} (h : ∀ p ∈ ps, Readable p) :
    ∃ fs : List Formula, List.Forall₂ (Reads .operand) (ps.map childTokens) fs ∧
      ∀ v, fs.map (·.holds v) = ps.map (·.holds v) := by
  induction ps with
  | nil => exact ⟨[], .nil, fun v => rfl⟩
  | cons p ps ih =>
    obtain ⟨f, hf, hp⟩ := (h p List.mem_cons_self).child
    obtain ⟨fs, hfs, hps⟩ := ih fun q hq => h q (List.mem_cons_of_mem p hq)
    exact ⟨f :: fs, .cons hf hfs, fun v => by rw [List.map_cons, List.map_cons, hp v, hps v]⟩

theorem readable (p : Predicate) : Readable p := by
  induction p with
  | always => exact .of_operand rfl (.atom (.constant true)) fun v => rfl
  | test t => exact .of_operand rfl (.atom (.test t)) fun v => rfl
  | not p ih =>
    by_cases hp : ∃ c vs, p = .test (.oneOf c vs)
    · obtain ⟨c, vs, rfl⟩ := hp
      exact .of_operand rfl (.atom (.noneOf c vs)) fun v => rfl
    · obtain ⟨f, hf, hfp⟩ := ih.alone
      refine .of_operand rfl (f := .not f) ?_ fun v => ?_
      · rw [tokens_not fun c vs heq => hp ⟨c, vs, heq⟩]
        exact hf.group.not
      · rw [Formula.holds, Predicate.holds, hfp v]
  | compound op ps ih =>
    cases ps with
    | nil => exact .of_compound (.conjunction (.operand (.atom _))) fun v => by cases op <;> rfl
    | cons p ps =>
      obtain ⟨fs, hreads, hholds⟩ := exists_forall₂_reads ih
      rw [List.map_cons] at hreads
      cases hreads with
      | @cons _ f _ fs hf hfs =>
        refine .of_compound (f := fs.foldl (.binary op) f) ?_ fun v => ?_
        · rw [tokens_compound]
          exact (Reads.joinTokens hfs (hf.ofOperand op)).toDisjunction
        · rw [Formula.holds_foldl_binary, Predicate.holds_compound, ← hholds v, List.map_cons]

/-! ### The text of tokens -/

/-- How a token is written when its first placeholder has a number. The text of a test is that of
the test alone. -/
def Token.text (n : Nat) : Token → String
  | .atom (.constant true) => "1 = 1"
  | .atom (.constant false) => "1 = 0"
  | .atom (.test (.oneOf c vs)) => columnText c ++ " IN (" ++ write n (placeholders vs) ++ ")"
  | .atom (.test t) => write n (testPieces t)
  | .atom (.noneOf c vs) => columnText c ++ " NOT IN (" ++ write n (placeholders vs) ++ ")"
  | .not => "NOT "
  | .connective .and => " AND "
  | .connective .or => " OR "
  | .opening => "("
  | .closing => ")"

/-- The text of tokens when the first placeholder has a number. -/
def textOf : Nat → List Token → String
  | _, [] => ""
  | n, t :: ts => t.text n ++ textOf (n + (parameters t.pieces).length) ts

theorem write_membership (n : Nat) (c : Column) (keyword : String) (vs : List Value) :
    write n (membership c keyword vs) =
      columnText c ++ " " ++ keyword ++ " (" ++ write n (placeholders vs) ++ ")" := by
  rw [membership, List.cons_append, write, write_append]
  simp [write, String.append_assoc]

theorem write_token (n : Nat) (t : Token) : write n t.pieces = t.text n := by
  match t with
  | .atom (.test (.oneOf c vs)) =>
    exact (write_membership n c "IN" vs).trans (by simp [Token.text, String.append_assoc])
  | .atom (.noneOf c vs) =>
    exact (write_membership n c "NOT IN" vs).trans (by simp [Token.text, String.append_assoc])
  | .atom (.test (.isNull _)) | .atom (.test (.isNotNull _)) | .atom (.test (.compare _ _ _ _))
  | .atom (.test (.like _ _ _ _)) => rfl
  | .atom (.constant true) | .atom (.constant false) | .not | .connective .and | .connective .or
  | .opening | .closing => simp [Token.pieces, Atom.pieces, write, Token.text]

theorem write_tokens (n : Nat) (ts : List Token) :
    write n (ts.flatMap Token.pieces) = textOf n ts := by
  induction ts generalizing n with
  | nil => rfl
  | cons t ts ih => rw [List.flatMap_cons, write_append, write_token, ih, textOf]

theorem toText_always {q : Query} (h : q.predicate = .always) : toText q = head q := by
  rw [toText, pieces, h, condition, write, write, String.append_empty]

theorem toText_of_ne_always {q : Query} (h : q.predicate ≠ .always) :
    toText q = head q ++ " WHERE " ++ textOf 1 (tokens q.predicate) := by
  rw [toText, pieces, condition, write, write, write_tokens, String.append_assoc]
  exact h

/-- **The condition means the predicate.** The tokens of the predicate have one reading, and it is
true under exactly the assignments under which the predicate is. They are the text behind `WHERE`,
which is left out only for the predicate that always holds. -/
theorem toText_reads (q : Query) :
    (∃ f : Formula, (∀ g, Reads .disjunction (tokens q.predicate) g ↔ g = f) ∧
      ∀ v, f.holds v = q.predicate.holds v) ∧
    (q.predicate = .always ∧ toText q = head q ∨
      q.predicate ≠ .always ∧
        toText q = head q ++ " WHERE " ++ textOf 1 (tokens q.predicate)) := by
  constructor
  · obtain ⟨f, hf, hq⟩ := (readable q.predicate).alone
    refine ⟨f, fun g => ⟨fun hg => hg.unique hf, ?_⟩, hq⟩
    rintro rfl
    exact hf
  · by_cases h : q.predicate = .always
    · exact .inl ⟨h, toText_always h⟩
    · exact .inr ⟨h, toText_of_ne_always h⟩

end Sql

end QueryFilter
