import Mathlib.Data.List.Chain
import QueryFilter.Proofs.Formula

/-!
# Operands in the text of a query

Operands come near the text of a query in two ways. The values that a predicate compares with are
left out of it: a placeholder stands for each of them, whatever it is. The pattern of a text test
is written into it, between quotes, and each quote in the pattern is written twice. So a pattern is
read back from the text as it is, and the text goes on behind it.

* `Predicate.withoutValues`: a predicate with its values left out;
* `Sql.toText_congr`: the text of a query is the same without them;
* `Predicate.patterns`: the patterns of a predicate;
* `Sql.readLiteral?`: how a literal between quotes is read;
* `Sql.Closed` and `Sql.closed_pieces`: what comes behind a pattern does not begin with a quote;
* `Sql.toText_operands`: what the operands have to do with the text of a query.
-/

namespace QueryFilter

variable {σ : Type}

/-! ### Values left out -/

/-- A test with null in the place of each value. -/
def Test.withoutValues : Test σ → Test σ
  | isNull c => isNull c
  | isNotNull c => isNotNull c
  | compare c op _ ignoreCase => compare c op .null ignoreCase
  | like c pattern ignoreCase castToText => like c pattern ignoreCase castToText
  | oneOf c vs => oneOf c (List.replicate vs.length .null)

namespace Predicate

mutual

/-- A predicate with null in the place of each value that it compares with. -/
def withoutValues : Predicate σ → Predicate σ
  | always => always
  | test t => test t.withoutValues
  | not p => not p.withoutValues
  | compound op ps => compound op (withoutValuesOfAll ps)

/-- A list of predicates with null in the place of each value. -/
def withoutValuesOfAll : List (Predicate σ) → List (Predicate σ)
  | [] => []
  | p :: ps => p.withoutValues :: withoutValuesOfAll ps

end

theorem withoutValuesOfAll_eq_map (ps : List (Predicate σ)) :
    withoutValuesOfAll ps = ps.map withoutValues := by
  induction ps with
  | nil => rfl
  | cons p ps ih => rw [withoutValuesOfAll, ih, List.map_cons]

theorem withoutValues_compound (op : Connective) (ps : List (Predicate σ)) :
    (compound op ps).withoutValues = compound op (ps.map withoutValues) := by
  rw [withoutValues, withoutValuesOfAll_eq_map]

end Predicate

namespace Sql

/-- A piece with null in the place of its value. -/
def Piece.withoutValue : Piece → Piece
  | plain text => plain text
  | placeholder _ => placeholder .null
  | pattern text => pattern text

/-- A token with null in the place of each value. -/
def Token.withoutValues : Token → Token
  | .atom (.test t) => .atom (.test t.withoutValues)
  | .atom (.noneOf c vs) => .atom (.noneOf c (List.replicate vs.length .null))
  | t => t

/-- A placeholder is written without a look at its value. -/
theorem write_map_withoutValue (n : Nat) (ps : List Piece) :
    write n (ps.map Piece.withoutValue) = write n ps := by
  induction ps generalizing n with
  | nil => rfl
  | cons p ps ih => cases p <;> simp [Piece.withoutValue, write, ih]

theorem placeholders_replicate (vs : List Value) :
    placeholders (List.replicate vs.length .null) = (placeholders vs).map Piece.withoutValue := by
  induction vs using placeholders.induct with
  | case1 | case2 v => rfl
  | case3 v vs hne ih =>
    obtain ⟨w, vs, rfl⟩ := List.exists_cons_of_ne_nil hne
    simpa [placeholders, List.replicate_succ, Piece.withoutValue] using ih

theorem membership_replicate (c : Column) (keyword : String) (vs : List Value) :
    membership c keyword (List.replicate vs.length .null) =
      (membership c keyword vs).map Piece.withoutValue := by
  simp [membership, placeholders_replicate, Piece.withoutValue]

theorem pieces_withoutValues (t : Token) :
    t.withoutValues.pieces = t.pieces.map Piece.withoutValue := by
  match t with
  | .atom (.test t) =>
    cases t with
    | oneOf c vs => exact membership_replicate c "IN" vs
    | isNull | isNotNull | compare | like => rfl
  | .atom (.noneOf c vs) => exact membership_replicate c "NOT IN" vs
  | .atom (.constant true) | .atom (.constant false) | .not | .connective .and | .connective .or
  | .opening | .closing => rfl

theorem map_withoutValues_enclose (ts : List Token) :
    (enclose ts).map Token.withoutValues = enclose (ts.map Token.withoutValues) := by
  simp [enclose, Token.withoutValues]

theorem isCompound_withoutValues (p : Predicate) : isCompound p.withoutValues = isCompound p := by
  cases p <;> rfl

/-- The tokens of a predicate keep their places when its values are left out. -/
theorem tokens_withoutValues (p : Predicate) :
    tokens p.withoutValues = (tokens p).map Token.withoutValues := by
  induction p with
  | always | test t => rfl
  | not p ih =>
    by_cases hp : ∃ c vs, p = .test (.oneOf c vs)
    · obtain ⟨c, vs, rfl⟩ := hp
      rfl
    · have hp' : ∀ c vs, p.withoutValues ≠ .test (.oneOf c vs) := by
        intro c vs heq
        cases p with
        | test t => cases t <;> cases heq; exact hp ⟨c, _, rfl⟩
        | always | not | compound => cases heq
      rw [Predicate.withoutValues, tokens_not hp', tokens_not fun c vs heq => hp ⟨c, vs, heq⟩, ih]
      exact congrArg (Token.not :: ·) (map_withoutValues_enclose _).symm
  | compound op ps ih =>
    cases ps with
    | nil => rfl
    | cons p ps =>
      have hchild : ∀ q ∈ p :: ps,
          childTokens q.withoutValues = (childTokens q).map Token.withoutValues := by
        intro q hq
        rw [childTokens, childTokens, isCompound_withoutValues, ih q hq]
        split
        · exact (map_withoutValues_enclose _).symm
        · rfl
      have hrest : ∀ q ∈ ps,
          Token.connective op :: childTokens q.withoutValues =
            (Token.connective op :: childTokens q).map Token.withoutValues := by
        intro q hq
        rw [hchild q (List.mem_cons_of_mem p hq)]
        rfl
      rw [Predicate.withoutValues_compound, List.map_cons, tokens_compound, tokens_compound,
        List.map_append, hchild p List.mem_cons_self, List.map_flatMap, List.flatMap_map,
        List.flatMap_map, List.flatMap_map, List.flatMap_congr hrest]

/-- The condition is written without a look at its values. -/
theorem condition_withoutValues (p : Predicate) :
    condition p.withoutValues = (condition p).map Piece.withoutValue := by
  have htokens : (tokens p.withoutValues).flatMap Token.pieces =
      ((tokens p).flatMap Token.pieces).map Piece.withoutValue := by
    rw [tokens_withoutValues, List.flatMap_map, List.map_flatMap]
    exact List.flatMap_congr fun t _ => pieces_withoutValues t
  cases p with
  | always => rfl
  | test _ | not _ | compound _ _ => exact congrArg (Piece.plain " WHERE " :: ·) htokens

/-- A query has the same text as one that differs from it in values only. -/
theorem toText_congr {q q' : Query} (hplan : q'.plan = q.plan)
    (hprojection : q'.projection = q.projection)
    (hpredicate : q'.predicate.withoutValues = q.predicate.withoutValues) :
    toText q' = toText q := by
  have hhead : head q' = head q := by
    unfold head selection
    rw [hplan, hprojection]
  have hcondition : (condition q'.predicate).map Piece.withoutValue =
      (condition q.predicate).map Piece.withoutValue := by
    rw [← condition_withoutValues, ← condition_withoutValues, hpredicate]
  calc toText q'
      = write 1 ((pieces q').map Piece.withoutValue) := (write_map_withoutValue 1 _).symm
    _ = write 1 ((pieces q).map Piece.withoutValue) := by
        rw [pieces, pieces, List.map_cons, List.map_cons, hhead, hcondition]
    _ = toText q := write_map_withoutValue 1 _

/-! ### Patterns -/

end Sql

/-- The pattern of a test, if it has one. -/
def Test.pattern? : Test σ → Option String
  | like _ pattern _ _ => some pattern
  | isNull _ | isNotNull _ | compare _ _ _ _ | oneOf _ _ => none

/-- The patterns of a predicate, from left to right. -/
def Predicate.patterns (p : Predicate σ) : List String := p.tests.filterMap Test.pattern?

namespace Sql

/-- The pattern that is written in a piece, if there is one. -/
def Piece.pattern? : Piece → Option String
  | pattern text => some text
  | plain _ | placeholder _ => none

/-- The patterns that are written in pieces. -/
def patternsIn (ps : List Piece) : List String := ps.filterMap Piece.pattern?

theorem patternsIn_placeholders (vs : List Value) : patternsIn (placeholders vs) = [] := by
  induction vs using placeholders.induct with
  | case1 | case2 v => rfl
  | case3 v vs hne ih => simpa [placeholders, patternsIn, Piece.pattern?] using ih

theorem patternsIn_membership (c : Column) (keyword : String) (vs : List Value) :
    patternsIn (membership c keyword vs) = [] := by
  have hvalues := patternsIn_placeholders vs
  rw [patternsIn] at hvalues
  rw [membership, List.cons_append, patternsIn, List.filterMap_cons_none rfl,
    List.filterMap_append, hvalues]
  rfl

theorem patternsIn_token (t : Token) :
    patternsIn t.pieces = t.tests.filterMap Test.pattern? := by
  match t with
  | .atom (.test t) =>
    cases t with
    | oneOf c vs => exact patternsIn_membership c "IN" vs
    | isNull | isNotNull | compare | like => rfl
  | .atom (.noneOf c vs) => exact patternsIn_membership c "NOT IN" vs
  | .atom (.constant true) | .atom (.constant false) | .not | .connective .and | .connective .or
  | .opening | .closing => rfl

/-- The patterns in the text of a query are those of its predicate. -/
theorem patternsIn_pieces (q : Query) : patternsIn (pieces q) = q.predicate.patterns := by
  have htokens (p : Predicate) : patternsIn ((tokens p).flatMap Token.pieces) = p.patterns := by
    rw [Predicate.patterns, ← tests_tokens, patternsIn, List.filterMap_flatMap,
      List.filterMap_flatMap]
    exact List.flatMap_congr fun t _ => patternsIn_token t
  change patternsIn (condition q.predicate) = q.predicate.patterns
  cases q.predicate with
  | always => rfl
  | test _ | not _ | compound _ _ => exact htokens _

/-! ### Literals -/

/-- What is left of a literal behind the quote that opens it, and the text behind the literal. A
quote that is written twice stands for one, and a quote that stands alone ends the literal. -/
def readQuoted : List Char → Option (List Char × List Char)
  | [] => none
  | '\'' :: '\'' :: cs => (readQuoted cs).map fun r => ('\'' :: r.1, r.2)
  | '\'' :: cs => some ([], cs)
  | c :: cs => (readQuoted cs).map fun r => (c :: r.1, r.2)

/-- The literal at the beginning of a text and the text behind it. -/
def readLiteral? : List Char → Option (String × List Char)
  | '\'' :: cs => (readQuoted cs).map fun r => (String.ofList r.1, r.2)
  | _ => none

/-- Whether a text begins with something that is no quote. -/
def beginsUnquoted (s : String) : Bool := s.toList.head?.any (· != '\'')

theorem readQuoted_close {rest : List Char} (h : rest.head? ≠ some '\'') :
    readQuoted ('\'' :: rest) = some ([], rest) := by
  cases rest with
  | nil => rfl
  | cons c rest =>
    have hc : c ≠ '\'' := by simpa using h
    rw [readQuoted]
    rintro cs heq
    exact hc (List.cons.inj heq).1

/-- A pattern is read back from its quotes, up to the text behind them, which does not begin with
a quote. -/
theorem readLiteral?_quotePattern (s : String) {rest : List Char} (h : rest.head? ≠ some '\'') :
    readLiteral? ((quotePattern s).toList ++ rest) = some (s, rest) := by
  have hquoted (cs : List Char) :
      readQuoted ((cs.flatMap fun c => if c = '\'' then ['\'', '\''] else [c]) ++ '\'' :: rest) =
        some (cs, rest) := by
    induction cs with
    | nil => exact readQuoted_close h
    | cons c cs ih =>
      rw [List.flatMap_cons, List.append_assoc]
      by_cases hc : c = '\''
      · rw [if_pos hc, List.cons_append, List.cons_append, List.nil_append, readQuoted, ih, hc]
        rfl
      · rw [if_neg hc, List.cons_append, List.nil_append, readQuoted, ih]
        · rfl
        · exact fun _ heq => absurd heq hc
        · exact hc
  rw [quotePattern]
  simp only [String.toList_ofList, List.cons_append, List.append_assoc, List.nil_append,
    readLiteral?, hquoted, Option.map_some, String.ofList_toList]

/-! ### What comes behind a pattern -/

/-- What may come behind a piece. Behind a pattern it is a plain text that does not begin with a
quote, which would be taken for a part of the literal. -/
def MayFollow : Piece → Piece → Prop
  | .pattern _, .plain s => beginsUnquoted s
  | .pattern _, _ => False
  | _, _ => True

/-- Pieces whose patterns are told apart from what comes behind them. -/
abbrev Closed (ps : List Piece) : Prop := ps.IsChain MayFollow

theorem closed_of_patternsIn_eq_nil {ps : List Piece} (h : patternsIn ps = []) : Closed ps := by
  have hnone : ∀ p ∈ ps, p.pattern? = none := List.filterMap_eq_nil_iff.1 h
  refine (List.pairwise_of_forall_mem_list fun p hp q _ => ?_).isChain
  have hp := hnone p hp
  cases p with
  | plain _ | placeholder _ => trivial
  | pattern s => cases hp

/-- Any pieces may come behind a text. -/
theorem closed_plain {ps : List Piece} {s : String} (h : Closed ps) : Closed (.plain s :: ps) :=
  List.IsChain.cons h fun _ _ => trivial

/-- Any pieces may come behind a text that does not begin with a quote, and the text may come
behind any pieces. -/
theorem Closed.append_plain {ps qs : List Piece} {s : String} (hps : Closed ps)
    (hs : beginsUnquoted s) (hqs : Closed qs) : Closed (ps ++ .plain s :: qs) := by
  refine List.IsChain.append hps (closed_plain hqs) fun p _ q hq => ?_
  obtain rfl : Piece.plain s = q := by simpa using hq
  cases p with
  | plain _ | placeholder _ => trivial
  | pattern _ => exact hs

theorem closed_atom (a : Atom) : Closed a.pieces := by
  match a with
  | .test (.like c pattern ignoreCase castToText) =>
    exact List.IsChain.cons_cons trivial (List.isChain_singleton _)
  | .test (.oneOf c vs) => exact closed_of_patternsIn_eq_nil (patternsIn_membership c "IN" vs)
  | .noneOf c vs => exact closed_of_patternsIn_eq_nil (patternsIn_membership c "NOT IN" vs)
  | .constant true | .constant false | .test (.isNull _) | .test (.isNotNull _)
  | .test (.compare _ _ _ _) => exact closed_of_patternsIn_eq_nil rfl

/-- The pieces of a phrase are closed, since a pattern comes last in its atom, and a connective, a
parenthesis or nothing comes behind an atom. -/
theorem Reads.closed {r : Rank} {ts : List Token} {f : Formula} (h : Reads r ts f) :
    Closed (ts.flatMap Token.pieces) := by
  induction h with
  | atom a =>
    rw [List.flatMap_singleton]
    exact closed_atom a
  | not h ih => exact closed_plain ih
  | @group ts f h ih =>
    have hopen : Closed (Token.opening.pieces ++ ts.flatMap Token.pieces) := closed_plain ih
    have hclose := hopen.append_plain (s := ")") rfl .nil
    simpa [enclose, Token.pieces] using hclose
  | operand h ih | conjunction h ih => exact ih
  | and hf hg ihf ihg =>
    rw [List.flatMap_append]
    exact ihf.append_plain (s := " AND ") rfl ihg
  | or hf hg ihf ihg =>
    rw [List.flatMap_append]
    exact ihf.append_plain (s := " OR ") rfl ihg

theorem closed_pieces (q : Query) : Closed (pieces q) := by
  have hcondition : Closed (condition q.predicate) := by
    obtain ⟨f, hf, -⟩ := (readable q.predicate).alone
    cases hq : q.predicate with
    | always => exact .nil
    | test _ | not _ | compound _ _ =>
      rw [hq] at hf
      exact closed_plain hf.closed
  exact closed_plain hcondition

/-- The text behind a pattern does not begin with a quote. -/
theorem head?_write_of_closed {s : String} {ps : List Piece} (h : Closed (.pattern s :: ps))
    (n : Nat) : (write n ps).toList.head? ≠ some '\'' := by
  cases ps with
  | nil => nofun
  | cons p ps =>
    have hp : MayFollow (.pattern s) p := (List.isChain_cons.1 h).1 p rfl
    cases p with
    | placeholder _ | pattern _ => exact hp.elim
    | plain t =>
      have ht : beginsUnquoted t := hp
      rw [beginsUnquoted] at ht
      rw [write, String.toList_append]
      cases htext : t.toList with
      | nil => simp [htext] at ht
      | cons c cs => simpa [htext] using ht

/-- **Operands in the text of a query.** The text is the same for any values that the predicate
compares with, as long as its lists keep their lengths. A pattern of the predicate is written as one
literal between quotes: reading the text from its place gives the pattern, whatever its characters
are, and leaves the text that is written for the rest of the query. -/
theorem toText_operands (q : Query) :
    (∀ q' : Query, q'.plan = q.plan → q'.projection = q.projection →
      q'.predicate.withoutValues = q.predicate.withoutValues → toText q' = toText q) ∧
    ∀ before s after, q.predicate.patterns = before ++ s :: after →
      ∃ ps qs, pieces q = ps ++ .pattern s :: qs ∧
        patternsIn ps = before ∧ patternsIn qs = after ∧
        let n := 1 + (parameters ps).length
        toText q = write 1 ps ++ write n (.pattern s :: qs) ∧
          readLiteral? (write n (.pattern s :: qs)).toList = some (s, (write n qs).toList) := by
  refine ⟨fun q' => toText_congr, fun before s after hpatterns => ?_⟩
  rw [← patternsIn_pieces, patternsIn, List.filterMap_eq_append_iff] at hpatterns
  obtain ⟨ps, rest, hpieces, hps, hrest⟩ := hpatterns
  obtain ⟨silent, p, qs, rfl, hsilent, hp, hqs⟩ := List.filterMap_eq_cons_iff.1 hrest
  obtain rfl : p = .pattern s := by
    cases p <;> cases hp
    rfl
  have hclosed : Closed (.pattern s :: qs) := by
    have h := closed_pieces q
    rw [hpieces, ← List.append_assoc] at h
    exact h.right_of_append
  refine ⟨ps ++ silent, qs, ?_, ?_, hqs, ?_, ?_⟩
  · rw [hpieces, List.append_assoc]
  · rw [patternsIn, List.filterMap_append, hps, List.filterMap_eq_nil_iff.2 hsilent,
      List.append_nil]
  · rw [toText, hpieces, ← List.append_assoc, write_append]
  · rw [write, String.toList_append]
    exact readLiteral?_quotePattern s (head?_write_of_closed hclosed _)

/-- Quotes and placeholders in a pattern stay inside its literal, and the text goes on with the
parenthesis behind it. -/
theorem toText_operands_staff :
    let name : Column := ⟨.root, ["name"]⟩
    let id : Column := ⟨.root, ["id"]⟩
    let query (n : Int) : Query := ⟨.start "Employee" none, .compound .and [
      .compound .or [.test (.isNull name), .test (.like name "'%?1''\\'" false false)],
      .test (.compare id .less (.integer .long n) false)], .rows⟩
    toText (query 3) = toText (query 4) ∧
      ∃ text rest, toText (query 3) = text ++ rest ∧
        readLiteral? rest.toList = some ("'%?1''\\'", ") AND t0.id < ?1".toList) := by
  intro name id query
  obtain ⟨hsame, -⟩ := toText_operands (query 4)
  obtain ⟨-, hliteral⟩ := toText_operands (query 3)
  obtain ⟨ps, qs, hpieces, hps, -, htext, hread⟩ := hliteral [] "'%?1''\\'" [] rfl
  -- the pieces around the pattern are found by going on to the first pattern
  have hsilent : ∀ p ∈ ps, p.pattern?.isNone := by simpa [patternsIn] using hps
  have hbefore : ps = (pieces (query 3)).takeWhile (·.pattern?.isNone) := by
    rw [hpieces, List.takeWhile_append_of_pos hsilent]
    simp [Piece.pattern?]
  have hbehind : qs = ((pieces (query 3)).dropWhile (·.pattern?.isNone)).tail := by
    rw [hpieces, List.dropWhile_append_of_pos hsilent]
    simp [Piece.pattern?]
  refine ⟨hsame (query 3) rfl rfl rfl, _, _, htext, hread.trans ?_⟩
  rw [hbefore, hbehind]
  decide +kernel

end Sql

end QueryFilter
