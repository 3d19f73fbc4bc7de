import QueryFilter.Proofs.Formula
import QueryFilter.Proofs.Names
import QueryFilter.Proofs.Parameters

/-!
# Placeholders in the text of a query

The text of a query is searched for placeholders from left to right, with the names of attributes
and of the root type left out, since these are written as they are, and with literals in quotes
passed over. The placeholders are numbered from one in their order, and there is one for each value
that the query is run with.

* `Sql.markers`: the placeholders in a text outside literals;
* `Sql.Scans`: pieces whose placeholders are found one by one, in any place where the text behind
  them cannot be taken for a part of a number;
* `Reads.scans`: the tokens of a formula are such pieces;
* `Sql.markers_toText`: the placeholders of a query.
-/

namespace QueryFilter

namespace Sql

/-! ### Searching a text -/

/-- The placeholders in a text: the digits behind each question mark outside literals. A quote
begins a literal and the next one ends it, so a quote that is written twice in a literal ends it and
begins it again. -/
def markers : (quoted : Bool) → List Char → List String
  | _, [] => []
  | quoted, '\'' :: cs => markers (!quoted) cs
  | false, '?' :: cs => String.ofList (cs.takeWhile Char.isDigit) :: markers false cs
  | quoted, _ :: cs => markers quoted cs

/-- As many numbers as there are values, in order. -/
def numbersFrom (n count : Nat) : List String := (List.range' n count).map toString

theorem numbersFrom_add (n k l : Nat) :
    numbersFrom n (k + l) = numbersFrom n k ++ numbersFrom (n + k) l := by
  rw [numbersFrom, numbersFrom, numbersFrom, ← List.map_append, List.range'_append_1]

/-- Whether a text begins with something that is no digit. -/
def beginsApart (s : String) : Bool :=
  match s.toList with
  | [] => false
  | c :: _ => !c.isDigit

theorem markers_cons {c : Char} (hmark : c ≠ '?') (hquote : c ≠ '\'') (quoted : Bool)
    (cs : List Char) : markers quoted (c :: cs) = markers quoted cs := by
  cases quoted <;> simp [markers, hmark]

/-- Nothing is found in a text without placeholders and quotes. -/
theorem markers_quiet {s : String} (hs : Quiet s) (rest : List Char) :
    markers false (s.toList ++ rest) = markers false rest := by
  have hchars : ∀ cs : List Char, (∀ c ∈ cs, c ≠ '?' ∧ c ≠ '\'') →
      markers false (cs ++ rest) = markers false rest := by
    intro cs hcs
    induction cs with
    | nil => rfl
    | cons c cs ih =>
      obtain ⟨hmark, hquote⟩ := hcs c List.mem_cons_self
      rw [List.cons_append, markers_cons hmark hquote]
      exact ih fun d hd => hcs d (List.mem_cons_of_mem c hd)
  exact hchars s.toList hs

/-- Nothing is found in a pattern. -/
theorem markers_quotePattern (s : String) (rest : List Char) :
    markers false ((quotePattern s).toList ++ rest) = markers false rest := by
  -- a quote of the pattern leaves the literal, and its double enters it again
  have hinside (cs rest : List Char) :
      markers true ((cs.flatMap fun c => if c = '\'' then ['\'', '\''] else [c]) ++ rest) =
        markers true rest := by
    induction cs with
    | nil => rfl
    | cons c cs ih =>
      rw [List.flatMap_cons, List.append_assoc]
      by_cases hquote : c = '\''
      · simpa [hquote, markers] using ih
      · simpa [hquote, markers] using ih
  simp only [quotePattern, String.toList_ofList, List.cons_append, List.append_assoc, markers,
    Bool.not_false, hinside, List.nil_append, Bool.not_true]

/-- A text that does not go on with a digit. -/
def EndsNumber (cs : List Char) : Prop := ∀ c ∈ cs.head?, c.isDigit = false

/-- A placeholder is found with its number. -/
theorem markers_placeholder (n : Nat) {rest : List Char} (h : EndsNumber rest) :
    markers false ('?' :: (toString n).toList ++ rest) = toString n :: markers false rest := by
  have hdigits : ((toString n).toList ++ rest).takeWhile Char.isDigit = (toString n).toList := by
    rw [List.takeWhile_append_of_pos fun c hc => isDigit_of_mem_toString hc]
    cases rest with
    | nil => simp
    | cons c rest => simp [h c rfl]
  rw [List.cons_append, markers, hdigits, String.ofList_toList, markers_quiet (quiet_toString n)]

/-! ### Searching pieces -/

/-- A piece without a placeholder to be found. -/
def Piece.Silent : Piece → Prop
  | .plain s => Quiet s
  | .placeholder _ => False
  | .pattern _ => True

instance : DecidablePred Piece.Silent
  | .plain s => inferInstanceAs (Decidable (Quiet s))
  | .placeholder _ => .isFalse id
  | .pattern _ => .isTrue trivial

/-- The placeholders of pieces are found, each once and in order, wherever no digit comes behind the
pieces. -/
def Scans (ps : List Piece) : Prop :=
  ∀ n rest, EndsNumber rest → markers false ((write n ps).toList ++ rest) =
    numbersFrom n (parameters ps).length ++ markers false rest

/-- Silent pieces have no part in what is found, whatever comes behind them. -/
theorem markers_silent {ps : List Piece} (h : ∀ p ∈ ps, p.Silent) :
    parameters ps = [] ∧
      ∀ n rest, markers false ((write n ps).toList ++ rest) = markers false rest := by
  induction ps with
  | nil => exact ⟨rfl, fun n rest => rfl⟩
  | cons p ps ih =>
    obtain ⟨hparameters, hmarkers⟩ := ih fun q hq => h q (List.mem_cons_of_mem p hq)
    have hp : p.Silent := h p List.mem_cons_self
    cases p with
    | plain s =>
      refine ⟨hparameters, fun n rest => ?_⟩
      rw [write, String.toList_append, List.append_assoc, markers_quiet hp, hmarkers]
    | placeholder v => exact hp.elim
    | pattern s =>
      refine ⟨hparameters, fun n rest => ?_⟩
      rw [write, String.toList_append, List.append_assoc, markers_quotePattern, hmarkers]

namespace Scans

theorem append_of_silent {ps qs : List Piece} (hps : ∀ p ∈ ps, p.Silent) (hqs : Scans qs) :
    Scans (ps ++ qs) := by
  intro n rest hrest
  obtain ⟨hparameters, hmarkers⟩ := markers_silent hps
  rw [write_append, parameters_append, hparameters, String.toList_append, List.append_assoc,
    hmarkers]
  exact hqs n rest hrest

theorem cons_plain {qs : List Piece} {s : String} (hs : Quiet s) (hqs : Scans qs) :
    Scans (.plain s :: qs) := by
  have hplain : ∀ p ∈ [Piece.plain s], p.Silent := List.forall_mem_singleton.2 hs
  rw [← List.singleton_append]
  exact append_of_silent hplain hqs

theorem of_silent {ps : List Piece} (h : ∀ p ∈ ps, p.Silent) : Scans ps := by
  intro n rest _
  obtain ⟨hparameters, hmarkers⟩ := markers_silent h
  rw [hmarkers, hparameters]
  rfl

theorem nil : Scans [] := of_silent (by decide)

theorem placeholder (v : Value) : Scans [.placeholder v] := by
  intro n rest hrest
  have htext : (write n [.placeholder v]).toList = '?' :: (toString n).toList := by simp [write]
  rw [htext]
  exact markers_placeholder n hrest

/-- A text that does not begin with a digit keeps the placeholders before it apart from what comes
behind it. -/
theorem append_plain {ps qs : List Piece} {s : String} (hps : Scans ps) (hs : Quiet s)
    (hapart : beginsApart s) (hqs : Scans qs) : Scans (ps ++ .plain s :: qs) := by
  intro n rest hrest
  have hbehind : ∀ m, EndsNumber ((write m (.plain s :: qs)).toList ++ rest) := by
    intro m c hc
    rw [write, String.toList_append, List.append_assoc] at hc
    unfold beginsApart at hapart
    split at hapart
    · cases hapart
    · rename_i d cs heq
      rw [heq, List.cons_append, List.head?_cons, Option.mem_some_iff] at hc
      subst hc
      simpa using hapart
  rw [write_append, parameters_append, String.toList_append, List.append_assoc,
    hps n _ (hbehind _), List.length_append, numbersFrom_add, List.append_assoc, write,
    String.toList_append, List.append_assoc, markers_quiet hs, hqs _ rest hrest]
  rfl

/-- The placeholders of a list, up to its parenthesis. -/
theorem placeholders_closing (vs : List Value) : Scans (placeholders vs ++ [.plain ")"]) := by
  induction vs using placeholders.induct with
  | case1 => exact of_silent (by decide)
  | case2 v => exact (placeholder v).append_plain (by decide) (by decide) nil
  | case3 v vs hne ih =>
    rw [placeholders]
    · exact (placeholder v).append_plain (by decide) (by decide) ih
    · exact hne

end Scans

/-! ### Searching a query -/

/-- All names of a query are left out. -/
abbrev Part.blank : Part → Piece := Part.toPiece [.attribute, .type]

theorem Part.Inert.silent {attributes types : List String} {part : Part}
    (h : part.Inert attributes types) : part.blank.Silent := by
  cases h with
  | plain hs => exact hs
  | ofAttribute hs | ofType hs => exact (by decide : Quiet " ")

theorem Scans.columnBetween {before after : String} {c : Column} {ps : List Piece}
    (hbefore : Quiet before) (hafter : Quiet after) (hps : Scans ps) :
    Scans ((columnBetween before c after ps).map Part.blank) := by
  have hcolumn : ∀ part ∈ .plain before :: columnParts c ++ [.plain after], part.blank.Silent := by
    intro part hpart
    rw [List.mem_append, List.mem_cons, List.mem_singleton] at hpart
    rcases hpart with (rfl | hpart) | rfl
    · exact hbefore
    · exact (inert_columnParts c part hpart).silent
    · exact hafter
  have hparts : (Sql.columnBetween before c after ps).map Part.blank =
      (Part.plain before :: columnParts c ++ [Part.plain after]).map Part.blank ++ ps := by
    simp [Sql.columnBetween, Part.blank, Function.comp_def]
  rw [hparts]
  exact append_of_silent (List.forall_mem_map.2 hcolumn) hps

theorem quiet_comparisonSign (op : Comparison) : Quiet (comparisonSign op) := by
  cases op <;> decide

theorem scans_testParts : ∀ t : Test, Scans ((testParts t).map Part.blank)
  | .isNull _ | .isNotNull _ => .columnBetween (by decide) (by decide) .nil
  | .compare _ op v ignoreCase => by
    refine .columnBetween (by cases ignoreCase <;> decide) ?_ (.placeholder v)
    refine .append (.append (.append ?_ (by decide)) (quiet_comparisonSign op)) (by decide)
    cases ignoreCase <;> decide
  | .like _ _ ignoreCase castToText => by
    refine .columnBetween ?_ ?_ (.of_silent fun p hp => ?_)
    · cases ignoreCase <;> cases castToText <;> decide
    · cases ignoreCase <;> cases castToText <;> decide
    · cases List.mem_singleton.1 hp
      trivial
  | .oneOf _ vs => .columnBetween (by decide) (by decide) (.placeholders_closing vs)

theorem scans_atom : ∀ a : Atom, Scans ((Token.atom a).parts.map Part.blank)
  | .constant true | .constant false => .of_silent (by decide)
  | .test t => scans_testParts t
  | .noneOf _ vs => .columnBetween (by decide) (by decide) (.placeholders_closing vs)

/-- The placeholders of a phrase are found. A connective and a parenthesis keep those before them
apart from what comes behind. -/
theorem Reads.scans {r : Rank} {ts : List Token} {f : Formula} (h : Reads r ts f) :
    Scans ((ts.flatMap Token.parts).map Part.blank) := by
  induction h with
  | atom a =>
    rw [List.flatMap_singleton]
    exact scans_atom a
  | not h ih => exact .cons_plain (s := "NOT ") (by decide) ih
  | @group ts f h ih =>
    have hopen := Scans.cons_plain (s := "(") (by decide) <|
      ih.append_plain (s := ")") (by decide) (by decide) .nil
    simpa [enclose, Token.parts, Token.pieces, Part.blank] using hopen
  | operand h ih | conjunction h ih => exact ih
  | and hf hg ihf ihg =>
    rw [List.flatMap_append, List.map_append]
    exact ihf.append_plain (s := " AND ") (by decide) (by decide) ihg
  | or hf hg ihf ihg =>
    rw [List.flatMap_append, List.map_append]
    exact ihf.append_plain (s := " OR ") (by decide) (by decide) ihg

theorem parameters_columnBetween (before after : String) (c : Column) (ps : List Piece) :
    parameters ((columnBetween before c after ps).map Part.blank) = parameters ps := by
  have hcolumn : parameters ((columnParts c).map Part.blank) = [] :=
    (markers_silent (List.forall_mem_map.2 fun part h => (inert_columnParts c part h).silent)).1
  simp only [columnBetween, List.map_cons, List.map_append, List.cons_append, Part.blank,
    Part.toPiece_plain, Part.map_toPiece_piece, parameters, parameters_append]
  rw [hcolumn, List.nil_append]

/-- Leaving out names takes no value away. -/
theorem parameters_tokenParts (t : Token) : parameters (t.parts.map Part.blank) = t.values := by
  match t with
  | .atom (.test t) =>
    cases t with
    | oneOf c vs => exact (parameters_columnBetween _ _ c _).trans (parameters_list vs _)
    | isNull | isNotNull | compare | like => exact parameters_columnBetween _ _ _ _
  | .atom (.noneOf c vs) => exact (parameters_columnBetween _ _ c _).trans (parameters_list vs _)
  | .atom (.constant true) | .atom (.constant false) | .not | .connective .and | .connective .or
  | .opening | .closing => rfl

/-- The placeholders of the condition are found, one for each value. -/
theorem scans_conditionParts (p : Predicate) : Scans ((conditionParts p).map Part.blank) ∧
    parameters ((conditionParts p).map Part.blank) = p.values := by
  have htokens : Scans (.plain " WHERE " :: ((tokens p).flatMap Token.parts).map Part.blank) ∧
      parameters (((tokens p).flatMap Token.parts).map Part.blank) = p.values := by
    obtain ⟨f, hf, -⟩ := (readable p).alone
    refine ⟨.cons_plain (by decide) hf.scans, ?_⟩
    rw [List.map_flatMap, parameters_flatMap parameters_tokenParts, values_tokens]
  cases p with
  | always => exact ⟨.nil, rfl⟩
  | test _ | not _ | compound _ _ => exact htokens

/-- **Placeholders line up with values.** Outside literals, the names of attributes and the name of
the root type, the placeholders in the text of a query are numbered from one in their order. There
is one for each value that the query is run with, and the values are those of the predicate from
left to right. -/
theorem markers_toText (q : Query) :
    textWithout [] q = toText q ∧
    (∀ kind s, .name kind s ∈ parts q →
      kind = .attribute ∧ s ∈ attributeNames q ∨ kind = .type ∧ s = q.plan.root) ∧
    markers false (textWithout [.attribute, .type] q).toList = numbersFrom 1 (values q).length ∧
    values q = q.predicate.values := by
  refine ⟨textWithout_nil q, fun kind s => name_of_mem_parts, ?_, values_eq q⟩
  obtain ⟨hscans, hvalues⟩ := scans_conditionParts q.predicate
  have hhead : ∀ p ∈ (headParts q).map Part.blank, p.Silent :=
    List.forall_mem_map.2 fun part h => (inert_headParts q part h).silent
  have hfound := Scans.append_of_silent hhead hscans 1 [] nofun
  rw [List.append_nil, parameters_append, (markers_silent hhead).1, List.nil_append, hvalues,
    ← values_eq, markers, List.append_nil, ← List.map_append] at hfound
  exact hfound

/-- A question mark in a literal is no placeholder. -/
theorem markers_toText_literal :
    let name : Column := ⟨.root, ["name"]⟩
    let isMarked : Predicate := .test (.like name "?9" false false)
    let isListed : Predicate := .test (.oneOf name [.text "a", .text "b"])
    let q : Query := ⟨.start "Employee" none, .compound .or [isMarked, isListed], .rows⟩
    toText q = "SELECT t0 FROM Employee t0 WHERE t0.name LIKE '?9' OR t0.name IN (?1, ?2)" ∧
    .name .attribute "name" ∈ parts q ∧ "name" ∈ attributeNames q ∧
    markers false (textWithout [.attribute, .type] q).toList = ["1", "2"] ∧
    values q = [.text "a", .text "b"] := by
  intro name isMarked isListed q
  obtain ⟨-, hnames, hmarkers, -⟩ := markers_toText q
  have hname : .name .attribute "name" ∈ parts q := by decide +kernel
  have hattribute : "name" ∈ attributeNames q := by
    rcases hnames .attribute "name" hname with ⟨-, h⟩ | ⟨h, -⟩
    · exact h
    · cases h
  have htwo : values q = [.text "a", .text "b"] := by decide +kernel
  rw [htwo] at hmarkers
  exact ⟨by decide +kernel, hname, hattribute, hmarkers, htwo⟩

/-- The name of the root type has to be left out, since it is written as it is and may look like a
placeholder. -/
theorem not_markers_of_root : ¬∀ q : Query,
    markers false (textWithout [.attribute] q).toList = numbersFrom 1 (values q).length := by
  intro h
  have hroot := h ⟨.start "?1" none, .always, .rows⟩
  exact absurd hroot (by decide)

end Sql

end QueryFilter
