import Mathlib.Data.List.Nodup
import Mathlib.Data.List.Induction
import QueryFilter.Proofs.JoinPlan
import QueryFilter.Proofs.Tokens

/-!
# Aliases in the text of a query

The text of a query declares an alias for the root type and for each join, and names columns by
these aliases. The text is taken apart into fragments, so that it shows where an alias stands, and
the fragments are read with the aliases declared so far. What is selected stands in front of the
clauses that it is selected from, so it may use the alias of the root type before that is declared.

* `Sql.fragments`: the text of a query, with the aliases marked;
* `Sql.write_fragments`: the fragments are written as the query is;
* `Sql.WellScoped`: each alias is declared once, and before it is used in the clauses;
* `Sql.readAliases`: fragments are read one by one, with the aliases declared so far;
* `Source.alias_injective`: sources have different aliases;
* `Sql.wellScoped_query`: a query whose sources are there is well scoped.
-/

namespace QueryFilter

/-! ### Aliases of sources -/

/-- The number in the alias of a source. -/
def Source.number : Source → Nat
  | root => 0
  | joined i => i + 1

theorem Source.alias_eq_number (s : Source) : s.alias = "t" ++ toString s.number := by
  cases s <;> rfl

/-- Different sources have different aliases. -/
theorem Source.alias_injective : Function.Injective Source.alias := by
  intro s s' h
  rw [alias_eq_number, alias_eq_number] at h
  have hdigits : Nat.toDigits 10 s.number = Nat.toDigits 10 s'.number := by
    simpa [Nat.toString_eq_ofList_toDigits] using congrArg String.toList h
  have hnumber : s.number = s'.number := by
    simpa using congrArg (Nat.ofDigitChars 10 · 0) hdigits
  cases s <;> cases s' <;> simp_all [number]

/-- The aliases of the root type and of the first joins. -/
def aliasesBelow (n : Nat) : List String :=
  Source.root.alias :: (List.range n).map fun i => (Source.joined i).alias

theorem aliasesBelow_succ (n : Nat) :
    aliasesBelow (n + 1) = aliasesBelow n ++ [(Source.joined n).alias] := by
  simp [aliasesBelow, List.range_succ]

theorem alias_mem_aliasesBelow {n : Nat} {s : Source} :
    s.alias ∈ aliasesBelow n ↔ s.IsBelow n := by
  simp only [aliasesBelow, List.mem_cons, List.mem_map, List.mem_range,
    Source.alias_injective.eq_iff]
  cases s <;> simp

namespace Sql

/-! ### Fragments -/

/-- A part of the text of a query: a piece of it, or an alias that is declared or used there. -/
inductive Fragment
  | piece (p : Piece)
  | declares (s : Source)
  | uses (s : Source)
  deriving DecidableEq, Repr

namespace Fragment

/-- Plain text. -/
def plain (text : String) : Fragment := piece (.plain text)

/-- The piece that a fragment is written as. -/
def toPiece : Fragment → Piece
  | piece p => p
  | declares s | uses s => .plain s.alias

end Fragment

/-- A column: the alias of its source, and the names behind it. -/
def columnFragments (c : Column) : List Fragment :=
  [.uses c.source, .plain (String.join (c.segments.map ("." ++ ·)))]

/-- Fragments inside a call of a function. -/
def callIf (condition : Bool) (opening closing : String) (fs : List Fragment) : List Fragment :=
  if condition then .plain opening :: fs ++ [.plain closing] else fs

/-- The fragments of a membership test. -/
def membershipFragments (c : Column) (keyword : String) (values : List Value) : List Fragment :=
  columnFragments c ++ .plain (" " ++ keyword ++ " (") ::
    (placeholders values).map .piece ++ [.plain ")"]

/-- The fragments of a test. -/
def testFragments : Test → List Fragment
  | .isNull c => columnFragments c ++ [.plain " IS NULL"]
  | .isNotNull c => columnFragments c ++ [.plain " IS NOT NULL"]
  | .compare c op v ignoreCase =>
    callIf ignoreCase "lower(" ")" (columnFragments c) ++
      [.plain (" " ++ comparisonSign op ++ " "), .piece (.placeholder v)]
  | .like c pattern ignoreCase castToText =>
    callIf ignoreCase "lower(" ")" (callIf castToText "CAST(" " AS text)" (columnFragments c)) ++
      [.plain " LIKE ", .piece (.pattern pattern)]
  | .oneOf c vs => membershipFragments c "IN" vs

/-- The fragments of a token. -/
def Token.fragments : Token → List Fragment
  | .atom (.constant value) => (Atom.constant value).pieces.map .piece
  | .atom (.test t) => testFragments t
  | .atom (.noneOf c vs) => membershipFragments c "NOT IN" vs
  | .not => Token.not.pieces.map .piece
  | .connective op => (Token.connective op).pieces.map .piece
  | .opening => Token.opening.pieces.map .piece
  | .closing => Token.closing.pieces.map .piece

/-- The fragments of the condition. -/
def conditionFragments : Predicate → List Fragment
  | .always => []
  | p => .plain " WHERE " :: (tokens p).flatMap Token.fragments

/-- The fragments of a join, which declares the alias of its id. -/
def joinFragments (j : Join) : List Fragment :=
  [.plain (" " ++ j.type.keyword ++ " "), .uses j.key.source,
    .plain ("." ++ String.intercalate "." j.key.path ++ " "), .declares (.joined j.id)]

/-- The fragments in front of `FROM`. -/
def selectFragments (q : Query) : List Fragment :=
  match q.projection, q.plan.distinct, q.plan.primaryKey with
  | .rows, true, _ => [.plain "SELECT DISTINCT ", .uses .root]
  | .rows, false, _ => [.plain "SELECT ", .uses .root]
  | .count, true, some pk =>
    [.plain "SELECT COUNT(DISTINCT ", .uses .root, .plain ("." ++ pk ++ ")")]
  | .count, _, _ => [.plain "SELECT COUNT(*)"]

/-- The fragments from `FROM` on. -/
def clauseFragments (q : Query) : List Fragment :=
  .plain (" FROM " ++ q.plan.root ++ " ") :: .declares .root ::
    q.plan.joins.flatMap joinFragments ++ conditionFragments q.predicate

/-- The fragments of a query, in the order of its text. -/
def fragments (q : Query) : List Fragment := selectFragments q ++ clauseFragments q

/-! ### The text of fragments -/

/-- Two lists of pieces with the same text, wherever they stand. -/
def SameText (ps qs : List Piece) : Prop :=
  ∀ n rest, write n (ps ++ rest) = write n (qs ++ rest)

theorem intercalate_cons (sep s : String) (ss : List String) :
    String.intercalate sep (s :: ss) = s ++ String.join (ss.map (sep ++ ·)) := by
  induction ss generalizing s with
  | nil => simp
  | cons t ss ih =>
    rw [String.intercalate_cons_cons, ih, List.map_cons, String.join_cons, String.append_assoc,
      String.append_assoc]

theorem columnText_eq (c : Column) :
    columnText c = c.source.alias ++ String.join (c.segments.map ("." ++ ·)) :=
  intercalate_cons ..

theorem sameText_membership (c : Column) (keyword : String) (vs : List Value) :
    SameText ((membershipFragments c keyword vs).map Fragment.toPiece)
      (membership c keyword vs) := by
  intro n rest
  simp [membershipFragments, membership, columnFragments, Fragment.plain, Fragment.toPiece, write,
    columnText_eq, String.append_assoc, Function.comp_def]

theorem sameText_test (t : Test) :
    SameText ((testFragments t).map Fragment.toPiece) (testPieces t) := by
  cases t with
  | oneOf c vs => exact sameText_membership c "IN" vs
  | isNull c | isNotNull c =>
    intro n rest
    simp [testFragments, testPieces, columnFragments, Fragment.plain, Fragment.toPiece, write,
      columnText_eq, String.append_assoc]
  | compare c op v ignoreCase =>
    intro n rest
    cases ignoreCase <;>
    simp [testFragments, testPieces, columnFragments, callIf, lowered, Fragment.plain,
      Fragment.toPiece, write, columnText_eq, String.append_assoc, -String.reduceAppend]
  | like c pattern ignoreCase castToText =>
    intro n rest
    cases ignoreCase <;> cases castToText <;>
    simp [testFragments, testPieces, columnFragments, callIf, lowered, Fragment.plain,
      Fragment.toPiece, write, columnText_eq, String.append_assoc, -String.reduceAppend]

theorem sameText_pieces (ps : List Piece) :
    SameText ((ps.map Fragment.piece).map Fragment.toPiece) ps := by
  intro n rest
  simp [Function.comp_def, Fragment.toPiece]

theorem sameText_token (t : Token) :
    SameText (t.fragments.map Fragment.toPiece) t.pieces :=
  match t with
  | .atom (.test t) => sameText_test t
  | .atom (.noneOf c vs) => sameText_membership c "NOT IN" vs
  | .atom (.constant _) | .not | .connective _ | .opening | .closing => sameText_pieces _

/-- What comes before changes the numbers of the placeholders behind it, and nothing else. -/
theorem write_append_congr {ps qs : List Piece} (h : ∀ n, write n ps = write n qs) (n : Nat)
    (before : List Piece) : write n (before ++ ps) = write n (before ++ qs) := by
  induction before generalizing n with
  | nil => exact h n
  | cons p before ih => cases p <;> simp [write, ih]

theorem SameText.append {ps qs ps' qs' : List Piece} (h : SameText ps qs)
    (h' : SameText ps' qs') : SameText (ps ++ ps') (qs ++ qs') := by
  intro n rest
  rw [List.append_assoc, List.append_assoc, h n]
  exact write_append_congr (fun m => h' m rest) n qs

/-- Parts that have the text of pieces each have it one after the other. -/
theorem sameText_flatMap {α β : Type} {f : α → List β} {g : β → Piece} {ps : α → List Piece}
    (h : ∀ a, SameText ((f a).map g) (ps a)) (as : List α) :
    SameText ((as.flatMap f).map g) (as.flatMap ps) := by
  induction as with
  | nil => exact fun _ _ => rfl
  | cons a as ih =>
    rw [List.flatMap_cons, List.map_append, List.flatMap_cons]
    exact (h a).append ih

theorem sameText_condition (p : Predicate) :
    SameText ((conditionFragments p).map Fragment.toPiece) (condition p) := by
  have htokens (p : Predicate) (n : Nat) (rest : List Piece) :
      " WHERE " ++ write n (((tokens p).flatMap Token.fragments).map Fragment.toPiece ++ rest) =
        " WHERE " ++ write n ((tokens p).flatMap Token.pieces ++ rest) := by
    rw [sameText_flatMap sameText_token]
  cases p with
  | always => exact fun _ _ => rfl
  | test _ | not _ | compound _ _ => exact htokens _

theorem sameText_join (j : Join) :
    SameText ((joinFragments j).map Fragment.toPiece) [.plain (joinText j)] := by
  intro n rest
  simp [joinFragments, joinText, Fragment.plain, Fragment.toPiece, write, String.append_assoc,
    -String.reduceAppend]

/-- Texts one after the other are one text. -/
theorem sameText_plain (texts : List String) :
    SameText (texts.map Piece.plain) [.plain (String.join texts)] := by
  intro n rest
  induction texts with
  | nil => simp [write]
  | cons t ts ih =>
    rw [List.map_cons, List.cons_append, write, ih]
    simp [write, String.append_assoc]

/-- Parts that have the text of a join each have that of all joins. -/
theorem sameText_joins {β : Type} {f : Join → List β} {g : β → Piece}
    (h : ∀ j, SameText ((f j).map g) [.plain (joinText j)]) (joins : List Join) :
    SameText ((joins.flatMap f).map g) [.plain (joinsText joins)] := by
  intro n rest
  rw [sameText_flatMap h, ← List.map_eq_flatMap, joinsText, ← sameText_plain, List.map_map]
  rfl

theorem sameText_select (q : Query) :
    SameText ((selectFragments q).map Fragment.toPiece) [.plain ("SELECT " ++ selection q)] := by
  intro n rest
  unfold selectFragments selection
  cases q.projection <;> cases q.plan.distinct <;> cases q.plan.primaryKey <;>
    simp [Fragment.plain, Fragment.toPiece, Source.alias, write, ← String.append_assoc]

/-- The fragments of a query are written as the query is. -/
theorem write_fragments (q : Query) :
    write 1 ((fragments q).map Fragment.toPiece) = toText q := by
  have hcondition := sameText_condition q.predicate 1 []
  rw [List.append_nil, List.append_nil] at hcondition
  rw [fragments, clauseFragments, List.map_append, sameText_select]
  simp only [List.map_cons, List.map_append, List.cons_append, List.nil_append, Fragment.plain,
    Fragment.toPiece, write]
  rw [sameText_joins sameText_join]
  simp only [List.cons_append, List.nil_append, write, hcondition]
  have hroot : " t0" = " " ++ Source.root.alias := rfl
  simp [toText, pieces, head, write, hroot, String.append_assoc, -String.reduceAppend]

/-! ### Reading aliases -/

/-- The alias that a fragment declares. -/
def Fragment.declared? : Fragment → Option String
  | piece _ | uses _ => none
  | declares s => some s.alias

/-- The aliases that fragments declare, in order. -/
def declaredAliases (fs : List Fragment) : List String := fs.filterMap Fragment.declared?

/-- What is selected and the clauses behind it declare aliases, each once. An alias is used only
where it is declared before, except that of the root type in what is selected. -/
structure WellScoped (aliases : List String) (select clauses : List Fragment) : Prop where
  declared : declaredAliases (select ++ clauses) = aliases
  nodup : aliases.Nodup
  declared_of_uses : ∀ before s after, select ++ clauses = before ++ .uses s :: after →
    s.alias ∈ declaredAliases before ∨ s = .root ∧ before.length < select.length

/-- Read a fragment where some aliases are declared. A declared alias cannot be declared again,
and only a declared one can be used. -/
def readAlias (declared : List String) : Fragment → Option (List String)
  | .piece _ => some declared
  | .declares s => if s.alias ∈ declared then none else some (declared ++ [s.alias])
  | .uses s => if s.alias ∈ declared then some declared else none

/-- Read fragments one after the other: the aliases that are declared at the end. -/
def readAliases (declared : List String) (fs : List Fragment) : Option (List String) :=
  fs.foldlM readAlias declared

theorem readAliases_append {ds ds' ds'' : List String} {fs gs : List Fragment}
    (h : readAliases ds fs = some ds') (h' : readAliases ds' gs = some ds'') :
    readAliases ds (fs ++ gs) = some ds'' := by
  rw [readAliases] at h
  rw [readAliases, List.foldlM_append, h]
  exact h'

/-- A fragment that is read adds the alias that it declares, and uses one that is declared. -/
theorem of_readAlias_eq_some {ds ds' : List String} {f : Fragment}
    (h : readAlias ds f = some ds') :
    ds' = ds ++ declaredAliases [f] ∧ (ds.Nodup → ds'.Nodup) ∧ ∀ s, f = .uses s → s.alias ∈ ds := by
  cases f with
  | piece p =>
    cases h
    exact ⟨(List.append_nil _).symm, id, nofun⟩
  | declares s =>
    rw [readAlias, Option.ite_none_left_eq_some] at h
    obtain ⟨hnew, h⟩ := h
    cases h
    refine ⟨rfl, fun hds => List.nodup_append.2 ⟨hds, List.nodup_singleton _, ?_⟩, nofun⟩
    rintro a ha b hb rfl
    exact hnew (List.mem_singleton.1 hb ▸ ha)
  | uses s =>
    rw [readAlias, Option.ite_none_right_eq_some] at h
    obtain ⟨hs, h⟩ := h
    cases h
    refine ⟨(List.append_nil _).symm, id, fun s' heq => ?_⟩
    cases heq
    exact hs

theorem of_readAliases_eq_some {ds ds' : List String} {fs : List Fragment}
    (h : readAliases ds fs = some ds') :
    ds' = ds ++ declaredAliases fs ∧ (ds.Nodup → ds'.Nodup) ∧
      ∀ before s after, fs = before ++ .uses s :: after →
        s.alias ∈ ds ++ declaredAliases before := by
  induction fs generalizing ds with
  | nil =>
    cases h
    exact ⟨(List.append_nil _).symm, id, fun before s after heq => by simp at heq⟩
  | cons f fs ih =>
    obtain ⟨ds₁, hf, h⟩ := Option.bind_eq_some_iff.1 h
    obtain ⟨rfl, hnodup₁, huses₁⟩ := of_readAlias_eq_some hf
    obtain ⟨rfl, hnodup, huses⟩ := ih h
    have hcons (gs : List Fragment) :
        ds ++ declaredAliases [f] ++ declaredAliases gs = ds ++ declaredAliases (f :: gs) := by
      rw [List.append_assoc, declaredAliases, declaredAliases, ← List.filterMap_append]
      rfl
    refine ⟨hcons fs, fun hds => hnodup (hnodup₁ hds), fun before s after heq => ?_⟩
    cases before with
    | nil =>
      cases heq
      exact List.mem_append_left _ (huses₁ s rfl)
    | cons g before =>
      cases heq
      exact hcons before ▸ huses before s after rfl

/-- Clauses that can be read are well scoped, whatever pieces and uses of the root type are
selected in front of them. -/
theorem wellScoped_of_readAliases {aliases : List String} {select clauses : List Fragment}
    (hselect : ∀ f ∈ select, (∃ p, f = .piece p) ∨ f = .uses .root)
    (hclauses : readAliases [] clauses = some aliases) : WellScoped aliases select clauses := by
  obtain ⟨hdeclared, hnodup, huses⟩ := of_readAliases_eq_some hclauses
  have hnone : declaredAliases select = [] := by
    refine List.filterMap_eq_nil_iff.2 fun f hf => ?_
    rcases hselect f hf with ⟨p, rfl⟩ | rfl <;> rfl
  have happend (fs : List Fragment) : declaredAliases (select ++ fs) = declaredAliases fs := by
    rw [declaredAliases, List.filterMap_append, ← declaredAliases, hnone, List.nil_append]
    rfl
  refine ⟨(happend clauses).trans hdeclared.symm, hnodup List.nodup_nil, ?_⟩
  intro before s after heq
  rcases List.append_eq_append_iff.1 heq with ⟨between, rfl, hbetween⟩ | ⟨rest, hrest, hbehind⟩
  · -- in the clauses
    rw [happend]
    exact .inl (huses between s after hbetween)
  · cases rest with
    | nil =>
      -- in front of all clauses nothing is declared that could be used
      exact absurd (huses [] s after hbehind.symm) List.not_mem_nil
    | cons f rest =>
      -- in what is selected
      obtain rfl : .uses s = f := (List.cons.inj hbehind).1
      rcases hselect (.uses s) (by simp [hrest]) with ⟨p, hp⟩ | hroot
      · cases hp
      · cases hroot
        exact .inr ⟨rfl, by simp [hrest]⟩

/-- Fragments that declare nothing, and use what is declared. -/
theorem readAliases_of_uses {declared : List String} {fs : List Fragment}
    (h : ∀ f ∈ fs, (∃ p, f = .piece p) ∨ ∃ s, f = .uses s ∧ s.alias ∈ declared) :
    readAliases declared fs = some declared := by
  induction fs with
  | nil => rfl
  | cons f fs ih =>
    have hf : readAlias declared f = some declared := by
      rcases h f List.mem_cons_self with ⟨p, rfl⟩ | ⟨s, rfl, hs⟩
      · rfl
      · exact if_pos hs
    rw [readAliases, List.foldlM_cons, hf]
    exact ih fun g hg => h g (List.mem_cons_of_mem f hg)

theorem readAliases_join {n : Nat} {j : Join} (hid : j.id = n) (hsource : j.key.source.IsBelow n) :
    readAliases (aliasesBelow n) (joinFragments j) = some (aliasesBelow (n + 1)) := by
  have hused : j.key.source.alias ∈ aliasesBelow n := alias_mem_aliasesBelow.2 hsource
  have hnew : (Source.joined n).alias ∉ aliasesBelow n := fun h =>
    Nat.lt_irrefl n (alias_mem_aliasesBelow.1 h)
  simp [readAliases, joinFragments, Fragment.plain, readAlias, hid, hused, hnew, aliasesBelow_succ]

theorem readAliases_joins {joins : List Join}
    (h : ∀ i (j : Join), joins[i]? = some j → j.id = i ∧ j.key.source.IsBelow i) :
    readAliases (aliasesBelow 0) (joins.flatMap joinFragments) =
      some (aliasesBelow joins.length) := by
  induction joins using List.reverseRecOn with
  | nil => rfl
  | append_singleton joins j ih =>
    have hbefore : ∀ i (k : Join), joins[i]? = some k → k.id = i ∧ k.key.source.IsBelow i :=
      fun i k hk =>
        h i k (by rw [List.getElem?_append_left (List.getElem?_eq_some_iff.1 hk).1, hk])
    obtain ⟨hid, hsource⟩ := h joins.length j (by simp)
    rw [List.flatMap_append, List.flatMap_singleton, List.length_append]
    exact readAliases_append (ih hbefore) (readAliases_join hid hsource)

/-! ### Sources in use -/

/-- Fragments that declare nothing, and use the sources of some columns. -/
def ReadsOnly (columns : List Column) (fs : List Fragment) : Prop :=
  ∀ f ∈ fs, (∃ p, f = .piece p) ∨ ∃ c ∈ columns, f = .uses c.source

theorem ReadsOnly.mono {columns columns' : List Column} {fs : List Fragment}
    (h : ReadsOnly columns fs) (hsub : ∀ c ∈ columns, c ∈ columns') : ReadsOnly columns' fs :=
  fun f hf => (h f hf).imp_right fun ⟨c, hc, hcf⟩ => ⟨c, hsub c hc, hcf⟩

theorem readsOnly_pieces (columns : List Column) (ps : List Piece) :
    ReadsOnly columns (ps.map .piece) := by
  intro f hf
  obtain ⟨p, -, rfl⟩ := List.mem_map.1 hf
  exact .inl ⟨p, rfl⟩

theorem readsOnly_membership (c : Column) (keyword : String) (vs : List Value) :
    ReadsOnly [c] (membershipFragments c keyword vs) := by
  intro f hf
  simp only [membershipFragments, columnFragments, Fragment.plain, List.mem_append,
    List.mem_cons, List.mem_map] at hf
  grind

theorem readsOnly_test (t : Test) : ReadsOnly [t.column] (testFragments t) := by
  cases t with
  | oneOf c vs => exact readsOnly_membership c "IN" vs
  | isNull | isNotNull | compare | like =>
    intro f hf
    simp only [testFragments, callIf, columnFragments, Fragment.plain, Test.column] at hf ⊢
    grind

/-- The column of a token. -/
def Token.columns : Token → List Column
  | .atom (.test t) => [t.column]
  | .atom (.noneOf c _) => [c]
  | _ => []

theorem readsOnly_token (t : Token) : ReadsOnly t.columns t.fragments :=
  match t with
  | .atom (.test t) => readsOnly_test t
  | .atom (.noneOf c vs) => readsOnly_membership c "NOT IN" vs
  | .atom (.constant _) | .not | .connective _ | .opening | .closing => readsOnly_pieces _ _

theorem columns_eq_map_tests (t : Token) : t.columns = t.tests.map Test.column :=
  match t with
  | .atom (.test _) | .atom (.noneOf _ _) | .atom (.constant _) | .not | .connective _ | .opening
  | .closing => rfl

/-- The tokens of a predicate read its columns. -/
theorem columns_of_mem_tokens {p : Predicate} {t : Token} (h : t ∈ tokens p) {c : Column}
    (hc : c ∈ t.columns) : c ∈ p.columns := by
  rw [columns_eq_map_tests] at hc
  obtain ⟨u, hu, rfl⟩ := List.mem_map.1 hc
  rw [Predicate.columns_eq_map_tests, ← tests_tokens]
  exact List.mem_map_of_mem (List.mem_flatMap.2 ⟨t, h, hu⟩)

/-- The condition of a query reads the columns of its predicate. -/
theorem readsOnly_condition (p : Predicate) : ReadsOnly p.columns (conditionFragments p) := by
  have htokens (p : Predicate) :
      ReadsOnly p.columns (.plain " WHERE " :: (tokens p).flatMap Token.fragments) := by
    intro f hf
    rcases List.mem_cons.1 hf with rfl | hf
    · exact .inl ⟨_, rfl⟩
    · obtain ⟨t, ht, hf⟩ := List.mem_flatMap.1 hf
      exact (readsOnly_token t).mono (fun c hc => columns_of_mem_tokens ht hc) f hf
  cases p with
  | always =>
    intro f hf
    cases hf
  | test _ | not _ | compound _ _ => exact htokens _

/-- What is selected names no source but the root type. -/
theorem piece_or_uses_root_of_mem_select {q : Query} {f : Fragment} (h : f ∈ selectFragments q) :
    (∃ p, f = .piece p) ∨ f = .uses .root := by
  unfold selectFragments at h
  simp only [Fragment.plain] at h
  split at h <;> simp only [List.mem_cons, List.not_mem_nil, or_false] at h <;> grind

/-- **Aliases are declared once and before they are used.** A query whose sources are there declares
the aliases of its root type and of its joins, each once and before its first use in the clauses.
What is selected in front of them names the root type only. -/
theorem wellScoped_query {q : Query} (hplan : q.plan.Grounded)
    (hcolumns : ∀ c ∈ q.predicate.columns, c.source.IsBelow q.plan.joins.length) :
    WellScoped (aliasesBelow q.plan.joins.length) (selectFragments q) (clauseFragments q) := by
  have hroot : readAliases [] [.plain (" FROM " ++ q.plan.root ++ " "), .declares .root] =
      some (aliasesBelow 0) := rfl
  have hjoins := readAliases_joins fun i j hj => ⟨hplan.id i j hj, hplan.source i j hj⟩
  have hcondition : readAliases (aliasesBelow q.plan.joins.length)
      (conditionFragments q.predicate) = some (aliasesBelow q.plan.joins.length) := by
    refine readAliases_of_uses fun f hf => ?_
    rcases readsOnly_condition q.predicate f hf with hp | ⟨c, hc, rfl⟩
    · exact .inl hp
    · exact .inr ⟨_, rfl, alias_mem_aliasesBelow.2 (hcolumns c hc)⟩
  exact wellScoped_of_readAliases (fun f => piece_or_uses_root_of_mem_select)
    (readAliases_append (readAliases_append hroot hjoins) hcondition)

end Sql

end QueryFilter
