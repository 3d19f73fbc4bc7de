import QueryFilter.Proofs.Aliases

/-!
# Names in the text of a query

The names of attributes and of the root type are written as they are. The text of a query is taken
apart into these names and what stands between them, so that it can be read without the names.

* `Sql.parts`: the text of a query, with the names in it marked;
* `Sql.textWithout_nil`: the parts are written as the query is;
* `Part.Inert`: the parts up to the condition are names and fixed texts;
* `Sql.name_of_mem_parts`: which names stand in the text.
-/

namespace QueryFilter

namespace Sql

/-! ### Parts -/

/-- What a name in the text of a query names. -/
inductive NameKind
  | attribute
  | type
  deriving DecidableEq, Repr

/-- A part of the text of a query: a piece of it, or a name. -/
inductive Part
  | piece (p : Piece)
  | name (kind : NameKind) (text : String)
  deriving DecidableEq, Repr

namespace Part

/-- Plain text. -/
def plain (text : String) : Part := piece (.plain text)

/-- The piece that a part is written as. A name of a hidden kind leaves a blank. -/
def toPiece (hidden : List NameKind) : Part → Piece
  | piece p => p
  | name kind text => .plain (if kind ∈ hidden then " " else text)

@[simp] theorem toPiece_piece (hidden : List NameKind) (p : Piece) :
    (piece p).toPiece hidden = p := rfl

@[simp] theorem toPiece_plain (hidden : List NameKind) (text : String) :
    (plain text).toPiece hidden = .plain text := rfl

@[simp] theorem toPiece_name_nil (kind : NameKind) (text : String) :
    (name kind text).toPiece [] = .plain text := rfl

/-- Pieces are written as they are, whatever is hidden. -/
@[simp] theorem map_toPiece_piece (hidden : List NameKind) (ps : List Piece) :
    (ps.map piece).map (toPiece hidden) = ps := by
  rw [List.map_map]
  exact List.map_id ps

end Part

/-- The parts of a column. -/
def columnParts (c : Column) : List Part :=
  .plain c.source.alias :: c.segments.flatMap fun s => [.plain ".", .name .attribute s]

/-- A column between texts, and pieces behind it. -/
def columnBetween (before : String) (c : Column) (after : String) (ps : List Piece) : List Part :=
  .plain before :: columnParts c ++ .plain after :: ps.map .piece

/-- The parts of a test. -/
def testParts : Test → List Part
  | .isNull c => columnBetween "" c " IS NULL" []
  | .isNotNull c => columnBetween "" c " IS NOT NULL" []
  | .compare c op v ignoreCase =>
    columnBetween (if ignoreCase then "lower(" else "") c
      ((if ignoreCase then ")" else "") ++ " " ++ comparisonSign op ++ " ") [.placeholder v]
  | .like c pattern ignoreCase castToText =>
    columnBetween ((if ignoreCase then "lower(" else "") ++ if castToText then "CAST(" else "") c
      ((if castToText then " AS text)" else "") ++ (if ignoreCase then ")" else "") ++ " LIKE ")
      [.pattern pattern]
  | .oneOf c vs => columnBetween "" c " IN (" (placeholders vs ++ [.plain ")"])

/-- The parts of a token. -/
def Token.parts : Token → List Part
  | .atom (.constant value) => (Atom.constant value).pieces.map .piece
  | .atom (.test t) => testParts t
  | .atom (.noneOf c vs) => columnBetween "" c " NOT IN (" (placeholders vs ++ [.plain ")"])
  | .not => Token.not.pieces.map .piece
  | .connective op => (Token.connective op).pieces.map .piece
  | .opening => Token.opening.pieces.map .piece
  | .closing => Token.closing.pieces.map .piece

/-- The parts of the condition. -/
def conditionParts : Predicate → List Part
  | .always => []
  | p => .plain " WHERE " :: (tokens p).flatMap Token.parts

/-- The parts of a path of attribute names. -/
def pathParts : List String → List Part
  | [] => []
  | [s] => [.name .attribute s]
  | s :: ss => .name .attribute s :: .plain "." :: pathParts ss

/-- The parts of a join. -/
def joinParts (j : Join) : List Part :=
  .plain (" " ++ j.type.keyword ++ " " ++ j.key.source.alias ++ ".") :: pathParts j.key.path ++
    [.plain (" " ++ (Source.joined j.id).alias)]

/-- The parts between `SELECT` and `FROM`. -/
def selectionParts (q : Query) : List Part :=
  match q.projection, q.plan.distinct, q.plan.primaryKey with
  | .rows, true, _ => [.plain "DISTINCT t0"]
  | .rows, false, _ => [.plain "t0"]
  | .count, true, some pk => [.plain "COUNT(DISTINCT t0.", .name .attribute pk, .plain ")"]
  | .count, _, _ => [.plain "COUNT(*)"]

/-- The parts up to the condition. -/
def headParts (q : Query) : List Part :=
  .plain "SELECT " :: selectionParts q ++
    [.plain " FROM ", .name .type q.plan.root, .plain " t0"] ++
    q.plan.joins.flatMap joinParts

/-- The parts of a query. -/
def parts (q : Query) : List Part := headParts q ++ conditionParts q.predicate

/-- The text of a query with names of the hidden kinds left out. -/
def textWithout (hidden : List NameKind) (q : Query) : String :=
  write 1 ((parts q).map (Part.toPiece hidden))

/-! ### With no name left out, the parts are the text -/

theorem SameText.refl (ps : List Piece) : SameText ps ps := fun _ _ => rfl

theorem write_columnParts (c : Column) (n : Nat) (rest : List Piece) :
    write n ((columnParts c).map (Part.toPiece []) ++ rest) = columnText c ++ write n rest := by
  have hsegments (ss : List String) :
      write n ((ss.flatMap fun s => [Part.plain ".", .name .attribute s]).map (Part.toPiece []) ++
        rest) = String.join (ss.map ("." ++ ·)) ++ write n rest := by
    induction ss with
    | nil => simp
    | cons s ss ih => simp [write, ih, String.append_assoc]
  rw [columnParts, List.map_cons, List.cons_append, Part.toPiece_plain, write, hsegments,
    columnText_eq, String.append_assoc]

theorem sameText_columnBetween (before : String) (c : Column) (after : String) (ps : List Piece) :
    SameText ((columnBetween before c after ps).map (Part.toPiece []))
      (.plain (before ++ columnText c ++ after) :: ps) := by
  intro n rest
  simp only [columnBetween, List.map_cons, List.map_append, List.cons_append, List.append_assoc,
    Part.map_toPiece_piece, Part.toPiece_plain, write, write_columnParts, String.append_assoc]

theorem sameText_membershipParts (c : Column) (keyword : String) (vs : List Value) :
    SameText ((columnBetween "" c (" " ++ keyword ++ " (") (placeholders vs ++ [.plain ")"])).map
      (Part.toPiece [])) (membership c keyword vs) := by
  intro n rest
  rw [sameText_columnBetween, membership]
  simp [String.append_assoc]

theorem sameText_testParts (t : Test) :
    SameText ((testParts t).map (Part.toPiece [])) (testPieces t) := by
  cases t with
  | oneOf c vs => exact sameText_membershipParts c "IN" vs
  | isNull c | isNotNull c =>
    intro n rest
    rw [testParts, sameText_columnBetween, String.empty_append, testPieces]
  | compare c op v ignoreCase =>
    intro n rest
    rw [testParts, sameText_columnBetween, testPieces]
    cases ignoreCase <;> simp [lowered, write, String.append_assoc, -String.reduceAppend]
  | like c pattern ignoreCase castToText =>
    intro n rest
    rw [testParts, sameText_columnBetween, testPieces]
    cases ignoreCase <;> cases castToText <;>
      simp [lowered, write, String.append_assoc, -String.reduceAppend]

theorem sameText_tokenParts (t : Token) :
    SameText (t.parts.map (Part.toPiece [])) t.pieces :=
  match t with
  | .atom (.test t) => sameText_testParts t
  | .atom (.noneOf c vs) => sameText_membershipParts c "NOT IN" vs
  | .atom (.constant _) | .not | .connective _ | .opening | .closing => by
    rw [Token.parts, Part.map_toPiece_piece]
    exact fun _ _ => rfl

theorem sameText_conditionParts (p : Predicate) :
    SameText ((conditionParts p).map (Part.toPiece [])) (condition p) := by
  cases p with
  | always => exact fun _ _ => rfl
  | test _ | not _ | compound _ _ =>
    exact (SameText.refl [.plain " WHERE "]).append (sameText_flatMap sameText_tokenParts _)

theorem write_pathParts (path : List String) (n : Nat) (rest : List Piece) :
    write n ((pathParts path).map (Part.toPiece []) ++ rest) =
      String.intercalate "." path ++ write n rest := by
  induction path using pathParts.induct with
  | case1 => simp [pathParts]
  | case2 s => simp [pathParts, write]
  | case3 s ss hne ih =>
    obtain ⟨t, ts, rfl⟩ := List.exists_cons_of_ne_nil hne
    rw [String.intercalate_cons_cons, String.append_assoc, String.append_assoc, ← ih]
    simp [pathParts, write]

theorem sameText_joinParts (j : Join) :
    SameText ((joinParts j).map (Part.toPiece [])) [.plain (joinText j)] := by
  intro n rest
  simp [joinParts, joinText, write, write_pathParts, String.append_assoc, -String.reduceAppend]

theorem sameText_headParts (q : Query) :
    SameText ((headParts q).map (Part.toPiece [])) [.plain (head q)] := by
  have hselection : SameText ((selectionParts q).map (Part.toPiece [])) [.plain (selection q)] := by
    intro n rest
    unfold selectionParts selection
    cases q.projection <;> cases q.plan.distinct <;> cases q.plan.primaryKey <;>
      simp [write, String.append_assoc]
  intro n rest
  simp only [headParts, List.map_cons, List.map_append, List.cons_append, List.append_assoc]
  rw [Part.toPiece_plain, write, hselection]
  simp only [List.cons_append, List.nil_append, List.map_nil, Part.toPiece_plain,
    Part.toPiece_name_nil, write]
  rw [sameText_joins sameText_joinParts]
  simp [head, write, String.append_assoc, -String.reduceAppend]

/-- The text of a query is that of its parts. -/
theorem textWithout_nil (q : Query) : textWithout [] q = toText q := by
  have h := (sameText_headParts q).append (sameText_conditionParts q.predicate) 1 []
  rw [List.append_nil, List.append_nil, ← List.map_append] at h
  exact h

/-! ### Fixed texts and names -/

/-- A text without placeholders and quotes. -/
def Quiet (s : String) : Prop := ∀ c ∈ s.toList, c ≠ '?' ∧ c ≠ '\''

instance (s : String) : Decidable (Quiet s) := List.decidableBAll _ s.toList

theorem Quiet.append {s t : String} (hs : Quiet s) (ht : Quiet t) : Quiet (s ++ t) := by
  intro c hc
  rw [String.toList_append, List.mem_append] at hc
  exact hc.elim (hs c) (ht c)

theorem isDigit_of_mem_toString {n : Nat} {c : Char} (h : c ∈ (toString n).toList) :
    c.isDigit = true := by
  rw [Nat.toString_eq_repr, Nat.toList_repr] at h
  exact Nat.isDigit_of_mem_toDigits (by decide) (by decide) h

theorem quiet_toString (n : Nat) : Quiet (toString n) := by
  intro c hc
  have hdigit := isDigit_of_mem_toString hc
  constructor <;> rintro rfl <;> exact absurd hdigit (by decide)

theorem quiet_alias : ∀ s : Source, Quiet s.alias
  | .root => by decide
  | .joined i => Quiet.append (s := "t") (by decide) (quiet_toString (i + 1))

/-- A part that is the same in every query but for the names in it: a text without placeholders and
quotes, or one of the names. -/
inductive Part.Inert (attributes types : List String) : Part → Prop
  | plain {s : String} (h : Quiet s) : Inert attributes types (.plain s)
  | ofAttribute {s : String} (h : s ∈ attributes) : Inert attributes types (.name .attribute s)
  | ofType {s : String} (h : s ∈ types) : Inert attributes types (.name .type s)

namespace Part.Inert

theorem mono {attributes attributes' types types' : List String} {part : Part}
    (h : part.Inert attributes types) (ha : ∀ s ∈ attributes, s ∈ attributes')
    (ht : ∀ s ∈ types, s ∈ types') : part.Inert attributes' types' := by
  cases h with
  | plain hs => exact .plain hs
  | ofAttribute hs => exact .ofAttribute (ha _ hs)
  | ofType hs => exact .ofType (ht _ hs)

theorem name {attributes types : List String} {kind : NameKind} {s : String}
    (h : (Part.name kind s).Inert attributes types) :
    kind = .attribute ∧ s ∈ attributes ∨ kind = .type ∧ s ∈ types := by
  cases h with
  | ofAttribute hs => exact .inl ⟨rfl, hs⟩
  | ofType hs => exact .inr ⟨rfl, hs⟩

end Part.Inert

theorem inert_columnParts (c : Column) : ∀ part ∈ columnParts c, part.Inert c.segments [] := by
  intro part hpart
  rcases List.mem_cons.1 hpart with rfl | hpart
  · exact .plain (quiet_alias c.source)
  · obtain ⟨s, hs, hpart⟩ := List.mem_flatMap.1 hpart
    rcases List.mem_cons.1 hpart with rfl | hpart
    · exact .plain (by decide)
    · cases List.mem_singleton.1 hpart
      exact .ofAttribute hs

theorem inert_pathParts (path : List String) : ∀ part ∈ pathParts path, part.Inert path [] := by
  induction path using pathParts.induct with
  | case1 => simp [pathParts]
  | case2 s =>
    intro part hpart
    cases List.mem_singleton.1 hpart
    exact .ofAttribute List.mem_cons_self
  | case3 s ss hne ih =>
    intro part hpart
    rw [pathParts, List.mem_cons, List.mem_cons] at hpart
    · rcases hpart with rfl | rfl | hpart
      · exact .ofAttribute List.mem_cons_self
      · exact .plain (by decide)
      · exact (ih part hpart).mono (fun t ht => List.mem_cons_of_mem s ht) fun _ => id
    · exact hne

theorem inert_joinParts (j : Join) :
    ∀ part ∈ joinParts j, part.Inert j.key.path [] := by
  intro part hpart
  rw [joinParts, List.mem_append, List.mem_cons, List.mem_singleton] at hpart
  rcases hpart with (rfl | hpart) | rfl
  · have hkeyword : Quiet (" " ++ j.type.keyword ++ " ") := by cases j.type <;> decide
    exact .plain ((hkeyword.append (quiet_alias _)).append (by decide))
  · exact inert_pathParts _ part hpart
  · exact .plain (Quiet.append (by decide) (quiet_alias _))

theorem inert_selectionParts (q : Query) :
    ∀ part ∈ selectionParts q, part.Inert q.plan.primaryKey.toList [] := by
  unfold selectionParts
  split
  case h_3 pk _ _ hpk =>
    simp only [List.forall_mem_cons, hpk]
    exact ⟨.plain (by decide), .ofAttribute (by simp), .plain (by decide), by simp⟩
  all_goals
    simp only [List.forall_mem_cons]
    exact ⟨.plain (by decide), by simp⟩

/-- The names of attributes that a query may use: its identifier, those that it joins over and those
that lead to its columns. -/
def attributeNames (q : Query) : List String :=
  q.plan.primaryKey.toList ++ q.plan.joins.flatMap (·.key.path) ++
    q.predicate.columns.flatMap (·.segments)

theorem inert_headParts (q : Query) :
    ∀ part ∈ headParts q, part.Inert (attributeNames q) [q.plan.root] := by
  intro part hpart
  simp only [headParts, List.mem_append, List.mem_cons, List.not_mem_nil, or_false] at hpart
  rcases hpart with ((rfl | hpart) | rfl | rfl | rfl) | hpart
  · exact .plain (by decide)
  · refine (inert_selectionParts q part hpart).mono (fun s hs => ?_) (by simp)
    exact List.mem_append_left _ (List.mem_append_left _ hs)
  · exact .plain (by decide)
  · exact .ofType List.mem_cons_self
  · exact .plain (by decide)
  · obtain ⟨j, hj, hpart⟩ := List.mem_flatMap.1 hpart
    refine (inert_joinParts j part hpart).mono (fun s hs => ?_) (by simp)
    refine List.mem_append_left _ (List.mem_append_right _ ?_)
    exact List.mem_flatMap.2 ⟨j, hj, hs⟩

/-! ### Names of a query -/

theorem name_of_mem_columnBetween {kind : NameKind} {s before after : String} {c : Column}
    {ps : List Piece} (h : .name kind s ∈ columnBetween before c after ps) :
    kind = .attribute ∧ s ∈ c.segments := by
  simp only [columnBetween, Part.plain, List.mem_append, List.mem_cons, List.mem_map,
    reduceCtorEq, and_false, exists_false, false_or, or_false] at h
  rcases (inert_columnParts c _ h).name with hs | ⟨-, hs⟩
  · exact hs
  · cases hs

/-- A name in a token leads to its column. -/
theorem name_of_mem_tokenParts {kind : NameKind} {s : String} {t : Token}
    (h : .name kind s ∈ t.parts) : kind = .attribute ∧ ∃ c ∈ t.columns, s ∈ c.segments := by
  have hpieces (ps : List Piece) : .name kind s ∉ ps.map Part.piece := by simp
  match t with
  | .atom (.test t) =>
    refine (?_ : kind = .attribute ∧ s ∈ t.column.segments).imp_right fun hs =>
      ⟨t.column, List.mem_cons_self, hs⟩
    cases t <;> exact name_of_mem_columnBetween h
  | .atom (.noneOf c vs) =>
    exact (name_of_mem_columnBetween h).imp_right fun hs => ⟨c, List.mem_cons_self, hs⟩
  | .atom (.constant _) | .not | .connective _ | .opening | .closing => exact absurd h (hpieces _)

/-- A name in a query is that of an attribute of the query or that of the root type. -/
theorem name_of_mem_parts {kind : NameKind} {s : String} {q : Query}
    (h : .name kind s ∈ parts q) :
    kind = .attribute ∧ s ∈ attributeNames q ∨ kind = .type ∧ s = q.plan.root := by
  rcases List.mem_append.1 h with h | h
  · simpa using (inert_headParts q _ h).name
  · have htokens : .name kind s ∈ (tokens q.predicate).flatMap Token.parts := by
      unfold conditionParts at h
      split at h
      · cases h
      · exact (List.mem_cons.1 h).resolve_left nofun
    obtain ⟨t, ht, hs⟩ := List.mem_flatMap.1 htokens
    obtain ⟨rfl, c, hc, hs⟩ := name_of_mem_tokenParts hs
    refine .inl ⟨rfl, List.mem_append_right _ (List.mem_flatMap.2 ⟨c, ?_, hs⟩)⟩
    exact columns_of_mem_tokens ht hc

end Sql

end QueryFilter
