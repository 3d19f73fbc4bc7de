import QueryFilter.Log
import QueryFilter.Proofs.JsonText
import QueryFilter.Proofs.Sorting

/-!
# Log lines as JSON

Whatever texts are logged, the line of a record is a JSON object that has just these texts: a quote,
a backslash or a control character in a text is escaped, so that no text ends its string, or the
line.

* `Log.escapes_escapeChar`: each escape is read as the character that it was made from;
* `Log.spells_line`: a line is cut into the tokens of the object with the members of the record;
* `Log.exists_line_eq`: a line has no control character before its end;
* `Log.Record.line_reads`: what a line is read as, and which records have the same line.
-/

namespace QueryFilter.Log

open Json (Token)

/-! ### Reading a line -/

theorem isControl_eq_false_iff {c : Char} :
    isControl c = false ↔ 0x20 ≤ c.toNat ∧ (c.toNat < 0x7F ∨ 0xA0 ≤ c.toNat) := by
  simp only [isControl, Bool.or_eq_false_iff, Bool.and_eq_false_iff, decide_eq_false_iff_not]
  omega

/-- An escape is read as the character that it was made from. -/
theorem escapes_escapeChar (c : Char) : Token.Escapes (escapeChar c) c := by
  unfold escapeChar
  split_ifs with hquote hbackslash _ _ _ hcontrol
  iterate 5
    · subst c
      exact Token.escapes_letter (by decide) rfl
  · refine Token.escapes_unicodeEscape ?_
    simp only [isControl, Bool.or_eq_true, Bool.and_eq_true, decide_eq_true_eq] at hcontrol
    omega
  · have hraw : ¬c.toNat < 0x20 :=
      not_lt.2 (isControl_eq_false_iff.1 (Bool.eq_false_iff.2 hcontrol)).1
    exact ⟨.char c, .inl rfl, fun tokens us => by simp [Token.scanChar, hquote, hbackslash, hraw]⟩

theorem spells_member (key value : String) :
    Token.Spells (member key value) [.string (some key), .colon, .string (some value)] := by
  intro tokens rest _
  have hmember : member key value ++ rest = '"' :: key.toList.flatMap escapeChar ++
      '"' :: ':' :: ('"' :: value.toList.flatMap escapeChar ++ '"' :: rest) := by
    simp [member, quote]
  rw [hmember, Token.scanFrom_string escapes_escapeChar, Token.scanFrom_mark rfl,
    Token.scanFrom_string escapes_escapeChar]
  rfl

/-- The object that a record is logged as. -/
def Record.object (r : Record) : Json := .object (r.members.map fun m => (m.1, .string m.2))

theorem forall₂_memberTokens (ms : List (String × String)) :
    List.Forall₂ Token.Spells (ms.map fun m => member m.1 m.2)
      (Json.memberTokens (ms.map fun m => (m.1, .string m.2))) := by
  induction ms with
  | nil => exact .nil
  | cons m ms ih => exact .cons (spells_member m.1 m.2) ih

/-- A line is cut into the tokens of the object. -/
theorem spells_line (r : Record) : Token.Spells r.line r.object.tokens := by
  intro tokens rest _
  have hmembers := Token.spells_intercalate [',']
    (fun tokens cs => Token.scanFrom_mark rfl) (fun cs => Token.beginsApart_cons_mark rfl cs)
    (forall₂_memberTokens r.members)
  have hline : r.line ++ rest = '\x7b' ::
      ([','].intercalate (r.members.map fun m => member m.1 m.2) ++ '\x7d' :: '\n' :: rest) := by
    simp [Record.line]
  rw [hline, Token.scanFrom_mark rfl, hmembers _ _ (Token.beginsApart_cons_mark rfl _),
    Token.scanFrom_mark rfl, Token.scanFrom_space rfl, Record.object, Json.tokens]
  simp

/-! ### Control characters -/

theorem isControl_hexDigit (n : Nat) : isControl (Text.hexDigit n) = false := by
  have h : ∀ d < 16, isControl (Nat.digitChar d) = false := by decide
  exact h _ (Nat.mod_lt n (by decide))

theorem isControl_of_mem_escapeChar {c d : Char} (h : d ∈ escapeChar c) : isControl d = false := by
  unfold escapeChar at h
  split_ifs at h with _ _ _ _ _ hcontrol
  iterate 5
    · simp only [List.mem_cons, List.not_mem_nil, or_false] at h
      rcases h with rfl | rfl <;> rfl
  · simp only [List.mem_cons, List.not_mem_nil, or_false] at h
    rcases h with rfl | rfl | rfl | rfl | rfl | rfl <;> first | rfl | exact isControl_hexDigit _
  · rw [List.mem_singleton.1 h]
    exact Bool.eq_false_iff.2 hcontrol

theorem isControl_of_mem_quote {s : String} {c : Char} (h : c ∈ quote s) : isControl c = false := by
  simp only [quote, List.cons_append, List.mem_cons, List.mem_append, List.mem_flatMap,
    List.not_mem_nil, or_false] at h
  rcases h with rfl | ⟨d, -, h⟩ | rfl
  · rfl
  · exact isControl_of_mem_escapeChar h
  · rfl

theorem isControl_of_mem_member {key value : String} {c : Char} (h : c ∈ member key value) :
    isControl c = false := by
  rcases List.mem_append.1 h with h | h
  · exact isControl_of_mem_quote h
  · rcases List.mem_cons.1 h with rfl | h
    · rfl
    · exact isControl_of_mem_quote h

theorem isControl_of_mem_members {ms : List (String × String)} {c : Char}
    (h : c ∈ [','].intercalate (ms.map fun m => member m.1 m.2)) : isControl c = false := by
  induction ms with
  | nil => cases h
  | cons m ms ih =>
    cases ms with
    | nil =>
      rw [List.map_singleton, List.intercalate_singleton] at h
      exact isControl_of_mem_member h
    | cons n ms =>
      rw [List.map_cons, List.map_cons, List.intercalate_cons_cons, List.append_assoc,
        List.mem_append, List.singleton_append, List.mem_cons] at h
      rcases h with h | rfl | h
      · exact isControl_of_mem_member h
      · rfl
      · exact ih h

/-- A line has no control character before its end. -/
theorem exists_line_eq (r : Record) :
    ∃ body, r.line = body ++ ['\n'] ∧ ∀ c ∈ body, isControl c = false := by
  refine
    ⟨'\x7b' :: [','].intercalate (r.members.map fun m => member m.1 m.2) ++ ['\x7d'], ?_, ?_⟩
  · simp [Record.line]
  · intro c hc
    simp only [List.cons_append, List.mem_cons, List.mem_append, List.not_mem_nil, or_false] at hc
    rcases hc with rfl | hc | rfl
    · rfl
    · exact isControl_of_mem_members hc
    · rfl

/-! ### What is logged -/

/-- **Log lines are JSON.** The line of a record is read as an object whose members are the event,
the severity and the fields, these in the order of their keys and, under the same key, in the order
in which they are given. It has no control character but the one at its end. Fields with different
keys may be given in any order. -/
theorem Record.line_reads (r : Record) :
    (∃ fields : List (String × String),
      fields.Perm r.fields ∧ fields.Pairwise (·.1 ≤ ·.1) ∧
      (∀ key, fields.filter (·.1 == key) = r.fields.filter (·.1 == key)) ∧
      Json.Draft.read? (String.ofList r.line) =
        some (.object ((("event", r.event) :: ("severity", r.severity.name) :: fields).map
          fun m => (some m.1, .scalar (some (.string m.2)))))) ∧
    (∃ body, r.line = body ++ ['\n'] ∧ ∀ c ∈ body, isControl c = false) ∧
    ∀ s : Record, s.severity = r.severity → s.event = r.event → s.fields.Perm r.fields →
      (r.fields.map (·.1)).Nodup → s.line = r.line := by
  refine ⟨⟨Text.sortByKey (·.1) r.fields, Text.sortByKey_perm _ _, Text.sorted_sortByKey _ _,
    Text.filter_sortByKey _ _, ?_⟩, exists_line_eq r, fun s hseverity hevent hfields hkeys => ?_⟩
  · have hnumberless : r.object.Numberless := by
      refine .object fun m hm => ?_
      obtain ⟨m, -, rfl⟩ := List.mem_map.1 hm
      exact .string m.2
    have hspells : Token.Spells (String.ofList r.line).toList r.object.tokens := by
      rw [String.toList_ofList]
      exact spells_line r
    rw [Json.Draft.read?_of_spells hnumberless hspells, Record.object, Json.Draft.ofJson,
      Json.Draft.ofMembers_eq_map, List.map_map]
    rfl
  · have hsorted : Text.sortByKey (·.1) s.fields = Text.sortByKey (·.1) r.fields :=
      (Text.sortByKey_eq_of_perm hfields.symm hkeys).symm
    rw [Record.line, Record.line, Record.members, Record.members, hseverity, hevent, hsorted]

/-- A text that looks like the end of its line, and one with two kinds of control characters, under
keys that come in either order. -/
theorem Record.line_reads_forged :
    let forged := "\"\x7d\n\x7b\"event\":\"\\u0041"
    let bell := "\x07\u0085"
    let r : Record := ⟨.warn, "FILTER_COMPILE_REJECTED", [("field", forged), ("code", bell)]⟩
    let s : Record := ⟨.warn, "FILTER_COMPILE_REJECTED", [("code", bell), ("field", forged)]⟩
    s.line = r.line ∧ (∃ body, r.line = body ++ ['\n'] ∧ ∀ c ∈ body, isControl c = false) ∧
      Json.Draft.read? (String.ofList r.line) = some (.object
        ([("event", "FILTER_COMPILE_REJECTED"), ("severity", "WARN"), ("code", bell),
          ("field", forged)].map fun m => (some m.1, .scalar (some (.string m.2))))) := by
  intro forged bell r s
  obtain ⟨⟨fields, hperm, hsorted, -, hread⟩, hline, hsame⟩ := Record.line_reads r
  have hkeys : s.fields.Pairwise (·.1 < ·.1) := by decide
  have hfields : fields = s.fields := by
    refine (hperm.trans (List.Perm.swap _ _ _)).eq_of_pairwise (fun a b ha hb hle hge => ?_)
      hsorted (hkeys.imp le_of_lt)
    have hinj : ∀ a ∈ r.fields, ∀ b ∈ s.fields, a.1 = b.1 → a = b := by decide
    exact hinj a (hperm.mem_iff.1 ha) b hb (le_antisymm hle hge)
  refine ⟨hsame s rfl rfl (List.Perm.swap _ _ _) (by decide), hline, ?_⟩
  rw [hread, hfields]
  rfl

end QueryFilter.Log
