import QueryFilter.Proofs.Resolution
import QueryFilter.Query.Sql

/-!
# Patterns

The patterns that texts are matched with are those of `LIKE` without an escape: `%` stands for any
text, `_` for any character, and every other character for itself. A text operator puts its operand
into such a pattern as it is, so the operand is a pattern itself.

* `Pattern.Matches`: the texts that a pattern matches;
* `Pattern.matches_append`: patterns one after the other match texts one after the other;
* `Pattern.Matches.plain`: no pattern tells a wildcard in a text from another character;
* `Anchor.Occurs`: what a text operator asks for;
* `Anchor.matches_pattern_iff`: what its pattern matches;
* `Anchor.exists_pattern_iff`: the operands for which there is a pattern that matches the texts
  asked for and no other;
* `Registry.compileQuery_pattern`: what holds of the leaves that read a text.
-/

namespace QueryFilter

namespace Pattern

/-! ### Matching -/

/-- Whether a character of a pattern stands for other texts than itself. -/
def isWildcard (c : Char) : Bool := c == '%' || c == '_'

/-- The texts that a pattern matches. -/
inductive Matches : (pattern text : List Char) → Prop
  | nil : Matches [] []
  | any {p y : List Char} (x : List Char) : Matches p y → Matches ('%' :: p) (x ++ y)
  | one {p x : List Char} (c : Char) : Matches p x → Matches ('_' :: p) (c :: x)
  | char {p x : List Char} {c : Char} :
    isWildcard c = false → Matches p x → Matches (c :: p) (c :: x)

/-- A text is split where the patterns meet. -/
theorem matches_append {p q x : List Char} :
    Matches (p ++ q) x ↔ ∃ y z, x = y ++ z ∧ Matches p y ∧ Matches q z := by
  constructor
  · induction p generalizing x with
    | nil => exact fun h => ⟨[], x, rfl, .nil, h⟩
    | cons c p ih =>
      intro h
      cases h with
      | any u h =>
        obtain ⟨y, z, rfl, hy, hz⟩ := ih h
        exact ⟨u ++ y, z, (List.append_assoc ..).symm, .any u hy, hz⟩
      | one d h =>
        obtain ⟨y, z, rfl, hy, hz⟩ := ih h
        exact ⟨d :: y, z, rfl, .one d hy, hz⟩
      | char hc h =>
        obtain ⟨y, z, rfl, hy, hz⟩ := ih h
        exact ⟨c :: y, z, rfl, .char hc hy, hz⟩
  · rintro ⟨y, z, rfl, hy, hz⟩
    induction hy with
    | nil => exact hz
    | any u _ ih =>
      rw [List.append_assoc]
      exact .any u ih
    | one d _ ih => exact .one d ih
    | char hc _ ih => exact .char hc ih

/-- A percent sign alone matches every text. -/
theorem matches_any (x : List Char) : Matches ['%'] x := by
  simpa using Matches.any x .nil

/-- A text matches itself, whatever stands in it. -/
theorem matches_self (x : List Char) : Matches x x := by
  induction x with
  | nil => exact .nil
  | cons c x ih =>
    by_cases hany : c = '%'
    · subst hany
      exact .any ['%'] ih
    · by_cases hone : c = '_'
      · subst hone
        exact .one '_' ih
      · exact .char (by simp [isWildcard, hany, hone]) ih

/-- Without wildcards a pattern matches itself only. -/
theorem matches_iff_eq {p x : List Char} (hp : ∀ c ∈ p, isWildcard c = false) :
    Matches p x ↔ x = p := by
  constructor
  · intro h
    induction h with
    | nil => rfl
    | any x _ _ => exact absurd (hp '%' List.mem_cons_self) (by decide)
    | one c _ _ => exact absurd (hp '_' List.mem_cons_self) (by decide)
    | char _ _ ih => rw [ih fun c hc => hp c (List.mem_cons_of_mem _ hc)]
  · rintro rfl
    exact matches_self x

/-! ### Wildcards in texts -/

/-- A letter in the place of a wildcard. -/
def plain (c : Char) : Char := if isWildcard c then 'x' else c

theorem isWildcard_plain (c : Char) : isWildcard (plain c) = false := by
  unfold plain
  split
  · decide
  · simpa using ‹¬isWildcard c = true›

/-- A wildcard in a text is matched by a wildcard only, which matches any other character as well.
So no pattern tells the two apart. -/
theorem Matches.plain {p x : List Char} (h : Matches p x) : Matches p (x.map Pattern.plain) := by
  induction h with
  | nil => exact .nil
  | any x _ ih =>
    rw [List.map_append]
    exact .any _ ih
  | one c _ ih => exact .one _ ih
  | char hc _ ih =>
    rw [List.map_cons, Pattern.plain, if_neg (by simp [hc])]
    exact .char hc ih

end Pattern

/-! ### Text operators -/

open Pattern

/-- Whether a text occurs in another one at an anchor. -/
def Anchor.Occurs : Anchor → (s x : List Char) → Prop
  | .start, s, x => s <+: x
  | .finish, s, x => s <:+ x
  | .anywhere, s, x => s <:+: x

instance : (anchor : Anchor) → (s x : List Char) → Decidable (anchor.Occurs s x)
  | .start, s, x => inferInstanceAs (Decidable (s <+: x))
  | .finish, s, x => inferInstanceAs (Decidable (s <:+ x))
  | .anywhere, s, x => inferInstanceAs (Decidable (s <:+: x))

namespace Anchor

theorem occurs_self (anchor : Anchor) (s : List Char) : anchor.Occurs s s := by
  cases anchor with
  | start => exact List.prefix_rfl
  | finish => exact List.suffix_rfl
  | anywhere => exact List.infix_rfl

/-- All that occurs in a text is among its characters. -/
theorem Occurs.subset {anchor : Anchor} {s x : List Char} (h : anchor.Occurs s x) : s ⊆ x := by
  cases anchor with
  | start => exact List.IsPrefix.subset h
  | finish => exact List.IsSuffix.subset h
  | anywhere => exact List.IsInfix.subset h

/-- The pattern of a text operator matches the texts in which something occurs that the operand,
read as a pattern, matches. -/
theorem matches_pattern_iff (anchor : Anchor) (s : String) (x : List Char) :
    Matches (anchor.pattern s).toList x ↔
      ∃ y, anchor.Occurs y x ∧ Matches s.toList y := by
  cases anchor with
  | start =>
    rw [pattern, String.toList_append, matches_append]
    constructor
    · rintro ⟨y, z, rfl, hy, -⟩
      exact ⟨y, List.prefix_append y z, hy⟩
    · rintro ⟨y, ⟨z, rfl⟩, hy⟩
      exact ⟨y, z, rfl, hy, matches_any z⟩
  | finish =>
    rw [pattern, String.toList_append, matches_append]
    constructor
    · rintro ⟨z, y, rfl, -, hy⟩
      exact ⟨y, List.suffix_append z y, hy⟩
    · rintro ⟨y, ⟨z, rfl⟩, hy⟩
      exact ⟨z, y, rfl, matches_any z, hy⟩
  | anywhere =>
    rw [pattern, String.toList_append, String.toList_append, matches_append]
    constructor
    · rintro ⟨w, z, rfl, hw, -⟩
      obtain ⟨u, y, rfl, -, hy⟩ := matches_append.1 hw
      exact ⟨y, List.infix_append u y z, hy⟩
    · rintro ⟨y, ⟨u, z, rfl⟩, hy⟩
      exact ⟨u ++ y, z, rfl, matches_append.2 ⟨u, y, rfl, matches_any u, hy⟩, matches_any z⟩

/-- A text in which the operand occurs is matched. -/
theorem Occurs.matches_pattern {anchor : Anchor} {s : String} {x : List Char}
    (h : anchor.Occurs s.toList x) : Matches (anchor.pattern s).toList x :=
  (anchor.matches_pattern_iff s x).2 ⟨s.toList, h, matches_self s.toList⟩

/-- An operand without wildcards is matched as it stands. -/
theorem matches_pattern_iff_occurs (anchor : Anchor) {s : String}
    (hs : ∀ c ∈ s.toList, isWildcard c = false) (x : List Char) :
    Matches (anchor.pattern s).toList x ↔ anchor.Occurs s.toList x := by
  rw [matches_pattern_iff]
  constructor
  · rintro ⟨y, hy, hmatches⟩
    rwa [(matches_iff_eq hs).1 hmatches] at hy
  · exact fun h => ⟨s.toList, h, matches_self s.toList⟩

/-- There is a pattern that matches the texts in which an operand occurs, and no other, exactly for
the operands without wildcards: one with a wildcard would be matched with a letter in its place. -/
theorem exists_pattern_iff (anchor : Anchor) (s : List Char) :
    (∃ p, ∀ x, Matches p x ↔ anchor.Occurs s x) ↔ ∀ c ∈ s, isWildcard c = false := by
  constructor
  · rintro ⟨p, hp⟩ c hc
    have hself : Matches p s := (hp s).2 (anchor.occurs_self s)
    have hplain : anchor.Occurs s (s.map plain) := (hp _).1 hself.plain
    obtain ⟨d, -, rfl⟩ := List.mem_map.1 (hplain.subset hc)
    exact isWildcard_plain d
  · intro hs
    refine ⟨(anchor.pattern (String.ofList s)).toList, fun x => ?_⟩
    rw [matches_pattern_iff_occurs anchor (by simpa using hs), String.toList_ofList]

end Anchor

/-! ### Leaves that read a text -/

open FieldPath

/-- Whether a field leads from a root type to a text, within the limit on paths. -/
def Registry.ReadsText (r : Registry) (config : Config) (root : Entity) (field : String) : Prop :=
  (segments field).length ≤ config.maxPathSegments ∧
    ∃ init last owner a, segments field = init ++ [last] ∧ last ≠ [] ∧ r.Leads root init owner ∧
      owner.attribute? (String.ofList last) = some a ∧ a.kind = .basic .text

/-- A text operator on a text has a pattern with the operand as it was written. -/
theorem endPredicate_occurs {σ : Type} (field : String) (column : Column σ) (anchor : Anchor)
    (s : String) :
    endPredicate field column (.basic .text) (.single (.occurs anchor false) (.string s)) =
      .ok (.test (.like column (anchor.pattern s) false false)) := rfl

/-- The one test of a predicate, when it is known with other sources. -/
theorem Predicate.eq_like_of_mapSource {σ ρ : Type} {f : σ → ρ} {p : Predicate σ}
    {column : Column ρ} {pattern : String} {ignoreCase castToText : Bool}
    (h : p.mapSource f = .test (.like column pattern ignoreCase castToText)) :
    ∃ column, p = .test (.like column pattern ignoreCase castToText) := by
  cases p with
  | always | not | compound => cases h
  | test t =>
    cases t with
    | like column' =>
      cases h
      exact ⟨column', rfl⟩
    | _ => cases h

/-- What holds of the characters of every string holds of every list of characters. -/
theorem forall_toList (P : List Char → Prop) : (∀ x : String, P x.toList) ↔ ∀ x, P x := by
  refine ⟨fun h x => ?_, fun h x => h x.toList⟩
  simpa using h (String.ofList x)

/-- **Text operators.** A field that leads to a text is compiled, with a text operator, to one test
by a pattern. The pattern matches each text in which the operand occurs as the operator asks, and
beside them those in which something occurs that the operand matches as a pattern itself. So it
matches the texts asked for and no other exactly if there is no wildcard in the operand, and for an
operand with a wildcard no pattern does. -/
theorem Registry.compileQuery_pattern (r : Registry) (config : Config) (root : Entity)
    (projection : Projection) {field : String} (hfield : r.ReadsText config root field)
    (anchor : Anchor) (s : String) :
    ∃ q column, compileQuery r.catalog config root projection
        [.leaf field (.single (.occurs anchor false) (.string s))] = .ok q ∧
      q.predicate = .test (.like column (anchor.pattern s) false false) ∧
      (∀ x : String, anchor.Occurs s.toList x.toList →
        Matches (anchor.pattern s).toList x.toList) ∧
      (∀ x : String, Matches (anchor.pattern s).toList x.toList ↔
        ∃ y, anchor.Occurs y x.toList ∧ Matches s.toList y) ∧
      ((∀ x : String, Matches (anchor.pattern s).toList x.toList ↔
        anchor.Occurs s.toList x.toList) ↔ ∀ c ∈ s.toList, isWildcard c = false) ∧
      ((∃ p, ∀ x : String, Matches p x.toList ↔ anchor.Occurs s.toList x.toList) ↔
        ∀ c ∈ s.toList, isWildcard c = false) := by
  obtain ⟨hlimit, init, last, owner, a, hss, hlast, hleads, ha, hkind⟩ := hfield
  have hmeaning : ∃ column, r.catalog.meaning config root
      (field, .single (.occurs anchor false) (.string s)) =
        .ok (.test (.like column (anchor.pattern s) false false)) := by
    rw [Catalog.meaning, overLimit?_eq_none_iff.2 ⟨hlimit, fun _ _ h => by cases h⟩]
    dsimp only
    rw [parse_eq_ofSegments, hss]
    refine exists_resolve_of_leads hleads hlast ha (fun column => ?_) [] []
    rw [hkind, endPredicate_occurs]
  obtain ⟨named, hnamed⟩ := hmeaning
  rw [← compileQuery_leaf_meaning r.catalog config root projection] at hnamed
  obtain ⟨q, hq, hpredicate⟩ := Except.map_eq_ok_iff.1 hnamed
  obtain ⟨column, hcolumn⟩ := Predicate.eq_like_of_mapSource hpredicate
  refine ⟨q, column, hq, hcolumn, fun x h => h.matches_pattern,
    fun x => anchor.matches_pattern_iff s x.toList, ⟨fun h => ?_, fun hs x => ?_⟩, ?_⟩
  · exact (anchor.exists_pattern_iff s.toList).1 ⟨_, (forall_toList _).1 h⟩
  · exact anchor.matches_pattern_iff_occurs hs x.toList
  · rw [← anchor.exists_pattern_iff]
    exact exists_congr fun p => forall_toList fun x => Matches p x ↔ anchor.Occurs s.toList x

/-- The name of a department, behind a marked link. A percent sign at the end of the operand is a
wildcard more: names are matched that start with what is before it. -/
theorem Registry.compileQuery_pattern_staff :
    staff.ReadsText {} .employee "department?.name" ∧
    ∃ q column, compileQuery staff.catalog {} .employee .rows
        [.leaf "department?.name" (.single (.occurs .start false) (.string "Top 5%"))] = .ok q ∧
      q.predicate = .test (.like column "Top 5%%" false false) ∧
      Matches "Top 5%%".toList "Top 5% sales".toList ∧
      Matches "Top 5%%".toList "Top 500".toList ∧
      ¬∃ p, ∀ x : String, Matches p x.toList ↔ Anchor.start.Occurs "Top 5%".toList x.toList := by
  have hreads : staff.ReadsText {} .employee "department?.name" := by
    refine ⟨by decide, ["department?".toList], "name".toList, .department, ⟨"name", .basic .text⟩,
      by decide, by decide, ?_, by decide, rfl⟩
    exact .association (by decide) rfl rfl rfl (.nil _)
  obtain ⟨q, column, hq, hpredicate, hoccurs, hmatches, -, hexists⟩ :=
    compileQuery_pattern staff {} .employee .rows hreads .start "Top 5%"
  refine ⟨hreads, q, column, hq, hpredicate, hoccurs "Top 5% sales" (by decide), ?_, ?_⟩
  · refine (hmatches "Top 500").2 ⟨"Top 500".toList, by decide, ?_⟩
    exact matches_append.2 ⟨"Top 5".toList, "00".toList, by decide, matches_self _, matches_any _⟩
  · rw [hexists]
    exact fun hplain => absurd (hplain '%' (by decide)) (by decide)

/-- Departments are asked for whose name contains `50%`, and the pattern matches `500`. -/
theorem Registry.matches_other_departments :
    ∃ q, compileQuery staff.catalog {} .department .rows
        [.leaf "name" (.single (.occurs .anywhere false) (.string "50%"))] = .ok q ∧
      q.predicate.tests = [.like ⟨.root, ["name"]⟩ "%50%%" false false] ∧
      Sql.toText q = "SELECT t0 FROM Department t0 WHERE t0.name LIKE '%50%%'" ∧
      Matches "%50%%".toList "500".toList ∧ ¬Anchor.anywhere.Occurs "50%".toList "500".toList := by
  obtain ⟨q, hq⟩ : ∃ q, compileQuery staff.catalog {} .department .rows
      [.leaf "name" (.single (.occurs .anywhere false) (.string "50%"))] = .ok q :=
    Except.exists_ok_of_isOk (by decide +kernel)
  refine ⟨q, hq, ?_, ?_, ?_, by decide⟩
  · apply Except.eq_of_toOption_map (·.predicate.tests) hq
    decide +kernel
  · exact Except.eq_of_toOption_map Sql.toText hq (by decide +kernel)
  · exact .any [] (.char rfl (.char rfl (.any ['0'] (matches_any []))))

end QueryFilter
