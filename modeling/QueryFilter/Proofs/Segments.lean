import Mathlib.Data.List.Forall2
import QueryFilter.Proofs.Digits
import QueryFilter.Proofs.FieldPath

/-!
# Taking a path apart

The first segment of a path is taken, then the first one of what is left, and so on to the end. That
is splitting the path at its dots and reading each part by itself: every part but the last one is a
name between markers, and the last one is a name as it is.

* `FieldPath.takeAll?`: the segments that are taken one after the other;
* `FieldPath.Marked`: how a name and the markers around it make a part;
* `FieldPath.marked_iff`: each part is marked in exactly one way;
* `FieldPath.takeAll?_eq`: the segments by the parts between the dots;
* `FieldPath.takeAll?_segments`: how many are taken, when none fails, and which they are.
-/

namespace QueryFilter

namespace FieldPath

/-! ### Markers -/

/-- How a part of a path spells a segment: markers as long as there are any, then the name, and a
question mark that may follow it. The markers say the type of the join. -/
inductive Marked : List Char → Segment → Prop
  | plain {markers name : List Char} : (∀ c ∈ markers, isMarker c) →
    (∀ c ∈ name.head?, ¬isMarker c) → name.getLast? ≠ some '?' →
    Marked (markers ++ name)
      ⟨name, if '<' ∈ markers then .left else if '>' ∈ markers then .right else .inner⟩
  | optional {markers name : List Char} : (∀ c ∈ markers, isMarker c) →
    (∀ c ∈ name.head?, ¬isMarker c) → Marked (markers ++ (name ++ ['?'])) ⟨name, .left⟩

/-- Markers before something else are the run of markers at the start. -/
theorem run_of_markers {markers cs : List Char} (hmarkers : ∀ c ∈ markers, isMarker c)
    (hcs : ∀ c ∈ cs.head?, ¬isMarker c) :
    (markers ++ cs).takeWhile isMarker = markers ∧ (markers ++ cs).dropWhile isMarker = cs := by
  rw [List.takeWhile_append_of_pos hmarkers, List.dropWhile_append_of_pos hmarkers]
  cases cs with
  | nil => simp
  | cons c cs => simp [hcs c rfl]

/-- A question mark is no marker, so it does not matter before which name it is. -/
theorem head?_question_iff {name : List Char} :
    (∀ c ∈ (name ++ ['?']).head?, ¬isMarker c) ↔ ∀ c ∈ name.head?, ¬isMarker c := by
  cases name <;> simp [isMarker]

theorem Marked.readMarkers_eq {part : List Char} {s : Segment} (h : Marked part s) :
    readMarkers part = s := by
  cases h with
  | plain hmarkers hname hlast =>
    obtain ⟨htake, hdrop⟩ := run_of_markers hmarkers hname
    simp [readMarkers, htake, hdrop, hlast]
  | optional hmarkers hname =>
    obtain ⟨htake, hdrop⟩ := run_of_markers hmarkers (head?_question_iff.2 hname)
    simp [readMarkers, htake, hdrop]

theorem marked_readMarkers (part : List Char) : Marked part (readMarkers part) := by
  have hpart : part.takeWhile isMarker ++ part.dropWhile isMarker = part :=
    List.takeWhile_append_dropWhile
  have hmarkers : ∀ c ∈ part.takeWhile isMarker, isMarker c := fun c hc => List.mem_takeWhile_imp hc
  have hrest : ∀ c ∈ (part.dropWhile isMarker).head?, ¬isMarker c := by
    intro c hc
    have hnot := List.head?_dropWhile_not isMarker part
    simpa [Option.mem_def.1 hc] using hnot
  by_cases hlast : (part.dropWhile isMarker).getLast? = some '?'
  · obtain ⟨name, hname⟩ := List.getLast?_eq_some_iff.1 hlast
    rw [hname] at hrest
    have hmarked := Marked.optional hmarkers (head?_question_iff.1 hrest)
    rw [← hname, hpart] at hmarked
    simpa [readMarkers, hname] using hmarked
  · have hmarked := Marked.plain hmarkers hrest hlast
    rw [hpart] at hmarked
    simpa [readMarkers, hlast] using hmarked

/-- A part is marked in exactly one way, which is how it is read. -/
theorem marked_iff {part : List Char} {s : Segment} : Marked part s ↔ readMarkers part = s :=
  ⟨Marked.readMarkers_eq, fun h => h ▸ marked_readMarkers part⟩

theorem forall₂_marked_iff {parts : List (List Char)} {ss : List Segment} :
    List.Forall₂ Marked parts ss ↔ parts.map readMarkers = ss := by
  rw [← List.forall₂_eq_eq_eq, List.forall₂_map_left_iff]
  exact ⟨fun h => h.imp fun _ _ => marked_iff.1, fun h => h.imp fun _ _ => marked_iff.2⟩

/-! ### Segment after segment -/

/-- The segments of a path: its first one is taken, and then those of the remainder, until there is
no remainder. None if a step fails. -/
def takeAll? (cs : List Char) : Option (List Segment) :=
  match h : next? cs with
  | none => none
  | some (s, none) => some [s]
  | some (s, some rest) =>
    have := length_lt_of_next? h
    (takeAll? rest).map (s :: ·)
termination_by cs.length

theorem takeAll?_eq_next (cs : List Char) :
    takeAll? cs = match next? cs with
      | none => none
      | some (s, none) => some [s]
      | some (s, some rest) => (takeAll? rest).map (s :: ·) := by
  rw [takeAll?]
  split <;> simp_all

theorem takeAll?_nil : takeAll? [] = none := takeAll?_eq_next []

theorem takeAll?_of_cut_none {cs head : List Char} (h : cut cs = (head, none)) :
    takeAll? cs = if head = [] then none else some [⟨head, .inner⟩] := by
  rw [takeAll?_eq_next, next?, h]
  by_cases hempty : head = [] <;> simp only [hempty, if_true, if_false]

/-- An empty remainder makes the step before it fail; it would fail by itself. -/
theorem takeAll?_of_cut_some {cs head rest : List Char} (h : cut cs = (head, some rest)) :
    takeAll? cs = if (readMarkers head).name = [] then none
      else (takeAll? rest).map (readMarkers head :: ·) := by
  rw [takeAll?_eq_next, next?, h]
  dsimp only
  by_cases hname : (readMarkers head).name = []
  · rw [if_pos (.inl hname), if_pos hname]
  · rw [if_neg hname]
    by_cases hrest : rest = []
    · rw [if_pos (.inr hrest), hrest, takeAll?_nil]
      rfl
    · rw [if_neg (not_or.2 ⟨hname, hrest⟩)]

/-- The segments of a path by its parts: every part before the last one has a name between its
markers, and the last one is a name. -/
theorem takeAll?_eq {cs last : List Char} {before : List (List Char)}
    (h : cs.splitOn '.' = before ++ [last]) :
    takeAll? cs =
      if last ≠ [] ∧ ∀ part ∈ before, (readMarkers part).name ≠ [] then
        some (before.map readMarkers ++ [⟨last, .inner⟩])
      else none := by
  induction before generalizing cs with
  | nil =>
    cases hc : cut cs with
    | mk head rest =>
      cases rest with
      | none =>
        rw [splitOn_of_cut_none hc] at h
        cases h
        rw [takeAll?_of_cut_none hc]
        by_cases hempty : last = [] <;> simp [hempty]
      | some rest =>
        -- two parts at least
        rw [splitOn_of_cut_some hc] at h
        simp [List.splitOn_ne_nil] at h
  | cons part before ih =>
    cases hc : cut cs with
    | mk head rest =>
      cases rest with
      | none =>
        rw [splitOn_of_cut_none hc] at h
        simp at h
      | some rest =>
        rw [splitOn_of_cut_some hc] at h
        obtain ⟨rfl, hrest⟩ := List.cons.inj h
        rw [takeAll?_of_cut_some hc, ih hrest]
        simp only [List.forall_mem_cons]
        by_cases hname : (readMarkers head).name = []
        · simp [hname]
        · simp only [hname, if_false, ne_eq, not_false_eq_true, true_and]
          split <;> rfl

/-- **Taking a path apart.** As many segments are taken as the path has, unless a step fails. None
fails exactly if the last part of the path is not empty and each other part has a name between its
markers; then the segments are what the other parts spell, and at the end the last part as it is. -/
theorem takeAll?_segments (path : String) :
    (∀ ss, takeAll? path.toList = some ss → ss.length = countSegments path.toList) ∧
    ∃ before last, segments path = before ++ [last] ∧
      ((∃ ss, takeAll? path.toList = some ss) ↔
        last ≠ [] ∧ ∀ part ∈ before, ∃ s, Marked part s ∧ s.name ≠ []) ∧
      ∀ ss, takeAll? path.toList = some ss →
        ∃ marked, List.Forall₂ Marked before marked ∧ ss = marked ++ [⟨last, .inner⟩] := by
  obtain ⟨before, last, hparts⟩ : ∃ before last, segments path = before ++ [last] :=
    ⟨_, _, (List.dropLast_concat_getLast (List.splitOn_ne_nil '.' path.toList)).symm⟩
  have htake (ss : List Segment) : takeAll? path.toList = some ss ↔
      (last ≠ [] ∧ ∀ part ∈ before, (readMarkers part).name ≠ []) ∧
        before.map readMarkers ++ [⟨last, .inner⟩] = ss := by
    rw [takeAll?_eq hparts, Option.ite_none_right_eq_some, Option.some.injEq]
  have hmarked (part : List Char) :
      (∃ s, Marked part s ∧ s.name ≠ []) ↔ (readMarkers part).name ≠ [] := by
    simp only [marked_iff, exists_eq_left']
  refine ⟨fun ss hss => ?_, before, last, hparts, ?_, fun ss hss => ?_⟩
  · rw [← ((htake ss).1 hss).2, countSegments_eq_length, ← segments, hparts]
    simp
  · simp only [htake, exists_and_left, exists_eq', and_true, hmarked]
  · exact ⟨before.map readMarkers, forall₂_marked_iff.2 rfl, ((htake ss).1 hss).2.symm⟩

/-- Markers are taken from all parts but the last one, and of two question marks only one. -/
theorem takeAll?_segments_city :
    let path := "><department??.>city.<name?"
    let ss : List Segment :=
      [⟨"department?".toList, .left⟩, ⟨"city".toList, .right⟩, ⟨"<name?".toList, .inner⟩]
    takeAll? path.toList = some ss ∧ ss.length = countSegments path.toList ∧
      ∃ before last marked, segments path = before ++ [last] ∧ last ≠ [] ∧
        List.Forall₂ Marked before marked ∧ ss = marked ++ [⟨last, .inner⟩] := by
  intro path ss
  have hss : takeAll? path.toList = some ss := by decide +kernel
  obtain ⟨hlength, before, last, hparts, htaken, hspelled⟩ := takeAll?_segments path
  obtain ⟨marked, hmarked, hsame⟩ := hspelled ss hss
  exact ⟨hss, hlength ss hss, before, last, marked, hparts, (htaken.1 ⟨ss, hss⟩).1, hmarked, hsame⟩

end FieldPath

end QueryFilter
