import QueryFilter.FieldPath

/-!
# Segments of field paths

A path is walked by cutting it at its first dot, over and over again. That gives what splitting it
at all dots at once gives, up to the first empty segment.

* `FieldPath.segments`: the parts of a path between its dots;
* `FieldPath.spelledNames`: the names in them;
* `FieldPath.ofSegments`: the steps of a path with some segments;
* `FieldPath.parse_eq_ofSegments`: the steps of a path are those of its segments.
-/

namespace QueryFilter

namespace FieldPath

/-! ### Splitting -/

/-- The segments of a path. -/
def segments (path : String) : List (List Char) := path.toList.splitOn '.'

theorem splitOn_of_cut_none {cs head : List Char} (h : cut cs = (head, none)) :
    cs.splitOn '.' = [head] := by
  obtain ⟨rfl, hdot⟩ := cut_eq_none h
  exact List.splitOn_eq_singleton hdot

theorem splitOn_of_cut_some {cs head rest : List Char} (h : cut cs = (head, some rest)) :
    cs.splitOn '.' = head :: rest.splitOn '.' := by
  obtain ⟨rfl, hdot⟩ := cut_eq_some h
  exact List.splitOn_append_cons_self_of_not_mem hdot rest

/-- A path has one segment more than it has dots. -/
theorem countSegments_eq_length (cs : List Char) : countSegments cs = (cs.splitOn '.').length := by
  unfold countSegments
  induction cs with
  | nil => rfl
  | cons c cs ih =>
    rw [List.splitOn_cons_eq_if_modifyHead]
    by_cases hc : c = '.'
    · rw [hc, List.count_cons_self, if_pos (beq_self_eq_true '.'), List.length_cons, ih]
    · have hbeq : ¬(c == '.') = true := by simpa using hc
      rw [List.count_cons_of_ne hc, if_neg hbeq, List.length_modifyHead, ih]

theorem splitOn_eq_singleton_nil_iff {cs : List Char} : cs.splitOn '.' = [[]] ↔ cs = [] := by
  constructor
  · intro h
    have hcs : ['.'].intercalate (cs.splitOn '.') = cs := List.intercalate_splitOn '.'
    rw [← hcs, h]
    rfl
  · rintro rfl
    rfl

/-- The name in a segment before the last one, without the markers. -/
def bareName (s : List Char) : String := String.ofList (readMarkers s).name

/-- The names that segments spell: the last segment is taken as it is, and those before it without
their markers. -/
def spelledNames : List (List Char) → List String
  | [] => []
  | [s] => [String.ofList s]
  | s :: t :: ss => bareName s :: spelledNames (t :: ss)

/-! ### Steps -/

/-- The steps of a path with some segments. Only the last segment is taken as it is. -/
def ofSegments : List (List Char) → FieldPath
  | [] => .broken ""
  | [s] => if s = [] then .broken "" else .last (String.ofList s)
  | s :: t :: ss =>
    if (readMarkers s).name = [] ∨ t :: ss = [[]] then
      .broken (String.ofList (['.'].intercalate (s :: t :: ss)))
    else .step (bareName s) (readMarkers s).join (ofSegments (t :: ss))

theorem ofChars_of_cut_none {cs head : List Char} (h : cut cs = (head, none)) :
    ofChars cs = if head = [] then .broken (String.ofList cs) else .last (String.ofList head) := by
  have hnext : next? cs = if head = [] then none else some (⟨head, .inner⟩, none) := by
    rw [next?, h]
  rw [ofChars]
  split <;> simp_all

theorem ofChars_of_cut_some {cs head rest : List Char} (h : cut cs = (head, some rest)) :
    ofChars cs =
      if (readMarkers head).name = [] ∨ rest = [] then .broken (String.ofList cs)
      else .step (bareName head) (readMarkers head).join (ofChars rest) := by
  have hnext : next? cs =
      if (readMarkers head).name = [] ∨ rest = [] then none
      else some (readMarkers head, some rest) := by
    rw [next?, h]
  rw [ofChars]
  by_cases hempty : (readMarkers head).name = [] ∨ rest = []
  · rw [if_pos hempty] at hnext ⊢
    split <;> simp_all
  · rw [if_neg hempty] at hnext ⊢
    split <;> simp_all [bareName]

theorem ofChars_eq_ofSegments (cs : List Char) : ofChars cs = ofSegments (cs.splitOn '.') := by
  cases hc : cut cs with
  | mk head rest =>
    cases rest with
    | none =>
      rw [ofChars_of_cut_none hc, splitOn_of_cut_none hc, ofSegments, (cut_eq_none hc).1]
      by_cases hnil : cs = []
      · rw [if_pos hnil, if_pos hnil, hnil]
      · rw [if_neg hnil, if_neg hnil]
    | some rest =>
      -- induction on the remainder, which is shorter
      have hlt := length_lt_of_cut hc
      have ih := ofChars_eq_ofSegments rest
      -- the remainder has at least one segment
      obtain ⟨t, ss, hrest⟩ := List.exists_cons_of_ne_nil (List.splitOn_ne_nil '.' rest)
      have hsegments := splitOn_of_cut_some hc
      have hcs : ['.'].intercalate (cs.splitOn '.') = cs := List.intercalate_splitOn '.'
      have hnil : rest = [] ↔ t :: ss = [[]] := by
        rw [← hrest]
        exact splitOn_eq_singleton_nil_iff.symm
      rw [hsegments, hrest] at hcs
      rw [ofChars_of_cut_some hc, hsegments, ih, hrest, ofSegments, hcs]
      simp only [hnil]
termination_by cs.length

/-- A path is walked segment by segment. -/
theorem parse_eq_ofSegments (path : String) : parse path = ofSegments (segments path) :=
  ofChars_eq_ofSegments path.toList

end FieldPath

end QueryFilter
