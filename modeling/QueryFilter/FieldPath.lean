/-!
# Field paths

A path names an attribute by segments between dots. A segment before the last may carry markers
that ask for the type of the join it leads through: `<` before the name or `?` after it for a left
join, `>` before the name for a right join. The last segment is taken as it is.
-/

namespace QueryFilter

/-- The type of a join. -/
inductive JoinType
  | inner
  | left
  | right
  deriving DecidableEq, Repr

/-- The keyword of a join type. -/
def JoinType.keyword : JoinType → String
  | inner => "INNER JOIN"
  | left => "LEFT JOIN"
  | right => "RIGHT JOIN"

namespace FieldPath

/-- The first segment of a path, without its markers. -/
structure Segment where
  name : List Char
  join : JoinType
  deriving DecidableEq, Repr

/-- Cut a path at its first dot; without one there is no remainder. -/
def cut : List Char → List Char × Option (List Char)
  | [] => ([], none)
  | c :: cs => if c = '.' then ([], some cs) else
    let (head, rest) := cut cs
    (c :: head, rest)

/-- A path that is not cut has no dot. -/
theorem cut_eq_none {cs head : List Char} (h : cut cs = (head, none)) :
    head = cs ∧ '.' ∉ cs := by
  induction cs generalizing head with
  | nil => simp_all [cut]
  | cons c cs ih =>
    simp only [cut] at h
    split at h
    · simp at h
    · rename_i hc
      simp only [Prod.mk.injEq] at h
      obtain ⟨hh, hn⟩ := @ih (cut cs).1 (Prod.ext rfl h.2)
      refine ⟨by rw [← h.1, hh], ?_⟩
      simp only [List.mem_cons, not_or]
      exact ⟨fun e => hc e.symm, hn⟩

/-- The two parts of a path and the dot between them are the path, and the dot is the first one. -/
theorem cut_eq_some {cs head rest : List Char} (h : cut cs = (head, some rest)) :
    cs = head ++ '.' :: rest ∧ '.' ∉ head := by
  induction cs generalizing head with
  | nil => simp [cut] at h
  | cons c cs ih =>
    simp only [cut] at h
    split at h
    · simp_all
    · rename_i hc
      simp only [Prod.mk.injEq] at h
      obtain ⟨hh, hn⟩ := @ih (cut cs).1 (Prod.ext rfl h.2)
      rw [← h.1]
      refine ⟨by rw [List.cons_append, ← hh], ?_⟩
      simp only [List.mem_cons, not_or]
      exact ⟨fun e => hc e.symm, hn⟩

/-- The remainder after the first dot is shorter than the path. -/
theorem length_lt_of_cut {cs head rest : List Char} (h : cut cs = (head, some rest)) :
    rest.length < cs.length := by
  rw [(cut_eq_some h).1]
  simp only [List.length_append, List.length_cons]
  omega

/-- Whether a character asks for a join type before a name. -/
def isMarker (c : Char) : Bool := c == '<' || c == '>'

/-- The name in a segment and the join type that its markers ask for. -/
def readMarkers (cs : List Char) : Segment :=
  let markers := cs.takeWhile isMarker
  let name := cs.dropWhile isMarker
  let optional := name.getLast? = some '?'
  { name := if optional then name.dropLast else name
    join :=
      if '<' ∈ markers ∨ optional then .left else if '>' ∈ markers then .right else .inner }

/-- The first segment of a path and the remainder; none when the name or the remainder is empty.
Only a segment with a remainder has markers. -/
def next? (cs : List Char) : Option (Segment × Option (List Char)) :=
  match cut cs with
  | (head, none) => if head = [] then none else some (⟨head, .inner⟩, none)
  | (head, some rest) =>
    let segment := readMarkers head
    if segment.name = [] ∨ rest = [] then none else some (segment, some rest)

/-- The remainder of a path is shorter. -/
theorem length_lt_of_next? {cs rest : List Char} {s : Segment}
    (h : next? cs = some (s, some rest)) : rest.length < cs.length := by
  unfold next? at h
  split at h
  · split at h <;> simp at h
  · rename_i head r hc
    dsimp only at h
    split at h
    · simp at h
    · simp only [Option.some.injEq, Prod.mk.injEq] at h
      exact h.2 ▸ length_lt_of_cut hc

/-- The number of segments of a path. -/
def countSegments (cs : List Char) : Nat := cs.count '.' + 1

end FieldPath

/-- A path as it is walked: steps that lead on, and at the end a name, or the text of a remainder
with an empty segment. -/
inductive FieldPath
  | last (name : String)
  | step (name : String) (join : JoinType) (rest : FieldPath)
  | broken (text : String)
  deriving DecidableEq, Repr

namespace FieldPath

/-- Walk a path segment by segment. -/
def ofChars (cs : List Char) : FieldPath :=
  match h : next? cs with
  | none => .broken (String.ofList cs)
  | some (s, none) => .last (String.ofList s.name)
  | some (s, some rest) =>
    have := length_lt_of_next? h
    .step (String.ofList s.name) s.join (ofChars rest)
termination_by cs.length

/-- The steps of a path. -/
def parse (path : String) : FieldPath := ofChars path.toList

end FieldPath

end QueryFilter
