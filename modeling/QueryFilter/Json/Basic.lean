import QueryFilter.Binary

/-!
# JSON values

Objects keep the order of their members, and a number remembers whether it was written as an
integer. Everything but arrays and objects is a `Scalar`, which is what a filter compares with.
-/

namespace QueryFilter

/-- A number: an integer, or a finite 64-bit binary number. -/
inductive Json.Number
  | int (value : Int)
  | float (value : Binary Binary.double)
  deriving DecidableEq, Repr

/-- A value without parts. -/
inductive Json.Scalar
  | null
  | bool (value : Bool)
  | number (value : Json.Number)
  | string (value : String)
  deriving DecidableEq, Repr

/-- A JSON value. -/
inductive Json
  | scalar (value : Json.Scalar)
  | array (elements : List Json)
  | object (members : List (String × Json))
  deriving Repr

namespace Json

instance : Inhabited Json := ⟨.scalar .null⟩

/-- The value `null`. -/
abbrev null : Json := .scalar .null

/-- A truth value. -/
abbrev bool (b : Bool) : Json := .scalar (.bool b)

/-- An integer. -/
abbrev int (n : Int) : Json := .scalar (.number (.int n))

/-- A text. -/
abbrev string (s : String) : Json := .scalar (.string s)

/-- The members of an object. -/
abbrev Members := List (String × Json)

mutual

/-- Equality of values is decidable. -/
def decEq : (a b : Json) → Decidable (a = b)
  | .scalar s, .scalar t => decidable_of_iff (s = t) (by simp)
  | .array xs, .array ys =>
    have := decEqElements xs ys
    decidable_of_iff (xs = ys) (by simp)
  | .object ms, .object ns =>
    have := decEqMembers ms ns
    decidable_of_iff (ms = ns) (by simp)
  | .scalar _, .array _ => isFalse (by simp)
  | .scalar _, .object _ => isFalse (by simp)
  | .array _, .scalar _ => isFalse (by simp)
  | .array _, .object _ => isFalse (by simp)
  | .object _, .scalar _ => isFalse (by simp)
  | .object _, .array _ => isFalse (by simp)

/-- Equality of lists of values is decidable. -/
def decEqElements : (xs ys : List Json) → Decidable (xs = ys)
  | [], [] => isTrue rfl
  | [], _ :: _ => isFalse (by simp)
  | _ :: _, [] => isFalse (by simp)
  | x :: xs, y :: ys =>
    have := decEq x y
    have := decEqElements xs ys
    decidable_of_iff (x = y ∧ xs = ys) (by simp)

/-- Equality of member lists is decidable. -/
def decEqMembers : (ms ns : List (String × Json)) → Decidable (ms = ns)
  | [], [] => isTrue rfl
  | [], _ :: _ => isFalse (by simp)
  | _ :: _, [] => isFalse (by simp)
  | (k, x) :: ms, (l, y) :: ns =>
    have := decEq x y
    have := decEqMembers ms ns
    decidable_of_iff (k = l ∧ x = y ∧ ms = ns) (by simp [and_assoc])

end

instance : DecidableEq Json := decEq

/-- The scalar that a value is, if it has no parts. -/
def scalar? : Json → Option Scalar
  | .scalar s => some s
  | _ => none

/-- The first member with a key. -/
def Members.get? (ms : Members) (key : String) : Option Json := ms.lookup key

/-- Set a member: a key keeps its first position and takes its last value. -/
def Members.set : Members → String → Json → Members
  | [], key, v => [(key, v)]
  | (k, w) :: ms, key, v => if k = key then (k, v) :: ms else (k, w) :: Members.set ms key v

/-- Only the key that is set finds something new. -/
theorem Members.get?_set (ms : Members) (key : String) (v : Json) (name : String) :
    (ms.set key v).get? name = if key = name then some v else ms.get? name := by
  simp only [Members.get?]
  induction ms with
  | nil =>
    by_cases h : key = name
    · simp [Members.set, h]
    · have : (name == key) = false := by simpa using fun e => h e.symm
      simp [Members.set, List.lookup_cons, h, this]
  | cons m ms ih =>
    obtain ⟨k, w⟩ := m
    unfold Members.set
    split
    · rename_i hk
      subst hk
      by_cases h : k = name
      · simp [h]
      · have : (name == k) = false := by simpa using fun e => h e.symm
        simp [List.lookup_cons, h, this]
    · rename_i hk
      by_cases h : k = name
      · have : ¬key = name := fun e => hk (h.trans e.symm)
        simp [h, this]
      · have : (name == k) = false := by simpa using fun e => h e.symm
        simp [List.lookup_cons, this, ih]

/-- A key keeps its place, and a new one comes last. -/
theorem Members.map_key_set (ms : Members) (key : String) (v : Json) :
    (ms.set key v).map (·.1) =
      if key ∈ ms.map (·.1) then ms.map (·.1) else ms.map (·.1) ++ [key] := by
  induction ms with
  | nil => simp [Members.set]
  | cons m ms ih =>
    obtain ⟨k, w⟩ := m
    unfold Members.set
    split
    · rename_i hk
      simp [hk]
    · rename_i hk
      have : key ≠ k := fun e => hk e.symm
      simp only [List.map_cons, ih, List.mem_cons, this, false_or]
      split <;> simp

/-- The members of an object as they are set one after the other. -/
def Members.ofList (ms : List (String × Json)) : Members :=
  ms.foldl (fun acc m => acc.set m.1 m.2) []

/-- The keys of an object are different. -/
theorem Members.nodup_ofList (ms : List (String × Json)) :
    ((Members.ofList ms).map (·.1)).Nodup := by
  suffices h : ∀ acc : Members, (acc.map (·.1)).Nodup →
      ((ms.foldl (fun acc m => acc.set m.1 m.2) acc).map (·.1)).Nodup from h [] List.nodup_nil
  induction ms with
  | nil => exact fun _ h => h
  | cons m ms ih =>
    intro acc h
    refine ih _ ?_
    rw [Members.map_key_set]
    split
    · exact h
    · rename_i hk
      exact List.nodup_append.2 ⟨h, by simp, fun a ha b hb e => hk (by simp_all)⟩

end Json

end QueryFilter
