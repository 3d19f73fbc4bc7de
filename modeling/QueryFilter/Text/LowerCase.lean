import QueryFilter.Text.CaseTable

/-!
# Lower case

The full lower-case mapping of texts. Two letters need care: the dotted capital I becomes two
characters, and a capital sigma at the end of a word becomes a final sigma.
-/

namespace QueryFilter.Text

/-- Whether a range maps a code. -/
def CaseRange.holds (r : CaseRange) (n : Nat) : Bool :=
  r.first ≤ n && n ≤ r.last && (n - r.first) % r.step == 0

/-- The lower-case form of a single character, where it is a single character. -/
def lowerChar (c : Char) : Char :=
  match lowerRanges.find? (·.holds c.toNat) with
  | some r => Char.ofNat (c.toNat + r.offset).toNat
  | none => c

/-- Whether a character is a letter with a case. -/
def isCased (c : Char) : Bool := casedRanges.any fun (a, b) => a ≤ c.toNat && c.toNat ≤ b

/-- Whether a character is ignored between the letters of a word. -/
def isCaseIgnorable (c : Char) : Bool :=
  caseIgnorableRanges.any fun (a, b) => a ≤ c.toNat && c.toNat ≤ b

/-- Whether a letter comes first once the ignored characters are dropped. -/
def letterFollows (cs : List Char) : Bool :=
  match cs.dropWhile isCaseIgnorable with
  | c :: _ => isCased c
  | [] => false

/-- The lower-case form of a character between the reversed text before it and the text after it.
A sigma is final when a letter comes before it and none after it. -/
def lowerBetween (before : List Char) (c : Char) (after : List Char) : List Char :=
  if c = '\u0130' then ['i', '\u0307']
  else if c = 'Σ' then
    if letterFollows before && !letterFollows after then ['ς'] else ['σ']
  else [lowerChar c]

/-- The lower-case form of a text whose part before it is given in reverse. -/
def lowerFrom (before : List Char) : List Char → List Char
  | [] => []
  | c :: cs => lowerBetween before c cs ++ lowerFrom (c :: before) cs

/-- The lower-case form of a text. -/
def lower (s : String) : String := String.ofList (lowerFrom [] s.toList)

end QueryFilter.Text
