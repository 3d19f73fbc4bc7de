import QueryFilter.Json.Basic
import QueryFilter.Decimal.Basic

/-!
# JSON tokens

A text is cut into tokens one character at a time. A number that is too large and a string with
half of a surrogate pair are tokens without a value: the text that holds them is well formed, but
whoever asks for the value is refused.
-/

namespace QueryFilter.Json

/-- A token. The value of a plain word or of a string may be missing. -/
inductive Token
  | openArray
  | closeArray
  | openObject
  | closeObject
  | colon
  | comma
  | plain (value : Option Scalar)
  | string (value : Option String)
  deriving DecidableEq, Repr

namespace Token

/-- The white space between tokens. -/
def isSpace (c : Char) : Bool := c == ' ' || c == '\t' || c == '\n' || c == '\r'

/-- The marks that stand for themselves. -/
def ofMark? : Char → Option Token
  | '[' => some openArray
  | ']' => some closeArray
  | '\x7b' => some openObject
  | '\x7d' => some closeObject
  | ':' => some colon
  | ',' => some comma
  | _ => none

/-! ### Numbers -/

/-- The value of a number literal. An integer has to fit a signed or an unsigned 64-bit word and
minus zero is no integer; every other literal is the nearest 64-bit binary number. -/
def numberValue? (l : Decimal.Literal) (integer : Bool) : Option Number :=
  let n : Int := Text.digitsValue l.whole
  let i := if l.negative then -n else n
  if integer ∧ ¬(l.negative ∧ n = 0) ∧ -Int.pow 2 63 ≤ i ∧ i < Int.pow 2 64 then some (.int i)
  else (l.value.toBinary? Binary.double).map .float

/-- The fraction of a number; a point needs a digit after it. -/
def readFraction : List Char → Option (List Char × List Char)
  | '.' :: cs =>
    let (digits, rest) := Decimal.readDigits cs
    if digits.isEmpty then none else some (digits, rest)
  | cs => some ([], cs)

/-- A whole word as a number: no plus sign, no superfluous zero, digits around the point. -/
def ofNumber? (word : List Char) : Option Token := do
  let (negative, cs) := match word with
    | '-' :: cs => (true, cs)
    | cs => (false, cs)
  let (whole, tail) := Decimal.readDigits cs
  if whole.isEmpty ∨ (whole.head? = some '0' ∧ whole.length ≠ 1) then none
  else
    let (fraction, rest) ← readFraction tail
    let (exponent, rest) ← Decimal.readExponent rest
    if rest.isEmpty then
      let value := numberValue? ⟨negative, whole, fraction, exponent⟩ tail.isEmpty
      some (plain (value.map .number))
    else none

/-- A run of characters between marks, strings and white space. -/
def ofWord? (word : List Char) : Option Token :=
  if word = "null".toList then some (plain (some .null))
  else if word = "true".toList then some (plain (some (.bool true)))
  else if word = "false".toList then some (plain (some (.bool false)))
  else ofNumber? word

/-! ### Strings -/

/-- A part of a string: a character, or an escaped 16-bit code. -/
inductive Unit
  | char (c : Char)
  | code (n : Nat)
  deriving DecidableEq, Repr

/-- The characters that the parts of a string stand for; a code between U+D800 and U+DFFF has to
be the first or the second half of a pair. -/
def decodeUnits : List Unit → Option (List Char)
  | [] => some []
  | .char c :: us => (decodeUnits us).map (c :: ·)
  | .code hi :: .code lo :: us =>
    if 0xD800 ≤ hi ∧ hi < 0xDC00 then
      if 0xDC00 ≤ lo ∧ lo < 0xE000 then
        (decodeUnits us).map (Char.ofNat (0x10000 + (hi - 0xD800) * 0x400 + (lo - 0xDC00)) :: ·)
      else none
    else if 0xDC00 ≤ hi ∧ hi < 0xE000 then none
    else (decodeUnits (.code lo :: us)).map (Char.ofNat hi :: ·)
  | .code n :: us =>
    if 0xD800 ≤ n ∧ n < 0xE000 then none else (decodeUnits us).map (Char.ofNat n :: ·)

/-- The character that a one-letter escape stands for. -/
def escaped? : Char → Option Char
  | '"' => some '"'
  | '\\' => some '\\'
  | '/' => some '/'
  | 'b' => some '\x08'
  | 'f' => some '\x0c'
  | 'n' => some '\n'
  | 'r' => some '\r'
  | 't' => some '\t'
  | _ => none

/-! ### The scanner -/

/-- What the scanner is in the middle of; lists of parts are in reverse. -/
inductive Mode
  | word (chars : List Char)
  | string (units : List Unit)
  | escape (units : List Unit)
  | hex (units : List Unit) (missing : Nat) (value : Nat)

/-- The tokens read so far, in reverse, and the one under way. -/
structure Scan where
  tokens : List Token
  mode : Mode

/-- End the word under way, if there is one. -/
def endWord (tokens : List Token) (chars : List Char) : Option (List Token) :=
  if chars.isEmpty then some tokens else (ofWord? chars.reverse).map (· :: tokens)

/-- Read one character. -/
def scanChar (s : Scan) (c : Char) : Option Scan :=
  match s.mode with
  | .word chars =>
    if isSpace c then do
      let tokens ← endWord s.tokens chars
      some ⟨tokens, .word []⟩
    else if c = '"' then do
      let tokens ← endWord s.tokens chars
      some ⟨tokens, .string []⟩
    else match ofMark? c with
      | some mark => do
        let tokens ← endWord s.tokens chars
        some ⟨mark :: tokens, .word []⟩
      | none => some ⟨s.tokens, .word (c :: chars)⟩
  | .string units =>
    if c = '"' then
      let value := (decodeUnits units.reverse).map String.ofList
      some ⟨.string value :: s.tokens, .word []⟩
    else if c = '\\' then some ⟨s.tokens, .escape units⟩
    else if c.toNat < 0x20 then none
    else some ⟨s.tokens, .string (.char c :: units)⟩
  | .escape units =>
    if c = 'u' then some ⟨s.tokens, .hex units 3 0⟩
    else (escaped? c).map fun e => ⟨s.tokens, .string (.char e :: units)⟩
  | .hex units missing value =>
    (Text.hexValue? c).map fun d =>
      match missing with
      | 0 => ⟨s.tokens, .string (.code (16 * value + d) :: units)⟩
      | missing + 1 => ⟨s.tokens, .hex units missing (16 * value + d)⟩

/-- End the text: a word may be under way, a string may not. -/
def Scan.end? (s : Scan) : Option (List Token) :=
  match s.mode with
  | .word chars => (endWord s.tokens chars).map List.reverse
  | _ => none

/-- The tokens of a text. -/
def scan (cs : List Char) : Option (List Token) := do
  let s ← cs.foldlM scanChar ⟨[], .word []⟩
  s.end?

end Token

end QueryFilter.Json
