import Mathlib.Data.List.Forall2
import QueryFilter.Json.Printer
import QueryFilter.Json.Reader

/-!
# Reading back what was printed

The indented text of a value is cut into the tokens of the value, and these drive the reader to the
value itself. Numbers are left out: what becomes of their digits is another matter.

* `Token.scanFrom_quote`: a text between quotes is one token, with any text behind it.
* `Draft.read?_of_spells`: a text that is cut into the tokens of a value is read as the value.
* `Draft.read?_pretty`: the indented text of a value without numbers is read as this value.
-/

namespace QueryFilter.Json

/-! ### Scanning -/

namespace Token

/-- Scan a text, with the tokens before it in reverse and no word under way. -/
def scanFrom (tokens : List Token) (cs : List Char) : Option (List Token) :=
  cs.foldlM scanChar ⟨tokens, .word []⟩ >>= Scan.end?

/-- Whether a text ends a word before it. -/
def BeginsApart (cs : List Char) : Prop :=
  ∀ c ∈ cs.head?, isSpace c ∨ c = '"' ∨ (ofMark? c).isSome

variable {tokens : List Token} {c : Char} {cs : List Char}

theorem scanFrom_cons (tokens : List Token) (c : Char) (cs : List Char) :
    scanFrom tokens (c :: cs) =
      scanChar ⟨tokens, .word []⟩ c >>= fun s => cs.foldlM scanChar s >>= Scan.end? := by
  rw [scanFrom, List.foldlM_cons, bind_assoc]

theorem scanFrom_space (h : isSpace c) : scanFrom tokens (c :: cs) = scanFrom tokens cs := by
  rw [scanFrom_cons, scanChar]
  simp [h, endWord, scanFrom]

theorem scanFrom_mark {t : Token} (h : ofMark? c = some t) :
    scanFrom tokens (c :: cs) = scanFrom (t :: tokens) cs := by
  have hspace : isSpace c = false := by
    unfold ofMark? at h
    split at h <;> first | rfl | cases h
  have hquote : c ≠ '"' := by
    rintro rfl
    cases h
  rw [scanFrom_cons, scanChar]
  simp [h, hspace, hquote, endWord, scanFrom]

/-- Whether a word may have a character: it is no mark and does not end a word in another way. -/
def isWordChar (c : Char) : Bool := !isSpace c && c != '"' && (ofMark? c).isNone

theorem scanChar_word (h : isWordChar c) (tokens : List Token) (chars : List Char) :
    scanChar ⟨tokens, .word chars⟩ c = some ⟨tokens, .word (c :: chars)⟩ := by
  simp only [isWordChar, Bool.and_eq_true, Bool.not_eq_true', bne_iff_ne,
    Option.isNone_iff_eq_none] at h
  obtain ⟨⟨hspace, hquote⟩, hmark⟩ := h
  simp [scanChar, hspace, hquote, hmark]

theorem foldlM_word {word : List Char} (h : word.all isWordChar) (tokens : List Token)
    (chars : List Char) :
    word.foldlM scanChar ⟨tokens, .word chars⟩ = some ⟨tokens, .word (word.reverse ++ chars)⟩ := by
  induction word generalizing chars with
  | nil => rfl
  | cons c cs ih =>
    rw [List.all_cons, Bool.and_eq_true] at h
    rw [List.foldlM_cons, scanChar_word h.1, List.reverse_cons, List.append_assoc,
      List.singleton_append, ← ih h.2]
    rfl

/-- A character that ends a word finds the same tokens, however the word was ended. -/
theorem scanChar_of_endWord {chars : List Char} {tokens' : List Token}
    (hend : endWord tokens chars = some tokens') (hc : isSpace c ∨ c = '"' ∨ (ofMark? c).isSome) :
    scanChar ⟨tokens, .word chars⟩ c = scanChar ⟨tokens', .word []⟩ c := by
  unfold scanChar
  dsimp only
  rw [hend]
  by_cases hspace : isSpace c
  · simp [hspace, endWord]
  · by_cases hquote : c = '"'
    · simp [hquote, endWord]
    · obtain ⟨m, hm⟩ := Option.isSome_iff_exists.1 ((hc.resolve_left hspace).resolve_left hquote)
      simp [hspace, hquote, hm, endWord]

/-- A word is one token if something ends it. -/
theorem scanFrom_word {word : List Char} {t : Token} (hword : word.all isWordChar)
    (hne : word ≠ []) (ht : ofWord? word = some t) (happart : BeginsApart cs) :
    scanFrom tokens (word ++ cs) = scanFrom (t :: tokens) cs := by
  have hend : endWord tokens word.reverse = some (t :: tokens) := by
    simp [endWord, hne, ht]
  rw [scanFrom, List.foldlM_append, foldlM_word hword, List.append_nil]
  change cs.foldlM scanChar ⟨tokens, .word word.reverse⟩ >>= Scan.end? = _
  cases cs with
  | nil =>
    change (endWord tokens word.reverse).map List.reverse = _
    rw [hend]
    rfl
  | cons c cs =>
    rw [scanFrom, List.foldlM_cons, List.foldlM_cons, scanChar_of_endWord hend (happart c rfl)]

/-! ### Strings -/

/-- What a part of a string may be for a character: the character, or its code. -/
def Unit.StandsFor (u : Unit) (c : Char) : Prop := u = .char c ∨ u = .code c.toNat

theorem not_surrogate (c : Char) : ¬(0xD800 ≤ c.toNat ∧ c.toNat < 0xE000) := by
  have h : c.toNat < 0xD800 ∨ 0xDFFF < c.toNat ∧ c.toNat < 0x110000 := c.valid
  omega

/-- Parts that stand for characters decode to these. -/
theorem decodeUnits_of_forall₂ {us : List Unit} {cs : List Char}
    (h : List.Forall₂ Unit.StandsFor us cs) : decodeUnits us = some cs := by
  induction h with
  | nil => rfl
  | @cons u c us cs hu _ ih =>
    obtain rfl | rfl := hu
    · rw [decodeUnits, ih]
      rfl
    · have hsurrogate := not_surrogate c
      -- a code behind this one is looked at only if this one is half of a pair
      cases us with
      | nil =>
        rw [decodeUnits, if_neg hsurrogate, ih, Char.ofNat_toNat]
        · rfl
        · simp
      | cons v vs =>
        cases v with
        | char d =>
          rw [decodeUnits, if_neg hsurrogate, ih, Char.ofNat_toNat]
          · rfl
          · simp
        | code n =>
          rw [decodeUnits, if_neg (by omega), if_neg (by omega), ih, Char.ofNat_toNat]
          rfl

/-- An escape that reads as one part of a string. -/
def Escapes (esc : List Char) (c : Char) : Prop :=
  ∃ u : Unit, u.StandsFor c ∧ ∀ (tokens : List Token) (us : List Unit),
    esc.foldlM scanChar ⟨tokens, .string us⟩ = some ⟨tokens, .string (u :: us)⟩

theorem hexValue?_hexDigit (n : Nat) : Text.hexValue? (Text.hexDigit n) = some (n % 16) := by
  have h (d : Fin 16) : Text.hexValue? (Nat.digitChar d) = some d.val := by
    revert d
    decide
  exact h ⟨n % 16, Nat.mod_lt n (by decide)⟩

/-- A code in four hexadecimal digits is that of a character of the basic plane. -/
theorem escapes_unicodeEscape {c : Char} (h : c.toNat < 0x10000) : Escapes (unicodeEscape c) c := by
  refine ⟨.code c.toNat, .inr rfl, fun tokens us => ?_⟩
  simp [unicodeEscape, scanChar, hexValue?_hexDigit]
  omega

/-- A one-letter escape is the character that it stands for. -/
theorem escapes_letter {e c : Char} (he : e ≠ 'u') (h : escaped? e = some c) :
    Escapes ['\\', e] c :=
  ⟨.char c, .inl rfl, fun tokens us => by simp [scanChar, he, h]⟩

theorem escapes_escapeChar (c : Char) : Escapes (escapeChar c) c := by
  unfold escapeChar
  split_ifs with hquote hbackslash _ _ _ _ _ hcontrol
  iterate 7
    · subst c
      exact escapes_letter (by decide) rfl
  · exact escapes_unicodeEscape (by omega)
  · exact ⟨.char c, .inl rfl, fun tokens us => by simp [scanChar, hquote, hbackslash, hcontrol]⟩

/-- Escapes of characters, one after the other, are the parts of a string. -/
theorem foldlM_escapes {escape : Char → List Char} (h : ∀ c, Escapes (escape c) c)
    (cs : List Char) (tokens : List Token) (us : List Unit) :
    ∃ vs, List.Forall₂ Unit.StandsFor vs cs ∧
      (cs.flatMap escape).foldlM scanChar ⟨tokens, .string us⟩ =
        some ⟨tokens, .string (vs.reverse ++ us)⟩ := by
  induction cs generalizing us with
  | nil => exact ⟨[], .nil, rfl⟩
  | cons c cs ih =>
    obtain ⟨u, hu, hscan⟩ := h c
    obtain ⟨vs, hvs, hrest⟩ := ih (u :: us)
    refine ⟨u :: vs, .cons hu hvs, ?_⟩
    rw [List.flatMap_cons, List.foldlM_append, hscan, List.reverse_cons, List.append_assoc,
      List.singleton_append, ← hrest]
    rfl

/-- A text between quotes is one token, with any text behind it. -/
theorem scanFrom_string {escape : Char → List Char} (h : ∀ c, Escapes (escape c) c) (s : String)
    (tokens : List Token) (cs : List Char) :
    scanFrom tokens ('"' :: s.toList.flatMap escape ++ '"' :: cs) =
      scanFrom (.string (some s) :: tokens) cs := by
  obtain ⟨us, hus, hscan⟩ := foldlM_escapes h s.toList tokens []
  have hopen : scanChar ⟨tokens, .word []⟩ '"' = some ⟨tokens, .string []⟩ := rfl
  have hclose : scanChar ⟨tokens, .string us.reverse⟩ '"' =
      some ⟨.string (some s) :: tokens, .word []⟩ := by
    simp [scanChar, decodeUnits_of_forall₂ hus]
  rw [List.append_nil] at hscan
  rw [List.cons_append, scanFrom_cons, hopen, Option.bind_eq_bind, Option.bind_some,
    List.foldlM_append, hscan]
  change List.foldlM scanChar ⟨tokens, .string us.reverse⟩ ('"' :: cs) >>= Scan.end? = _
  rw [List.foldlM_cons, hclose]
  rfl

theorem scanFrom_quote (s : String) (tokens : List Token) (cs : List Char) :
    scanFrom tokens ((quote s).toList ++ cs) = scanFrom (.string (some s) :: tokens) cs := by
  rw [← scanFrom_string escapes_escapeChar, quote]
  simp

/-! ### Texts of tokens -/

/-- A text that is cut into tokens, with anything behind it that ends a word. -/
def Spells (cs : List Char) (ts : List Token) : Prop :=
  ∀ tokens rest, BeginsApart rest →
    scanFrom tokens (cs ++ rest) = scanFrom (ts.reverse ++ tokens) rest

theorem beginsApart_cons_mark {t : Token} (h : ofMark? c = some t) (cs : List Char) :
    BeginsApart (c :: cs) := by
  rintro d ⟨⟩
  exact .inr (.inr (by rw [h]; rfl))

theorem scanFrom_newline (depth : Nat) (tokens : List Token) (cs : List Char) :
    scanFrom tokens ((newline depth).toList ++ cs) = scanFrom tokens cs := by
  have hspaces (n : Nat) : scanFrom tokens (List.replicate n ' ' ++ cs) = scanFrom tokens cs := by
    induction n with
    | zero => rfl
    | succ n ih => rw [List.replicate_succ, List.cons_append, scanFrom_space rfl, ih]
  rw [newline, String.toList_ofList, List.cons_append, scanFrom_space rfl, hspaces]

theorem beginsApart_newline (depth : Nat) (cs : List Char) :
    BeginsApart ((newline depth).toList ++ cs) := by
  rw [newline, String.toList_ofList, List.cons_append]
  rintro d ⟨⟩
  exact .inl rfl

/-- Items are their tokens with commas between them, where what separates them is a comma. -/
theorem spells_intercalate (separator : List Char)
    (hseparator : ∀ tokens cs, scanFrom tokens (separator ++ cs) = scanFrom (comma :: tokens) cs)
    (hseparates : ∀ cs, BeginsApart (separator ++ cs)) {items : List (List Char)}
    {tss : List (List Token)} (h : List.Forall₂ Spells items tss) :
    Spells (separator.intercalate items) ([comma].intercalate tss) := by
  induction h with
  | nil =>
    intro tokens rest _
    rw [List.intercalate_nil, List.intercalate_nil]
    rfl
  | @cons i ts items tss hi hrest ih =>
    intro tokens rest hapart
    cases hrest with
    | nil =>
      rw [List.intercalate_singleton, List.intercalate_singleton]
      exact hi tokens rest hapart
    | @cons j us items tss hj hrest =>
      simp only [List.intercalate_cons_cons, List.append_assoc]
      rw [hi _ _ (hseparates _), hseparator, ih _ _ hapart]
      simp

/-- Items on lines of their own are their tokens with commas between them. -/
theorem spells_lines (depth : Nat) {items : List String} {tss : List (List Token)}
    (h : List.Forall₂ (fun i ts => Spells i.toList ts) items tss) :
    Spells (String.intercalate ("," ++ newline depth) items).toList ([comma].intercalate tss) := by
  have hseparator : ("," ++ newline depth).toList = ',' :: (newline depth).toList := by
    rw [String.toList_append]
    rfl
  rw [String.toList_intercalate, hseparator]
  refine spells_intercalate _ (fun tokens cs => ?_) (fun cs => ?_) (List.forall₂_map_left_iff.2 h)
  · rw [List.cons_append, scanFrom_mark rfl, scanFrom_newline]
  · rw [List.cons_append]
    exact beginsApart_cons_mark rfl _

/-- Items between brackets are their tokens between those of the brackets. -/
theorem spells_block {opening closing : String} {a b : Char} {o c : Token}
    (hopening : opening.toList = [a]) (hclosing : closing.toList = [b]) (ho : ofMark? a = some o)
    (hc : ofMark? b = some c) (depth : Nat) {items : List String} {tss : List (List Token)}
    (h : List.Forall₂ (fun i ts => Spells i.toList ts) items tss) :
    Spells (block opening closing depth items).toList (o :: [comma].intercalate tss ++ [c]) := by
  intro tokens rest _
  unfold block
  cases items with
  | nil =>
    cases h
    simp [hopening, hclosing, scanFrom_mark ho, scanFrom_mark hc]
  | cons i items =>
    simp only [List.isEmpty_cons, Bool.false_eq_true, if_false, String.toList_append,
      hopening, hclosing, List.append_assoc, List.nil_append, List.cons_append]
    rw [scanFrom_mark ho, scanFrom_newline, spells_lines (depth + 1) h _ _
      (beginsApart_newline depth _), scanFrom_newline, scanFrom_mark hc]
    simp

/-- A text that is cut into tokens with anything behind it is cut into them by itself. -/
theorem Spells.scan_eq {cs : List Char} {ts : List Token} (h : Spells cs ts) :
    scan cs = some ts := by
  have hscan := h [] [] nofun
  rw [List.append_nil, List.append_nil] at hscan
  calc scan cs
    _ = scanFrom ts.reverse [] := hscan
    _ = some ts := by simp [scanFrom, Scan.end?, endWord]

end Token

/-! ### The tokens of a value -/

mutual

/-- The tokens of a value. -/
def tokens : Json → List Token
  | .scalar (.string s) => [.string (some s)]
  | .scalar s => [.plain (some s)]
  | .array xs => .openArray :: [Token.comma].intercalate (elementTokens xs) ++ [.closeArray]
  | .object ms => .openObject :: [Token.comma].intercalate (memberTokens ms) ++ [.closeObject]

/-- The tokens of each element of an array. -/
def elementTokens : List Json → List (List Token)
  | [] => []
  | x :: xs => x.tokens :: elementTokens xs

/-- The tokens of each member of an object. -/
def memberTokens : List (String × Json) → List (List Token)
  | [] => []
  | (k, x) :: ms => (.string (some k) :: .colon :: x.tokens) :: memberTokens ms

end

/-- A value in which there are no numbers. -/
inductive Numberless : Json → Prop
  | null : Numberless null
  | bool (b : Bool) : Numberless (bool b)
  | string (s : String) : Numberless (string s)
  | array {xs : List Json} : (∀ x ∈ xs, Numberless x) → Numberless (.array xs)
  | object {ms : List (String × Json)} : (∀ m ∈ ms, Numberless m.2) → Numberless (.object ms)

theorem forall₂_prettyElements {depth : Nat} {xs : List Json}
    (h : ∀ x ∈ xs, Token.Spells (x.prettyAt depth).toList x.tokens) :
    List.Forall₂ (fun i ts => Token.Spells i.toList ts) (prettyElements depth xs)
      (elementTokens xs) := by
  induction xs with
  | nil => exact .nil
  | cons x xs ih =>
    exact .cons (h x List.mem_cons_self) (ih fun y hy => h y (List.mem_cons_of_mem x hy))

theorem forall₂_prettyMembers {depth : Nat} {ms : List (String × Json)}
    (h : ∀ m ∈ ms, Token.Spells (m.2.prettyAt depth).toList m.2.tokens) :
    List.Forall₂ (fun i ts => Token.Spells i.toList ts) (prettyMembers depth ms)
      (memberTokens ms) := by
  induction ms with
  | nil => exact .nil
  | cons m ms ih =>
    refine .cons (fun tokens rest hapart => ?_) (ih fun n hn => h n (List.mem_cons_of_mem m hn))
    have hcolon : (": ").toList = [':', ' '] := rfl
    simp only [String.toList_append, hcolon, List.append_assoc, List.cons_append, List.nil_append]
    rw [Token.scanFrom_quote, Token.scanFrom_mark rfl, Token.scanFrom_space rfl,
      h m List.mem_cons_self _ _ hapart]
    simp

theorem spells_word {word : List Char} {s : Scalar} (hword : word.all Token.isWordChar)
    (hne : word ≠ []) (hs : Token.ofWord? word = some (.plain (some s))) :
    Token.Spells word [.plain (some s)] :=
  fun _ _ hapart => Token.scanFrom_word hword hne hs hapart

/-- The indented text of a value is cut into its tokens. -/
theorem Numberless.spells_prettyAt {v : Json} (h : Numberless v) (depth : Nat) :
    Token.Spells (v.prettyAt depth).toList v.tokens := by
  induction h generalizing depth with
  | null =>
    rw [prettyAt]
    exact spells_word (by decide) (by decide) rfl
  | bool b =>
    rw [prettyAt]
    cases b with
    | false => exact spells_word (by decide) (by decide) rfl
    | true => exact spells_word (by decide) (by decide) rfl
  | string s => exact fun tokens rest _ => Token.scanFrom_quote s tokens rest
  | array _ ih =>
    rw [prettyAt, tokens]
    exact Token.spells_block rfl rfl rfl rfl depth (forall₂_prettyElements fun x hx => ih x hx _)
  | object _ ih =>
    rw [prettyAt, tokens]
    exact Token.spells_block rfl rfl rfl rfl depth (forall₂_prettyMembers fun m hm => ih m hm _)

/-! ### Reading tokens -/

namespace Draft

open Machine

/-- Tokens that the reader takes for a value, wherever one may stand. -/
structure Reads (ts : List Token) (d : Draft) : Prop where
  /-- No closing bracket stands first, so an array may begin with the value. -/
  head : ∃ t us, ts = t :: us ∧ t ≠ .closeArray
  run : ∀ stack rest, (ts ++ rest).foldlM step ⟨stack, .value⟩ =
    complete? stack d >>= fun m => rest.foldlM step m

theorem Reads.run_firstElement {ts : List Token} {d : Draft} (h : Reads ts d) (stack : List Frame)
    (rest : List Token) :
    (ts ++ rest).foldlM step ⟨stack, .firstElement⟩ =
      (ts ++ rest).foldlM step ⟨stack, .value⟩ := by
  obtain ⟨t, us, rfl, ht⟩ := h.head
  have hstep : step ⟨stack, .firstElement⟩ t = step ⟨stack, .value⟩ t := by
    cases t <;> first | rfl | exact absurd rfl ht
  rw [List.cons_append, List.foldlM_cons, List.foldlM_cons, hstep]

/-- Values with commas between them are the next elements of the open array. -/
theorem run_elements {tss : List (List Token)} {ds : List Draft} (h : List.Forall₂ Reads tss ds)
    (hne : tss ≠ []) (xs : List Draft) (stack : List Frame) (rest : List Token) :
    ([Token.comma].intercalate tss ++ .closeArray :: rest).foldlM step
        ⟨.array xs :: stack, .value⟩ =
      complete? stack (.array (xs.reverse ++ ds)) >>= fun m => rest.foldlM step m := by
  induction h generalizing xs with
  | nil => exact absurd rfl hne
  | @cons ts d tss ds hd hrest ih =>
    cases hrest with
    | nil =>
      rw [List.intercalate_singleton, hd.run]
      simp [complete?, step, close?]
    | @cons us e tss ds he hrest =>
      simp only [List.intercalate_cons_cons, List.append_assoc, List.singleton_append]
      rw [hd.run]
      have hcomma : step ⟨.array (d :: xs) :: stack, .separator⟩ .comma =
          some ⟨.array (d :: xs) :: stack, .value⟩ := rfl
      rw [complete?, Option.bind_eq_bind, Option.bind_some, List.cons_append, List.foldlM_cons,
        hcomma, Option.bind_eq_bind, Option.bind_some, ih (List.cons_ne_nil _ _)]
      simp

/-- Values with commas between them, in brackets, are read as an array. -/
theorem reads_array {tss : List (List Token)} {ds : List Draft} (h : List.Forall₂ Reads tss ds) :
    Reads (.openArray :: [Token.comma].intercalate tss ++ [.closeArray]) (.array ds) where
  head := ⟨_, _, rfl, by decide⟩
  run stack rest := by
    have hopen : step ⟨stack, .value⟩ .openArray = some ⟨.array [] :: stack, .firstElement⟩ := rfl
    rw [List.cons_append, List.cons_append, List.append_assoc, List.foldlM_cons, hopen,
      Option.bind_eq_bind, Option.bind_some]
    cases h with
    | nil => rfl
    | @cons ts d tss ds hd hrest =>
      obtain ⟨us, hus⟩ : ∃ us, [Token.comma].intercalate (ts :: tss) = ts ++ us := by
        cases hrest with
        | nil => exact ⟨[], by rw [List.intercalate_singleton, List.append_nil]⟩
        | cons _ _ => exact ⟨_, by rw [List.intercalate_cons_cons, List.append_assoc]⟩
      have hrun := run_elements (.cons hd hrest) (List.cons_ne_nil _ _) [] stack rest
      rw [hus, List.append_assoc] at hrun ⊢
      rw [hd.run_firstElement]
      exact hrun

/-- Tokens that the reader takes for a member of an object. -/
def ReadsMember (ts : List Token) (m : Option String × Draft) : Prop :=
  ∃ us, ts = .string m.1 :: .colon :: us ∧ Reads us m.2

theorem ReadsMember.run {ts : List Token} {m : Option String × Draft} (h : ReadsMember ts m)
    {e : Expected} (he : e = .firstKey ∨ e = .key) (ms : List (Option String × Draft))
    (stack : List Frame) (rest : List Token) :
    (ts ++ rest).foldlM step ⟨.object ms :: stack, e⟩ =
      rest.foldlM step ⟨.object (m :: ms) :: stack, .separator⟩ := by
  obtain ⟨us, rfl, hus⟩ := h
  have hkey : step ⟨.object ms :: stack, e⟩ (.string m.1) =
      some ⟨.member ms m.1 :: stack, .colon⟩ := by
    obtain rfl | rfl := he <;> rfl
  have hcolon : step ⟨.member ms m.1 :: stack, .colon⟩ .colon =
      some ⟨.member ms m.1 :: stack, .value⟩ := rfl
  rw [List.cons_append, List.cons_append, List.foldlM_cons, hkey, Option.bind_eq_bind,
    Option.bind_some, List.foldlM_cons, hcolon, Option.bind_eq_bind, Option.bind_some, hus.run]
  rfl

/-- Members with commas between them are the next members of the open object. -/
theorem run_members {tss : List (List Token)} {ns : List (Option String × Draft)}
    (h : List.Forall₂ ReadsMember tss ns) (hne : tss ≠ []) {e : Expected}
    (he : e = .firstKey ∨ e = .key) (ms : List (Option String × Draft)) (stack : List Frame)
    (rest : List Token) :
    ([Token.comma].intercalate tss ++ .closeObject :: rest).foldlM step
        ⟨.object ms :: stack, e⟩ =
      complete? stack (.object (ms.reverse ++ ns)) >>= fun m => rest.foldlM step m := by
  induction h generalizing ms e with
  | nil => exact absurd rfl hne
  | @cons ts n tss ns hn hrest ih =>
    cases hrest with
    | nil =>
      rw [List.intercalate_singleton, hn.run he]
      simp [step, close?]
    | @cons us m tss ns hm hrest =>
      simp only [List.intercalate_cons_cons, List.append_assoc, List.singleton_append]
      have hcomma : step ⟨.object (n :: ms) :: stack, .separator⟩ .comma =
          some ⟨.object (n :: ms) :: stack, .key⟩ := rfl
      rw [hn.run he, List.cons_append, List.foldlM_cons, hcomma, Option.bind_eq_bind,
        Option.bind_some, ih (List.cons_ne_nil _ _) (.inr rfl)]
      simp

/-- Members with commas between them, in braces, are read as an object. -/
theorem reads_object {tss : List (List Token)} {ms : List (Option String × Draft)}
    (h : List.Forall₂ ReadsMember tss ms) :
    Reads (.openObject :: [Token.comma].intercalate tss ++ [.closeObject]) (.object ms) where
  head := ⟨_, _, rfl, by decide⟩
  run stack rest := by
    have hopen : step ⟨stack, .value⟩ .openObject = some ⟨.object [] :: stack, .firstKey⟩ := rfl
    rw [List.cons_append, List.cons_append, List.append_assoc, List.foldlM_cons, hopen,
      Option.bind_eq_bind, Option.bind_some]
    cases h with
    | nil => rfl
    | cons hm hrest =>
      exact run_members (.cons hm hrest) (List.cons_ne_nil _ _) (.inl rfl) [] stack rest

theorem ofMembers_eq_map (ms : List (String × Json)) :
    ofMembers ms = ms.map fun m => (some m.1, ofJson m.2) := by
  induction ms with
  | nil => rfl
  | cons m ms ih => rw [ofMembers, ih, List.map_cons]

theorem ofElements_eq_map (xs : List Json) : ofElements xs = xs.map ofJson := by
  induction xs with
  | nil => rfl
  | cons x xs ih => rw [ofElements, ih, List.map_cons]

theorem forall₂_elementTokens {xs : List Json} (h : ∀ x ∈ xs, Reads x.tokens (ofJson x)) :
    List.Forall₂ Reads (elementTokens xs) (ofElements xs) := by
  induction xs with
  | nil => exact .nil
  | cons x xs ih =>
    exact .cons (h x List.mem_cons_self) (ih fun y hy => h y (List.mem_cons_of_mem x hy))

theorem forall₂_memberTokens {ms : List (String × Json)}
    (h : ∀ m ∈ ms, Reads m.2.tokens (ofJson m.2)) :
    List.Forall₂ ReadsMember (memberTokens ms) (ofMembers ms) := by
  induction ms with
  | nil => exact .nil
  | cons m ms ih =>
    exact .cons ⟨_, rfl, h m List.mem_cons_self⟩ (ih fun n hn => h n (List.mem_cons_of_mem m hn))

theorem reads_scalar (s : Scalar) : Reads (tokens (.scalar s)) (.scalar (some s)) := by
  cases s <;> exact ⟨⟨_, _, rfl, by simp⟩, fun _ _ => rfl⟩

/-- The tokens of a value are read as the value. -/
theorem reads_tokens {v : Json} (h : v.Numberless) :
    Reads v.tokens (ofJson v) := by
  induction h with
  | null | bool _ | string _ => exact reads_scalar _
  | array _ ih => exact reads_array (forall₂_elementTokens ih)
  | object _ ih => exact reads_object (forall₂_memberTokens ih)

/-- A text that is cut into the tokens of a value is read as the value. -/
theorem read?_of_spells {v : Json} (h : v.Numberless) {text : String}
    (htext : Token.Spells text.toList v.tokens) : read? text = some (ofJson v) := by
  have hrun := (reads_tokens h).run [] []
  rw [List.append_nil] at hrun
  rw [read?, htext.scan_eq, Option.bind_eq_bind, Option.bind_some, ofTokens?, hrun]
  rfl

/-- **Printed values are read back.** The indented text of a value without numbers is read as this
value. -/
theorem read?_pretty {v : Json} (h : v.Numberless) : read? v.pretty = some (ofJson v) :=
  read?_of_spells h (h.spells_prettyAt 0)

end Draft

end QueryFilter.Json
