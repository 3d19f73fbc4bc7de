import QueryFilter.Calendar.Printer
import QueryFilter.Calendar.Reader
import QueryFilter.Proofs.Digits

/-!
# Written dates and times are read back

Each reader is run on what the matching printer writes, with any text behind it that does not carry
on the number at the end. The strict grammar takes a year of four digits only, and the loose one no
seconds where an offset follows, so a date-time with an offset and a longer year is not read.

* `number_of_length` and `number_of_end`: a number of a fixed width, and one up to its end;
* `looseDate_text` and `looseDateTime_text`: days and local date-times;
* `strictOffset_offsetText`: offsets;
* `strictOffsetDateTime_text` and `looseOffsetDateTime_text`: the two grammars of date-times with
  an offset;
* `OffsetDateTime.read?_text`: which of them are read back.
-/

namespace QueryFilter.Calendar

open Text

namespace Reader

/-! ### Steps of a reader -/

section

variable {α β : Type}

theorem bind_apply (r : Reader α) (f : α → Reader β) (cs : List Char) :
    (r >>= f) cs = (r cs).bind fun p => f p.1 p.2 := rfl

@[simp] theorem pure_apply (a : α) (cs : List Char) : (pure a : Reader α) cs = some (a, cs) := rfl

@[simp] theorem get_apply (cs : List Char) :
    (get : Reader (List Char)) cs = some (cs, cs) := rfl

@[simp] theorem ofOption_some (a : α) (cs : List Char) : ofOption (some a) cs = some (a, cs) := rfl

/-- A reader goes on behind what its first step has read. -/
theorem bind_of_some {r : Reader α} {f : α → Reader β} {cs rest : List Char} {a : α}
    (h : r cs = some (a, rest)) : (r >>= f) cs = f a rest := by
  rw [bind_apply, h, Option.bind_some]

/-- A reader refuses what its first step refuses. -/
theorem bind_of_none {r : Reader α} {f : α → Reader β} {cs : List Char} (h : r cs = none) :
    (r >>= f) cs = none := by
  rw [bind_apply, h, Option.bind_none]

theorem run?_of_some {r : Reader α} {cs : List Char} {a : α} (h : r cs = some (a, [])) :
    r.run? cs = some a := by
  rw [run?, h]

theorem run?_of_none {r : Reader α} {cs : List Char} (h : r cs = none) : r.run? cs = none := by
  rw [run?, h]

end

@[simp] theorem char_cons (c : Char) (cs : List Char) : char c (c :: cs) = some ((), cs) :=
  if_pos rfl

theorem oneOf_cons {c : Char} {accepted : List Char} (h : c ∈ accepted) (cs : List Char) :
    oneOf accepted (c :: cs) = some (c, cs) :=
  if_pos h

/-! ### Numbers -/

section

variable {least : Nat} {ds rest : List Char}

/-- A number of the greatest width is read whatever follows. -/
theorem number_of_length {width : Nat} (hds : ∀ d ∈ ds, d.isDigit) (hlength : ds.length = width)
    (hleast : least ≤ width) :
    number least (some width) (ds ++ rest) = some (digitsValue ds, rest) := by
  have hrun : ((ds ++ rest).takeWhile Char.isDigit).take width = ds := by
    rw [List.takeWhile_append_of_pos hds, List.take_left' hlength]
  simp only [number]
  rw [hrun, if_neg (by omega), List.drop_left]

/-- A number of any width is read up to its end. -/
theorem number_of_end (hds : ∀ d ∈ ds, d.isDigit) (hleast : least ≤ ds.length)
    (hrest : rest.takeWhile Char.isDigit = []) :
    number least none (ds ++ rest) = some (digitsValue ds, rest) := by
  have hrun : (ds ++ rest).takeWhile Char.isDigit = ds := by
    rw [List.takeWhile_append_of_pos hds, hrest, List.append_nil]
  simp only [number]
  rw [hrun, if_neg (by omega), List.drop_left]

theorem head?_ne_of_digits (hds : ∀ d ∈ ds, d.isDigit) (hne : ds ≠ []) {c : Char}
    (hc : c.isDigit = false) : (ds ++ rest).head? ≠ some c := by
  cases ds with
  | nil => exact absurd rfl hne
  | cons d ds =>
    rintro ⟨⟩
    exact Bool.eq_false_iff.1 hc (hds _ List.mem_cons_self)

/-- Digits are no blanks to skip. -/
theorem skip_isBlank (hds : ∀ d ∈ ds, d.isDigit) (hne : ds ≠ []) :
    skip isBlank (ds ++ rest) = some ((), ds ++ rest) := by
  cases ds with
  | nil => exact absurd rfl hne
  | cons d ds =>
    rw [skip, List.cons_append, List.dropWhile_cons_of_neg]
    simp [isBlank_of_isDigit (hds d List.mem_cons_self)]

end

theorem number_lastDigits {width n : Nat} (h : n < 10 ^ width) (rest : List Char) :
    number width (some width) (lastDigits width n ++ rest) = some (n, rest) := by
  rw [number_of_length (fun _ => isDigit_of_mem_lastDigits) (length_lastDigits ..) le_rfl,
    digitsValue_lastDigits_of_lt h]

theorem loosePart_lastDigits {n : Nat} (h : n < 10 ^ 2) (rest : List Char) :
    loosePart (lastDigits 2 n ++ rest) = some (n, rest) := by
  have hdigits : ∀ d ∈ lastDigits 2 n, d.isDigit := fun _ => isDigit_of_mem_lastDigits
  rw [loosePart, bind_of_some (skip_isBlank hdigits (List.cons_ne_nil _ _)),
    number_of_length hdigits (length_lastDigits ..) (by decide), digitsValue_lastDigits_of_lt h]

/-! ### Years -/

theorem number_padded {year : Nat} {rest : List Char}
    (hrest : rest.takeWhile Char.isDigit = []) :
    number 1 none (padded 4 year ++ rest) = some (year, rest) := by
  have := le_length_padded 4 year
  rw [number_of_end (fun _ => isDigit_of_mem_padded) (by omega) hrest, digitsValue_padded]

theorem number_padded_of_lt {least year : Nat} (h : year < 10 ^ 4) (hleast : least ≤ 4)
    (rest : List Char) :
    number least (some 4) (padded 4 year ++ rest) = some (year, rest) := by
  rw [number_of_length (fun _ => isDigit_of_mem_padded) (length_padded (by decide) h) hleast,
    digitsValue_padded]

theorem looseYear_minus (cs : List Char) :
    looseYear ('-' :: cs) = (number 1 none >>= fun n => pure (-(n : Int))) cs := rfl

theorem looseYear_plus (cs : List Char) :
    looseYear ('+' :: cs) = (number 1 none >>= fun n => pure (n : Int)) cs := rfl

theorem looseYear_unsigned {cs : List Char} (hskip : skip isBlank cs = some ((), cs))
    (hminus : cs.head? ≠ some '-') (hplus : cs.head? ≠ some '+') :
    looseYear cs = (number 1 (some 4) >>= fun n => pure (n : Int)) cs := by
  rw [looseYear, bind_of_some hskip, bind_of_some (get_apply _)]
  refine congrFun ?_ cs
  split
  · exact absurd rfl hminus
  · exact absurd rfl hplus
  · rfl

/-- A year is read with or without a sign. -/
theorem looseYear_yearText (year : Int) {rest : List Char}
    (hrest : rest.takeWhile Char.isDigit = []) :
    looseYear (yearText year ++ rest) = some (year, rest) := by
  unfold yearText
  split
  · rename_i hyear
    have hdigits : ∀ d ∈ padded 4 year.natAbs, d.isDigit := fun _ => isDigit_of_mem_padded
    have hne : padded 4 year.natAbs ≠ [] := by
      have := le_length_padded 4 year.natAbs
      exact List.ne_nil_of_length_pos (by omega)
    rw [looseYear_unsigned (skip_isBlank hdigits hne) (head?_ne_of_digits hdigits hne rfl)
      (head?_ne_of_digits hdigits hne rfl),
      bind_of_some (number_padded_of_lt (by omega) (by decide) rest), pure_apply,
      Int.natAbs_of_nonneg hyear.1]
  · split
    · rw [List.cons_append, looseYear_minus, bind_of_some (number_padded hrest), pure_apply,
        Int.ofNat_natAbs_of_nonpos (by omega), Int.neg_neg]
    · rw [List.cons_append, looseYear_plus, bind_of_some (number_padded hrest), pure_apply,
        Int.natAbs_of_nonneg (by omega)]

end Reader

/-! ### Days -/

theorem daysInMonth_le (year : Int) (month : Nat) : daysInMonth year month ≤ 31 := by
  unfold daysInMonth
  split
  · split <;> decide
  all_goals decide

theorem Date.of?_eq (d : Date) : of? d.year d.month d.day = some d := dif_pos d.valid

theorem Date.text_append (d : Date) (rest : List Char) :
    d.text ++ rest =
      yearText d.year ++ '-' :: (lastDigits 2 d.month ++ '-' :: (lastDigits 2 d.day ++ rest)) := by
  simp [text]

theorem Date.month_lt (d : Date) : d.month < 10 ^ 2 := by
  have := d.valid.2.2.2.1
  omega

theorem Date.day_lt (d : Date) : d.day < 10 ^ 2 := by
  have := d.valid.2.2.2.2.2
  have := daysInMonth_le d.year d.month
  omega

theorem Reader.looseDate_text (d : Date) (rest : List Char) :
    looseDate (d.text ++ rest) = some (d, rest) := by
  rw [Date.text_append, looseDate, bind_of_some (looseYear_yearText d.year rfl),
    bind_of_some (char_cons _ _), bind_of_some (loosePart_lastDigits d.month_lt _),
    bind_of_some (char_cons _ _), bind_of_some (loosePart_lastDigits d.day_lt _), d.of?_eq,
    ofOption_some]

/-! ### Times -/

theorem Time.of?_eq (t : Time) : of? t.hour t.minute t.second t.nano = some t := dif_pos t.valid

theorem Time.text_append (t : Time) (rest : List Char) :
    t.text ++ rest = lastDigits 2 t.hour ++ ':' :: (lastDigits 2 t.minute ++
      ':' :: (lastDigits 2 t.second ++ (fractionText t.nano ++ rest))) := by
  simp [text]

theorem Time.hour_lt (t : Time) : t.hour < 10 ^ 2 := by
  have := t.valid.1
  omega

theorem Time.minute_lt (t : Time) : t.minute < 10 ^ 2 := by
  have := t.valid.2.1
  omega

theorem Time.second_lt (t : Time) : t.second < 10 ^ 2 := by
  have := t.valid.2.2.1
  omega

namespace Reader

theorem fraction_dot (cs : List Char) :
    fraction ('.' :: cs) = (number 1 none >>= fun _ =>
      let kept := (cs.takeWhile Char.isDigit).take 9
      pure (digitsValue kept * Nat.pow 10 (9 - kept.length))) cs := rfl

theorem fraction_of_head? {cs : List Char} (h : cs.head? ≠ some '.') :
    fraction cs = some (0, cs) := by
  rw [fraction, bind_of_some (get_apply _)]
  refine congrFun (g := (pure 0 : Reader Nat)) ?_ cs
  split
  · exact absurd rfl h
  · rfl

/-- A fraction of up to nine digits is read in nanoseconds. -/
theorem fraction_lastDigits {width n : Nat} (hpos : 0 < width) (hwidth : width ≤ 9)
    (h : n < 10 ^ width) {rest : List Char} (hrest : rest.takeWhile Char.isDigit = []) :
    fraction ('.' :: (lastDigits width n ++ rest)) = some (n * 10 ^ (9 - width), rest) := by
  have hdigits : ∀ d ∈ lastDigits width n, d.isDigit := fun _ => isDigit_of_mem_lastDigits
  have hlength := length_lastDigits width n
  have hkept : ((lastDigits width n ++ rest).takeWhile Char.isDigit).take 9 =
      lastDigits width n := by
    rw [List.takeWhile_append_of_pos hdigits, hrest, List.append_nil,
      List.take_of_length_le (by omega)]
  rw [fraction_dot, bind_of_some (number_of_end hdigits (by omega) hrest)]
  simp only [hkept, hlength, pure_apply, digitsValue_lastDigits_of_lt h]
  rfl

/-- What follows a time does not carry on its last number. -/
def EndsTime (rest : List Char) : Prop := rest.head? ≠ some '.' ∧ rest.takeWhile Char.isDigit = []

/-- A fraction that is not zero is written with the digits that it needs, in groups of three. -/
theorem fractionText_cases {nano : Nat} (h : nano < Nat.pow 10 9) :
    nano = 0 ∧ fractionText nano = [] ∨
      ∃ width n, fractionText nano = '.' :: lastDigits width n ∧ 0 < width ∧ width ≤ 9 ∧
        n < 10 ^ width ∧ n * 10 ^ (9 - width) = nano := by
  simp only [Nat.pow_eq] at h
  unfold fractionText
  simp only [Nat.pow_eq]
  split
  · exact .inl ⟨‹_›, rfl⟩
  · refine .inr ?_
    split
    · exact ⟨3, nano / 10 ^ 6, rfl, by decide, by decide, by omega, by omega⟩
    · split
      · exact ⟨6, nano / 10 ^ 3, rfl, by decide, by decide, by omega, by omega⟩
      · exact ⟨9, nano, rfl, by decide, by decide, h, by omega⟩

theorem fraction_fractionText {nano : Nat} (h : nano < Nat.pow 10 9) {rest : List Char}
    (hrest : EndsTime rest) : fraction (fractionText nano ++ rest) = some (nano, rest) := by
  rcases fractionText_cases h with ⟨hnano, htext⟩ | ⟨width, n, htext, hpos, hwidth, hn, hnano⟩
  · rw [htext, List.nil_append, fraction_of_head? hrest.1, hnano]
  · rw [htext, List.cons_append, fraction_lastDigits hpos hwidth hn hrest.2, hnano]

/-! ### Local date-times -/

/-- A day, an hour and a minute are read from a date-time, and its seconds are left. -/
theorem looseMinute_text (t : DateTime) (rest : List Char) :
    looseMinute (t.text ++ rest) = some ((t.date, t.time.hour, t.time.minute),
      ':' :: (lastDigits 2 t.time.second ++ (fractionText t.time.nano ++ rest))) := by
  rw [DateTime.text, List.append_assoc, List.cons_append, Time.text_append, looseMinute,
    bind_of_some (looseDate_text _ _), bind_of_some (char_cons _ _),
    bind_of_some (loosePart_lastDigits t.time.hour_lt _), bind_of_some (char_cons _ _),
    bind_of_some (loosePart_lastDigits t.time.minute_lt _), pure_apply]

theorem looseDateTime_text (t : DateTime) {rest : List Char} (hrest : EndsTime rest) :
    looseDateTime (t.text ++ rest) = some (t, rest) := by
  rw [looseDateTime, bind_of_some (looseMinute_text _ _)]
  dsimp only
  rw [bind_of_some (char_cons _ _), bind_of_some (loosePart_lastDigits t.time.second_lt _),
    bind_of_some (fraction_fractionText t.time.valid.2.2.2 hrest), t.time.of?_eq,
    bind_of_some (ofOption_some _ _), pure_apply]

/-! ### Offsets -/

theorem sign_minus (cs : List Char) : sign ('-' :: cs) = some (true, cs) := rfl

theorem sign_plus (cs : List Char) : sign ('+' :: cs) = some (false, cs) := rfl

theorem strictOffset_minus (cs : List Char) :
    strictOffset ('-' :: cs) = Reader.offset (char ':') ('-' :: cs) := rfl

theorem strictOffset_plus (cs : List Char) :
    strictOffset ('+' :: cs) = Reader.offset (char ':') ('+' :: cs) := rfl

theorem offset_digits {cs ds : List Char} {negative : Bool} (hsign : sign cs = some (negative, ds))
    {hours minutes : Nat} (hhours : hours < 10 ^ 2) (hminutes : minutes < 60) {rest : List Char}
    (hds : ds = lastDigits 2 hours ++ ':' :: (lastDigits 2 minutes ++ rest)) :
    Reader.offset (char ':') cs =
      some (if negative then -((hours * 60 + minutes : Nat) : Int)
        else ((hours * 60 + minutes : Nat) : Int), rest) := by
  rw [Reader.offset, bind_of_some hsign, hds, bind_of_some (number_lastDigits hhours _),
    bind_of_some (char_cons _ _), bind_of_some (number_lastDigits (by omega) _), if_pos hminutes,
    pure_apply]

theorem strictOffset_offsetText {offset : Int} (h : offset.natAbs < 1440) (rest : List Char) :
    strictOffset (offsetText offset ++ rest) = some (offset, rest) := by
  have hhours : offset.natAbs / 60 < 10 ^ 2 := by omega
  have hminutes : offset.natAbs % 60 < 60 := by omega
  unfold offsetText
  simp only [List.append_assoc, List.cons_append]
  split
  · rw [strictOffset_minus, offset_digits (sign_minus _) hhours hminutes rfl, if_pos rfl]
    congr 2
    omega
  · rw [strictOffset_plus, offset_digits (sign_plus _) hhours hminutes rfl,
      if_neg Bool.false_ne_true]
    congr 2
    omega

theorem endsTime_nil : EndsTime [] := ⟨nofun, rfl⟩

theorem endsTime_zulu : EndsTime ['Z'] := ⟨nofun, rfl⟩

theorem endsTime_offsetText (offset : Int) : EndsTime (offsetText offset) := by
  unfold offsetText
  split <;> exact ⟨nofun, rfl⟩

theorem strictOffset_zulu : strictOffset ['Z'] = some (0, []) := rfl

theorem looseOffset_colon (cs : List Char) : looseOffset (':' :: cs) = none := rfl

/-! ### Offset date-times -/

/-- The strict grammar reads a date-time whose year is written with four digits. -/
theorem strictOffsetDateTime_text (t : DateTime) (hyear : 0 ≤ t.date.year ∧ t.date.year ≤ 9999)
    {tail : List Char} (htail : EndsTime tail) {offset : Int}
    (hoffset : strictOffset tail = some (offset, [])) :
    strictOffsetDateTime (t.text ++ tail) =
      (OffsetDateTime.of? t offset).map (·, []) := by
  have hwritten : yearText t.date.year = padded 4 t.date.year.natAbs := if_pos hyear
  rw [DateTime.text, List.append_assoc, List.cons_append, Time.text_append, Date.text_append,
    hwritten, strictOffsetDateTime, bind_of_some (number_padded_of_lt (by omega) le_rfl _),
    Int.natAbs_of_nonneg hyear.1,
    bind_of_some (char_cons _ _), bind_of_some (number_lastDigits t.date.month_lt _),
    bind_of_some (char_cons _ _), bind_of_some (number_lastDigits t.date.day_lt _), t.date.of?_eq,
    bind_of_some (ofOption_some _ _), bind_of_some (oneOf_cons List.mem_cons_self _),
    bind_of_some (number_lastDigits t.time.hour_lt _), bind_of_some (char_cons _ _),
    bind_of_some (number_lastDigits t.time.minute_lt _), bind_of_some (char_cons _ _),
    bind_of_some (number_lastDigits t.time.second_lt _),
    bind_of_some (fraction_fractionText t.time.valid.2.2.2 htail), t.time.of?_eq,
    bind_of_some (ofOption_some _ _), bind_of_some hoffset]
  cases OffsetDateTime.of? t offset <;> rfl

/-- It reads no other year. -/
theorem strictOffsetDateTime_of_year (t : DateTime)
    (hyear : ¬(0 ≤ t.date.year ∧ t.date.year ≤ 9999)) (tail : List Char) :
    strictOffsetDateTime (t.text ++ tail) = none := by
  rw [DateTime.text, List.append_assoc, List.cons_append, Date.text_append, yearText,
    if_neg hyear, strictOffsetDateTime]
  refine bind_of_none ?_
  split <;> rfl

theorem looseDateMinute_text (t : DateTime) (rest : List Char) :
    ∃ u, looseDateMinute (t.text ++ rest) =
      some (u, ':' :: (lastDigits 2 t.time.second ++ (fractionText t.time.nano ++ rest))) := by
  have htime : Time.Valid t.time.hour t.time.minute 0 0 :=
    ⟨t.time.valid.1, t.time.valid.2.1, Nat.zero_le _, Nat.pow_pos (by decide)⟩
  refine ⟨⟨t.date, _, _, _, _, htime⟩, ?_⟩
  rw [looseDateMinute, bind_of_some (looseMinute_text _ _)]
  dsimp only
  rw [Time.of?, dif_pos htime, bind_of_some (ofOption_some _ _), pure_apply]

/-- The loose grammar reads no date-time with seconds. -/
theorem looseOffsetDateTime_text (t : DateTime) (tail : List Char) :
    looseOffsetDateTime (t.text ++ tail) = none := by
  obtain ⟨u, hu⟩ := looseDateMinute_text t tail
  rw [looseOffsetDateTime, bind_of_some hu, bind_of_none (looseOffset_colon _)]

end Reader

/-! ### Date-times with an offset -/

theorem Time.atMinute_self (t : Time) : t.atMinute (t.hour * 60 + t.minute) = t := by
  have hhour : (t.hour * 60 + t.minute) / 60 % 24 = t.hour := by
    have := t.valid.1
    have := t.valid.2.1
    omega
  have hminute : (t.hour * 60 + t.minute) % 60 = t.minute := by
    have := t.valid.2.1
    omega
  obtain ⟨hour, minute, second, nano, valid⟩ := t
  unfold atMinute
  congr

theorem DateTime.addMinutes?_zero (t : DateTime) : t.addMinutes? 0 = some t := by
  have hhour := t.time.valid.1
  have hminute := t.time.valid.2.1
  unfold addMinutes?
  dsimp only
  rw [if_neg (by omega), if_neg (by omega), Int.add_zero, Int.toNat_natCast, Time.atMinute_self]

/-- A date-time with an offset is given by its local date-time and its offset. -/
theorem OffsetDateTime.of?_eq (t : OffsetDateTime) : of? t.stamp t.offset = some t := by
  unfold of?
  rw [dif_pos t.offset_lt]
  split
  · rename_i utc h
    have hutc : t.utc = utc := Option.some.inj (t.shifted.symm.trans h)
    cases t
    cases hutc
    rfl
  · rename_i h
    rw [t.shifted] at h
    cases h

/-- Without an offset, a local date-time is one in UTC. -/
theorem OffsetDateTime.exists_of?_zero (t : DateTime) : ∃ u, of? t 0 = some u ∧ u.utc = t :=
  ⟨_, OffsetDateTime.of?_eq ⟨t, 0, t, by decide, t.addMinutes?_zero⟩, rfl⟩

theorem expandZulu_append {tail : List Char} (h : tail ≠ []) (cs : List Char) :
    ∃ tail', expandZulu (cs ++ tail) = cs ++ tail' := by
  unfold expandZulu
  split
  · exact ⟨tail.dropLast ++ "+00:00".toList, by
      rw [List.dropLast_append_of_ne_nil h, List.append_assoc]⟩
  · exact ⟨tail.dropLast ++ "+00:00".toList, by
      rw [List.dropLast_append_of_ne_nil h, List.append_assoc]⟩
  · exact ⟨tail, rfl⟩

/-- A date-time with seconds and an offset is read if its year is written with four digits. -/
theorem OffsetDateTime.read?_text (t : DateTime) {tail : List Char} (hne : tail ≠ [])
    (htail : Reader.EndsTime tail) {offset : Int}
    (hoffset : Reader.strictOffset tail = some (offset, [])) :
    read? (t.text ++ tail) =
      if 0 ≤ t.date.year ∧ t.date.year ≤ 9999 then of? t offset else none := by
  obtain ⟨tail', hzulu⟩ := expandZulu_append hne t.text
  rw [read?, hzulu, Reader.run?_of_none (Reader.looseOffsetDateTime_text t tail'), Option.or_none]
  split
  · rename_i hyear
    rw [Reader.run?, Reader.strictOffsetDateTime_text t hyear htail hoffset]
    cases of? t offset <;> rfl
  · exact Reader.run?_of_none (Reader.strictOffsetDateTime_of_year t ‹_› tail)

/-! ### Values -/

theorem Date.read?_text (d : Date) : read? d.text = some d := by
  have h := Reader.looseDate_text d []
  rw [List.append_nil] at h
  exact Reader.run?_of_some h

theorem DateTime.read?_text (t : DateTime) : read? t.text = some t := by
  have h := Reader.looseDateTime_text t Reader.endsTime_nil
  rw [List.append_nil] at h
  rw [read?, Reader.run?_of_some h, Option.some_or]

/-- An instant is written in UTC. -/
theorem OffsetDateTime.read?_instantText (t : DateTime) :
    (read? t.instantText).map OffsetDateTime.utc =
      if 0 ≤ t.date.year ∧ t.date.year ≤ 9999 then some t else none := by
  obtain ⟨u, hu, hutc⟩ := OffsetDateTime.exists_of?_zero t
  rw [DateTime.instantText, read?_text t (List.cons_ne_nil _ _) Reader.endsTime_zulu
    Reader.strictOffset_zulu, hu]
  split
  · rw [Option.map_some, hutc]
  · rfl

theorem OffsetDateTime.read?_text_self (t : OffsetDateTime) :
    read? t.text = if 0 ≤ t.stamp.date.year ∧ t.stamp.date.year ≤ 9999 then some t else none := by
  have hne : offsetText t.offset ≠ [] := List.cons_ne_nil _ _
  have hoffset := Reader.strictOffset_offsetText t.offset_lt []
  rw [List.append_nil] at hoffset
  rw [OffsetDateTime.text, read?_text t.stamp hne (Reader.endsTime_offsetText _) hoffset, t.of?_eq]

end QueryFilter.Calendar
