import Mathlib.Data.Char
import Mathlib.Data.List.Lex
import QueryFilter.Calendar.Hijrah
import QueryFilter.Proofs.Digits

/-!
# The text of a Hijrah date

A date is read from one text only, up to the blanks around it: from the text that it is written as.
The numbers in it have fixed widths, so the order of the dates is that of their texts.

* `HijrahDate.Spells`: the texts that name a year, a month and a day by their numbers;
* `HijrahDate.spells_iff`: the text of a date is the only one that names it;
* `HijrahDate.read?_eq_some_iff_spells`: what names a date is read as it, and nothing else is read;
* `HijrahDate.le_iff_text_le_text`: the order of the dates by their texts;
* `HijrahDate.read?_eq_some_iff_text`: which texts are read, as which dates and in which order.
-/

namespace QueryFilter.Calendar.HijrahDate

open Text

/-! ### Texts that name a date -/

/-- Four digits, two and two, with dashes between them, name the numbers that they write. -/
inductive Spells : List Char → Nat → Nat → Nat → Prop
  | mk {ys ms ds : List Char} : ys.length = 4 → ms.length = 2 → ds.length = 2 →
    (∀ c ∈ ys ++ ms ++ ds, c.isDigit) →
    Spells (ys ++ '-' :: ms ++ '-' :: ds) (Nat.ofDigits 10 (ys.reverse.map digitValue))
      (Nat.ofDigits 10 (ms.reverse.map digitValue)) (Nat.ofDigits 10 (ds.reverse.map digitValue))

variable {d : HijrahDate}

/-- The parts of a date have no more digits than are written. -/
theorem lt_of_valid (d : HijrahDate) : d.year < 10 ^ 4 ∧ d.month < 10 ^ 2 ∧ d.day < 10 ^ 2 := by
  have h := d.valid
  unfold Valid at h
  omega

/-- Beside the dashes there are digits only. -/
theorem isDigit_of_mem (d : HijrahDate) :
    ∀ c ∈ lastDigits 4 d.year ++ lastDigits 2 d.month ++ lastDigits 2 d.day, c.isDigit := by
  intro c hc
  rw [List.mem_append, List.mem_append] at hc
  rcases hc with (hc | hc) | hc <;> exact isDigit_of_mem_lastDigits hc

/-- A text that names some numbers is the one that they are written as. -/
theorem Spells.eq_lastDigits {cs : List Char} {y m n : Nat} (h : Spells cs y m n) :
    cs = lastDigits 4 y ++ '-' :: lastDigits 2 m ++ '-' :: lastDigits 2 n := by
  obtain ⟨hys, hms, hds, hdigits⟩ := h
  rename_i ys ms ds
  simp only [List.mem_append, or_imp, forall_and] at hdigits
  have hyear := lastDigits_digitsValue hdigits.1.1
  have hmonth := lastDigits_digitsValue hdigits.1.2
  have hday := lastDigits_digitsValue hdigits.2
  rw [hys] at hyear
  rw [hms] at hmonth
  rw [hds] at hday
  simp only [← digitsValue_eq_ofDigits, hyear, hmonth, hday]

/-- A date is named by its text. -/
theorem spells_text (d : HijrahDate) : Spells d.text d.year d.month d.day := by
  obtain ⟨hyear, hmonth, hday⟩ := d.lt_of_valid
  have hspells := Spells.mk (length_lastDigits 4 d.year) (length_lastDigits 2 d.month)
    (length_lastDigits 2 d.day) d.isDigit_of_mem
  simp only [← digitsValue_eq_ofDigits] at hspells
  rwa [digitsValue_lastDigits_of_lt hyear, digitsValue_lastDigits_of_lt hmonth,
    digitsValue_lastDigits_of_lt hday] at hspells

/-- The text of a date is the only one that names it. -/
theorem spells_iff {cs : List Char} : Spells cs d.year d.month d.day ↔ cs = d.text :=
  ⟨Spells.eq_lastDigits, fun h => h ▸ d.spells_text⟩

/-! ### Texts that are read -/

theorem of?_eq_some_iff {year month day : Nat} :
    of? year month day = some d ↔ year = d.year ∧ month = d.month ∧ day = d.day := by
  unfold of?
  constructor
  · intro h
    split at h
    · cases h
      exact ⟨rfl, rfl, rfl⟩
    · cases h
  · rintro ⟨rfl, rfl, rfl⟩
    exact dif_pos d.valid

theorem spells_of_read? {cs : List Char} (h : read? cs = some d) :
    Spells (trim cs) d.year d.month d.day := by
  unfold read? at h
  split at h
  · rename_i y₁ y₂ y₃ y₄ m₁ m₂ d₁ d₂ htrim
    split at h
    · rename_i hdigits
      obtain ⟨hyear, hmonth, hday⟩ := of?_eq_some_iff.1 h
      rw [htrim, ← hyear, ← hmonth, ← hday]
      simp only [digitsValue_eq_ofDigits]
      exact @Spells.mk [y₁, y₂, y₃, y₄] [m₁, m₂] [d₁, d₂] rfl rfl rfl (List.all_eq_true.1 hdigits)
    · cases h
  · cases h

theorem read?_of_spells {cs : List Char} (h : Spells (trim cs) d.year d.month d.day) :
    read? cs = some d := by
  obtain ⟨hyear, hmonth, hday⟩ := d.lt_of_valid
  rw [read?, spells_iff.1 h]
  -- the text has ten characters, two of which are dashes
  refine (if_pos (List.all_eq_true.2 d.isDigit_of_mem)).trans (of?_eq_some_iff.2 ?_)
  exact ⟨digitsValue_lastDigits_of_lt hyear, digitsValue_lastDigits_of_lt hmonth,
    digitsValue_lastDigits_of_lt hday⟩

/-- A text is read as the date that it names without the blanks around it. -/
theorem read?_eq_some_iff_spells {cs : List Char} :
    read? cs = some d ↔ Spells (trim cs) d.year d.month d.day :=
  ⟨spells_of_read?, read?_of_spells⟩

/-! ### The order of dates -/

variable {a b : HijrahDate}

theorem text_lt_text_iff : a.text < b.text ↔ a.year < b.year ∨ a.year = b.year ∧
    (a.month < b.month ∨ a.month = b.month ∧ a.day < b.day) := by
  obtain ⟨hya, hma, hda⟩ := a.lt_of_valid
  obtain ⟨hyb, hmb, hdb⟩ := b.lt_of_valid
  have hlength (width m n : Nat) : (lastDigits width m).length = (lastDigits width n).length := by
    rw [length_lastDigits, length_lastDigits]
  simp only [text, List.append_assoc, List.cons_append]
  rw [append_lt_append_iff (hlength 4 _ _), List.cons_lt_cons_self,
    append_lt_append_iff (hlength 2 _ _), List.cons_lt_cons_self,
    lastDigits_lt_lastDigits_iff hya hyb, lastDigits_lt_lastDigits_iff hma hmb,
    lastDigits_lt_lastDigits_iff hda hdb, lastDigits_inj hya hyb, lastDigits_inj hma hmb]

/-- A date is not after another one exactly if its text is not. -/
theorem le_iff_text_le_text : a.le b ↔ a.text ≤ b.text := by
  have hlt : ¬b.text < a.text ↔ a.text ≤ b.text := not_lt
  rw [← hlt, text_lt_text_iff]
  simp only [le, Bool.or_eq_true, Bool.and_eq_true, decide_eq_true_eq, beq_iff_eq]
  omega

/-- **The text of a Hijrah date.** A text is read as a date exactly if it is the text of the date
with blanks around it or without. Such a text names a year, a month and a day that are in use by
four digits, two and two with dashes between them, and every text that does so is read. The order
of the dates that are read from texts is that of the texts without their blanks. -/
theorem read?_eq_some_iff_text :
    (∀ (cs : List Char) (d : HijrahDate), read? cs = some d ↔ trim cs = d.text) ∧
    (∀ cs : List Char, (∃ d, read? cs = some d) ↔
      ∃ year month day, Spells (trim cs) year month day ∧ Valid year month day) ∧
    ∀ (as bs : List Char) (a b : HijrahDate), read? as = some a → read? bs = some b →
      (a.le b ↔ trim as ≤ trim bs) ∧ (a = b ↔ trim as = trim bs) := by
  have hread (cs : List Char) (d : HijrahDate) : read? cs = some d ↔ trim cs = d.text :=
    read?_eq_some_iff_spells.trans spells_iff
  refine ⟨hread, fun cs => ⟨?_, ?_⟩, fun as bs a b ha hb => ⟨?_, ?_⟩⟩
  · rintro ⟨d, hd⟩
    exact ⟨d.year, d.month, d.day, spells_of_read? hd, d.valid⟩
  · rintro ⟨year, month, day, hspells, hvalid⟩
    exact ⟨⟨year, month, day, hvalid⟩, read?_of_spells hspells⟩
  · rw [(hread as a).1 ha, (hread bs b).1 hb, le_iff_text_le_text]
  · constructor
    · rintro rfl
      rw [(hread as a).1 ha, (hread bs a).1 hb]
    · intro htrim
      have hb' : read? as = some b := (hread as b).2 (htrim.trans ((hread bs b).1 hb))
      exact Option.some.inj (ha.symm.trans hb')

/-- The last day of a Ramadan with blanks around it, and the first day of the month after it. -/
theorem read?_eq_some_iff_text_ramadan :
    let last : HijrahDate := ⟨1390, 9, 30, by decide⟩
    let first : HijrahDate := ⟨1390, 10, 1, by decide⟩
    read? " 1390-09-30\n".toList = some last ∧ read? "1390-10-01".toList = some first ∧
      last.le first ∧ "1390-09-30".toList ≤ "1390-10-01".toList := by
  intro last first
  obtain ⟨hread, -, horder⟩ := read?_eq_some_iff_text
  have hlast : read? " 1390-09-30\n".toList = some last := (hread _ _).2 (by decide)
  have hfirst : read? "1390-10-01".toList = some first := (hread _ _).2 (by decide)
  have hle : "1390-09-30".toList ≤ "1390-10-01".toList := by decide
  exact ⟨hlast, hfirst, (horder _ _ _ _ hlast hfirst).1.2 (by decide), hle⟩

end QueryFilter.Calendar.HijrahDate
