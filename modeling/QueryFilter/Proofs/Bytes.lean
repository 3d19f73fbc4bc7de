import Mathlib.Data.String.Basic
import QueryFilter.Text.Bytes

/-!
# The bytes of texts

The bytes of a text are those of its characters one after the other, and texts are in the order of
their bytes.

* `Text.bytes_append`: the bytes of a text put together from two;
* `Text.bytes_lt_bytes_iff`: texts and their bytes are in the same order;
* `Text.ofBytes_bytes`: a text is shown as it is.
-/

namespace QueryFilter.Text

theorem bytes_eq_flatMap (s : String) : bytes s = s.toList.flatMap String.utf8EncodeChar := by
  rw [bytes, String.toUTF8_eq_toByteArray, ← String.utf8Encode_toList, List.utf8Encode,
    List.data_toByteArray]

theorem bytes_append (s t : String) : bytes (s ++ t) = bytes s ++ bytes t := by
  rw [bytes_eq_flatMap, String.toList_append, List.flatMap_append, ← bytes_eq_flatMap,
    ← bytes_eq_flatMap]

/-- The bytes of a smaller character come first, whatever follows: their numbers differ, or their
first bytes do, or a later one. -/
theorem utf8EncodeChar_append_lt {c d : Char} (h : c < d) (bs cs : List UInt8) :
    String.utf8EncodeChar c ++ bs < String.utf8EncodeChar d ++ cs := by
  have hlt : c.val.toNat < d.val.toNat := h
  have hd : d.val.toNat < 0x110000 := by
    have hvalid := d.valid
    simp only [UInt32.isValidChar, Nat.isValidChar] at hvalid
    omega
  unfold String.utf8EncodeChar
  generalize c.val.toNat = m at *
  generalize d.val.toNat = n at *
  -- the digits to the base 64 that the bytes are made of
  have hdigits (k : Nat) : k / 4096 = k / 64 / 64 ∧ k / 262144 = k / 64 / 64 / 64 := by
    simp only [Nat.div_div_eq_div_mul, true_and]
  simp only [(hdigits _).1, (hdigits _).2]
  clear hdigits
  split_ifs <;> try omega
  all_goals
    simp only [List.cons_append, List.nil_append, List.cons_lt_cons_iff, UInt8.lt_iff_toNat_lt,
      ← UInt8.toNat_inj, UInt8.toNat_ofNat']
    omega

theorem flatMap_utf8EncodeChar_lt {cs ds : List Char} (h : cs < ds) :
    cs.flatMap String.utf8EncodeChar < ds.flatMap String.utf8EncodeChar := by
  induction h with
  | nil =>
    rename_i d ds
    obtain ⟨b, bs, hb⟩ := List.exists_cons_of_ne_nil (String.utf8EncodeChar_ne_nil (c := d))
    rw [List.flatMap_cons, hb]
    exact List.Lex.nil
  | cons _ ih => exact List.append_left_lt ih
  | rel h => exact utf8EncodeChar_append_lt h _ _

/-- Texts are in the order of their bytes. -/
theorem bytes_lt_bytes_iff {s t : String} : bytes s < bytes t ↔ s < t := by
  have hmono {s t : String} (h : s < t) : bytes s < bytes t := by
    rw [bytes_eq_flatMap, bytes_eq_flatMap]
    exact flatMap_utf8EncodeChar_lt h
  refine ⟨fun h => ?_, hmono⟩
  by_contra hge
  rcases lt_or_eq_of_le (not_lt.1 hge) with hgt | rfl
  · exact Std.not_gt_of_lt h (hmono hgt)
  · exact Std.lt_irrefl h

/-- The bytes of a text spell it. -/
theorem fromUTF8?_toUTF8 (s : String) : String.fromUTF8? s.toUTF8 = some s := by
  rw [String.fromUTF8?, String.toUTF8_eq_toByteArray, dif_pos s.isValidUTF8]
  rfl

/-- A text is shown as it is. -/
theorem ofBytes_bytes (s : String) : ofBytes (bytes s) = s := by
  rw [ofBytes, bytes, Array.toArray_toList, fromUTF8?_toUTF8]

/-- In bytes that are no text, the start of a character is replaced as a whole, and a byte that
starts none by itself. -/
example : ofBytes [0x61, 0xFF, 0xE2, 0x82, 0x62, 0xC3, 0xA9] = "a\uFFFD\uFFFDb\u00E9" := by
  decide +kernel

theorem bytes_injective : Function.Injective bytes := Function.LeftInverse.injective ofBytes_bytes

end QueryFilter.Text
