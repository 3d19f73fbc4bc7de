import Mathlib.Data.String.Basic
import QueryFilter.Text.Sorting

/-!
# Sorted items

Sorting by a key puts items in the order of their keys, those with the same key in the order in
which they are given, and a change of the items that keeps their keys may come before or after it.
-/

namespace QueryFilter.Text

open Std

/-- Items in the strict order of their keys are known from what they are. -/
theorem eq_of_sorted_of_mem_iff {α κ : Type} [LT κ] [LE κ] [LawfulOrderLT κ] {key : α → κ}
    {as bs : List α} (has : as.Pairwise (key · < key ·)) (hbs : bs.Pairwise (key · < key ·))
    (h : ∀ a, a ∈ as ↔ a ∈ bs) : as = bs := by
  have hnodup {cs : List α} (hcs : cs.Pairwise (key · < key ·)) : cs.Nodup :=
    hcs.imp fun hlt => mt (congrArg key) (ne_of_lt hlt)
  have hperm := (List.perm_ext_iff_of_nodup (hnodup has) (hnodup hbs)).2 h
  exact hperm.eq_of_pairwise (fun _ _ _ _ hlt hgt => absurd hlt (not_gt_of_lt hgt)) has hbs

variable {α β κ : Type} [LT κ] [DecidableLT κ] {key : α → κ}

section

variable [LE κ] [IsLinearOrder κ] [LawfulOrderLT κ]

theorem sorted_insertByKey {as : List α} (h : as.Pairwise (key · ≤ key ·)) (a : α) :
    (insertByKey key a as).Pairwise (key · ≤ key ·) := by
  induction as with
  | nil => exact List.pairwise_singleton _ _
  | cons b bs ih =>
    obtain ⟨hb, hbs⟩ := List.pairwise_cons.1 h
    unfold insertByKey
    split
    · rename_i hlt
      refine List.pairwise_cons.2 ⟨fun x hx => ?_, h⟩
      rcases List.mem_cons.1 hx with rfl | hx
      · exact le_of_lt hlt
      · exact le_trans (le_of_lt hlt) (hb x hx)
    · rename_i hge
      refine List.pairwise_cons.2 ⟨fun x hx => ?_, ih hbs⟩
      rcases List.mem_cons.1 ((insertByKey_perm key a bs).mem_iff.1 hx) with rfl | hx
      · exact not_lt.1 hge
      · exact hb x hx

/-- Sorted items are in the order of their keys. -/
theorem sorted_sortByKey (key : α → κ) (as : List α) :
    (sortByKey key as).Pairwise (key · ≤ key ·) := by
  suffices h : ∀ sorted : List α, sorted.Pairwise (key · ≤ key ·) →
      (as.foldl (fun s a => insertByKey key a s) sorted).Pairwise (key · ≤ key ·) from h [] .nil
  induction as with
  | nil => exact fun _ h => h
  | cons a as ih => exact fun sorted h => ih _ (sorted_insertByKey h a)

/-- Items with different keys are in the strict order of their keys. -/
theorem sorted_sortByKey_of_nodup {as : List α} (h : (as.map key).Nodup) :
    ((sortByKey key as).map key).Pairwise (· < ·) := by
  have hnodup : ((sortByKey key as).map key).Nodup :=
    ((sortByKey_perm key as).map key).nodup_iff.2 h
  have hsorted : ((sortByKey key as).map key).Pairwise (· ≤ ·) :=
    List.pairwise_map.2 (sorted_sortByKey key as)
  exact (hsorted.and hnodup).imp fun ⟨hle, hne⟩ => lt_of_le_of_ne hle hne

/-- An item is inserted behind those that have its key. -/
theorem filter_insertByKey [DecidableEq κ] {as : List α} (h : as.Pairwise (key · ≤ key ·))
    (a : α) (k : κ) :
    (insertByKey key a as).filter (key · == k) = (as ++ [a]).filter (key · == k) := by
  induction as with
  | nil => rfl
  | cons b bs ih =>
    obtain ⟨hb, hbs⟩ := List.pairwise_cons.1 h
    unfold insertByKey
    split
    · rename_i hlt
      have hlater : ∀ x ∈ b :: bs, key x ≠ key a :=
        List.forall_mem_cons.2
          ⟨(ne_of_lt hlt).symm, fun x hx => (ne_of_lt (lt_of_lt_of_le hlt (hb x hx))).symm⟩
      by_cases ha : key a = k
      · have hnone : (b :: bs).filter (key · == k) = [] :=
          List.filter_eq_nil_iff.2 fun x hx => by simpa [← ha] using hlater x hx
        rw [List.filter_append, hnone, List.filter_cons, hnone]
        simp [ha]
      · simp [List.filter_append, List.filter_cons, ha]
    · rw [List.filter_cons, List.cons_append, List.filter_cons, ih hbs]

/-- Items with the same key keep their order. -/
theorem filter_sortByKey [DecidableEq κ] (key : α → κ) (as : List α) (k : κ) :
    (sortByKey key as).filter (key · == k) = as.filter (key · == k) := by
  suffices h : ∀ sorted : List α, sorted.Pairwise (key · ≤ key ·) →
      (as.foldl (fun s a => insertByKey key a s) sorted).filter (key · == k) =
        (sorted ++ as).filter (key · == k) from h [] .nil
  induction as with
  | nil => exact fun sorted _ => by rw [List.foldl_nil, List.append_nil]
  | cons a as ih =>
    intro sorted h
    rw [List.foldl_cons, ih _ (sorted_insertByKey h a), List.filter_append, filter_insertByKey h,
      ← List.filter_append, List.append_assoc, List.singleton_append]

/-- Items with different keys may be given in any order. -/
theorem sortByKey_eq_of_perm {as bs : List α} (h : as.Perm bs) (hkeys : (as.map key).Nodup) :
    sortByKey key as = sortByKey key bs := by
  have hsorted {cs : List α} (hcs : (cs.map key).Nodup) :
      (sortByKey key cs).Pairwise (key · < key ·) :=
    List.pairwise_map.1 (sorted_sortByKey_of_nodup hcs)
  refine eq_of_sorted_of_mem_iff (hsorted hkeys) (hsorted ((h.map key).nodup_iff.1 hkeys)) ?_
  intro a
  rw [(sortByKey_perm key as).mem_iff, (sortByKey_perm key bs).mem_iff, h.mem_iff]

end

theorem insertByKey_map {f : β → α} (b : β) (bs : List β) :
    insertByKey key (f b) (bs.map f) = (insertByKey (key ∘ f) b bs).map f := by
  induction bs with
  | nil => rfl
  | cons c cs ih =>
    rw [List.map_cons, insertByKey, insertByKey, ih]
    dsimp only [Function.comp]
    split <;> rfl

/-- Items may be changed before they are sorted, or sorted by what their keys are to be. -/
theorem sortByKey_map (f : β → α) (bs : List β) :
    sortByKey key (bs.map f) = (sortByKey (key ∘ f) bs).map f := by
  suffices h : ∀ sorted : List β, (bs.map f).foldl (fun s a => insertByKey key a s) (sorted.map f) =
      (bs.foldl (fun s b => insertByKey (key ∘ f) b s) sorted).map f from h []
  induction bs with
  | nil => exact fun _ => rfl
  | cons b bs ih =>
    intro sorted
    rw [List.map_cons, List.foldl_cons, List.foldl_cons, insertByKey_map, ih]

/-- Keys that compare alike sort alike. -/
theorem sortByKey_congr {κ' : Type} [LT κ'] [DecidableLT κ'] {key' : α → κ'}
    (h : ∀ a b, key a < key b ↔ key' a < key' b) (as : List α) :
    sortByKey key as = sortByKey key' as := by
  have hinsert : insertByKey key = insertByKey key' := by
    funext a bs
    induction bs with
    | nil => rfl
    | cons b bs ih => simp only [insertByKey, h, ih]
  rw [sortByKey, sortByKey, hinsert]

end QueryFilter.Text
