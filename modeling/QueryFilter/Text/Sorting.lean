/-!
# Stable sorting

Items in the order of a key, where items with the same key keep their order.
-/

namespace QueryFilter.Text

variable {α κ : Type} [LT κ] [DecidableLT κ]

/-- Insert an item behind all items whose key is not larger. -/
def insertByKey (key : α → κ) (a : α) : List α → List α
  | [] => [a]
  | b :: bs => if key a < key b then a :: b :: bs else b :: insertByKey key a bs

/-- Sort a list of items by a key. -/
def sortByKey (key : α → κ) (as : List α) : List α :=
  as.foldl (fun sorted a => insertByKey key a sorted) []

theorem insertByKey_perm (key : α → κ) (a : α) (bs : List α) :
    (insertByKey key a bs).Perm (a :: bs) := by
  induction bs with
  | nil => exact .refl _
  | cons b bs ih =>
    unfold insertByKey
    split
    · exact .refl _
    · exact (ih.cons b).trans (.swap a b bs)

/-- Sorting loses nothing and adds nothing. -/
theorem sortByKey_perm (key : α → κ) (as : List α) : (sortByKey key as).Perm as := by
  suffices h : ∀ sorted, (as.foldl (fun s a => insertByKey key a s) sorted).Perm (sorted ++ as) by
    simpa [sortByKey] using h []
  induction as with
  | nil => simp
  | cons a as ih =>
    intro sorted
    refine (ih _).trans (((insertByKey_perm key a sorted).append_right as).trans ?_)
    simpa using List.perm_middle.symm

end QueryFilter.Text
