import Mathlib.Data.List.Sort

/-!
# Majorities in sorted lists

In a sorted list everything up to a position is at most the entry there, and
everything from it on is at least the entry.  So an entry in the middle is within
any bounds that more than half of the list obeys, whatever the others are.
-/

namespace Majority

universe u

variable {α : Type u} [LinearOrder α] {sorted : List α} {low high : α} {index : ℕ}

/-- Too many entries are above the bound for one at this position to be below. -/
theorem le_getElem (hsorted : sorted.Pairwise (· ≤ ·)) (hindex : index < sorted.length)
    (hcount : sorted.length < index + 1 + sorted.countP fun entry => low ≤ entry) :
    low ≤ sorted[index] := by
  by_contra hbelow
  have hfront : (sorted.take (index + 1)).countP (fun entry => low ≤ entry) = 0 := by
    rw [List.countP_eq_zero]
    intro entry hentry hle
    obtain ⟨position, hposition, rfl⟩ := List.mem_take_iff_getElem.1 hentry
    have hentryLe : sorted[position] ≤ sorted[index] := by
      rcases (show position ≤ index by omega).lt_or_eq with hlt | rfl
      · exact List.pairwise_iff_getElem.1 hsorted position index _ hindex hlt
      · exact le_refl _
    exact hbelow ((of_decide_eq_true hle).trans hentryLe)
  have hback : (sorted.drop (index + 1)).countP (fun entry => low ≤ entry) ≤
      sorted.length - (index + 1) := by
    rw [← List.length_drop]
    exact List.countP_le_length
  have hsplit : sorted.countP (fun entry => low ≤ entry) =
      (sorted.take (index + 1)).countP (fun entry => low ≤ entry) +
        (sorted.drop (index + 1)).countP (fun entry => low ≤ entry) := by
    rw [← List.countP_append, List.take_append_drop]
  omega

/-- Too many entries are below the bound for one at this position to be above. -/
theorem getElem_le (hsorted : sorted.Pairwise (· ≤ ·)) (hindex : index < sorted.length)
    (hcount : index < sorted.countP fun entry => entry ≤ high) :
    sorted[index] ≤ high := by
  by_contra habove
  have hback : (sorted.drop index).countP (fun entry => entry ≤ high) = 0 := by
    rw [List.countP_eq_zero]
    intro entry hentry hle
    obtain ⟨offset, hoffset, rfl⟩ := List.mem_drop_iff_getElem.1 hentry
    have hleEntry : sorted[index] ≤ sorted[index + offset] := by
      rcases (show index ≤ index + offset by omega).lt_or_eq with hlt | heq
      · exact List.pairwise_iff_getElem.1 hsorted index (index + offset) hindex _ hlt
      · simp only [← heq, le_refl]
    exact habove (hleEntry.trans (of_decide_eq_true hle))
  have hfront : (sorted.take index).countP (fun entry => entry ≤ high) ≤ index :=
    List.countP_le_length.trans (List.length_take_le index sorted)
  have hsplit : sorted.countP (fun entry => entry ≤ high) =
      (sorted.take index).countP (fun entry => entry ≤ high) +
        (sorted.drop index).countP (fun entry => entry ≤ high) := by
    rw [← List.countP_append, List.take_append_drop]
  omega

end Majority
