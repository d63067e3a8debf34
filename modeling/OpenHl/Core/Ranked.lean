import Mathlib.Data.List.TakeWhile

/-!
# Predicates that are downward closed along a list

A predicate that passes from every element of a list to the elements before it
holds on a prefix.  `takeWhile` and `dropWhile` then are `filter`s.
-/

namespace Ranked

universe u

variable {α : Type u} {holds : α → Bool} {list : List α}

theorem dropWhile_rejects
    (hclosed : list.Pairwise fun first second =>
      holds second = true → holds first = true) :
    ∀ item ∈ list.dropWhile holds, holds item = false := by
  induction list with
  | nil => simp
  | cons head tail ih =>
      rw [List.pairwise_cons] at hclosed
      cases hhead : holds head with
      | true =>
          rw [List.dropWhile_cons_of_pos hhead]
          exact ih hclosed.2
      | false =>
          rw [List.dropWhile_cons_of_neg (by simp [hhead])]
          intro item hitem
          rcases List.mem_cons.1 hitem with rfl | htail
          · exact hhead
          · rw [← Bool.not_eq_true]
            intro hholds
            have hfirst := hclosed.1 item htail hholds
            simp [hhead] at hfirst

theorem takeWhile_eq_filter
    (hclosed : list.Pairwise fun first second =>
      holds second = true → holds first = true) :
    list.takeWhile holds = list.filter holds := by
  have hback := dropWhile_rejects hclosed
  have hsplit : list.filter holds =
      (list.takeWhile holds ++ list.dropWhile holds).filter holds := by
    rw [List.takeWhile_append_dropWhile]
  rw [hsplit, List.filter_append,
    List.filter_eq_self.2 fun _ => List.mem_takeWhile_imp,
    List.filter_eq_nil_iff.2 (by simpa using hback), List.append_nil]

theorem dropWhile_eq_filter_not
    (hclosed : list.Pairwise fun first second =>
      holds second = true → holds first = true) :
    list.dropWhile holds = list.filter fun item => !holds item := by
  have hback := dropWhile_rejects hclosed
  have hsplit : list.filter (fun item => !holds item) =
      (list.takeWhile holds ++ list.dropWhile holds).filter
        fun item => !holds item := by
    rw [List.takeWhile_append_dropWhile]
  rw [hsplit, List.filter_append, List.filter_eq_nil_iff.2, List.nil_append,
    List.filter_eq_self.2]
  · intro item hitem
    simp [hback item hitem]
  · intro item hitem
    simp [List.mem_takeWhile_imp hitem]

end Ranked
