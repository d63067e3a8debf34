import Mathlib.Data.List.Sort

/-!
# Places in a stable sort

Insertion sort keeps the order of items that may stand on either side of each other, so
the place of an item can be counted from the unsorted list (`getElem?_insertionSort_iff`).
-/

namespace StableRank

variable {α : Type*} (r : α → α → Prop) [DecidableRel r]

/-- The items of a list that an item may not stand in front of. -/
def passed (item : α) (list : List α) : ℕ :=
  list.countP fun other => decide (¬ r item other)

/-- An item goes behind the items listed before it that may stand in front of it, and
behind the items listed after it that it may not stand in front of. -/
def rank (front : List α) (item : α) (behind : List α) : ℕ :=
  front.countP (fun other => decide (r other item)) + passed r item behind

variable {r}

theorem rank_cons (head : α) (front : List α) (item : α) (behind : List α) :
    rank r (head :: front) item behind =
      if r head item then rank r front item behind + 1 else rank r front item behind := by
  rw [rank, rank]
  by_cases hhead : r head item
  · rw [List.countP_cons_of_pos (by simpa using hhead), if_pos hhead]
    omega
  · rw [List.countP_cons_of_neg (by simpa using hhead), if_neg hhead]

/-- In a list that is in order every item has its own place already. -/
theorem rank_of_pairwise {front behind : List α} {item : α}
    (hordered : (front ++ item :: behind).Pairwise r) :
    rank r front item behind = front.length := by
  obtain ⟨-, hbehind, hfront⟩ := List.pairwise_append.1 hordered
  have hbefore : front.countP (fun other => decide (r other item)) = front.length :=
    List.countP_eq_length.2 fun other hother => by
      simpa using hfront other hother item List.mem_cons_self
  have hafter : passed r item behind = 0 :=
    List.countP_eq_zero.2 fun other hother => by
      simpa using (List.pairwise_cons.1 hbehind).1 other hother
  rw [rank, hbefore, hafter, Nat.add_zero]

variable [IsTrans α r]

/-- The places of a sorted list after one more item is inserted. -/
theorem getElem?_orderedInsert_iff {sorted : List α} (hsorted : sorted.Pairwise r)
    (new item : α) (place : ℕ) :
    (sorted.orderedInsert r new)[place]? = some item ↔
      item = new ∧ place = passed r new sorted ∨
      ∃ before, sorted[before]? = some item ∧
        place = if r new item then before + 1 else before := by
  induction sorted generalizing place with
  | nil =>
      cases place with
      | zero => simp [passed, eq_comm]
      | succ place => simp [passed]
  | cons head tail ih =>
      obtain ⟨hhead, htail⟩ := List.pairwise_cons.1 hsorted
      by_cases hnew : r new head
      · -- the new item goes in front, and everything moves
        have hall : ∀ other ∈ head :: tail, r new other := by
          intro other hother
          rcases List.mem_cons.1 hother with rfl | hother
          · exact hnew
          · exact IsTrans.trans new head other hnew (hhead other hother)
        have hpassed : passed r new (head :: tail) = 0 :=
          List.countP_eq_zero.2 fun other hother => by simpa using hall other hother
        rw [List.orderedInsert_cons_of_le r tail hnew, hpassed]
        constructor
        · intro hplace
          cases place with
          | zero => exact .inl ⟨(Option.some.inj hplace).symm, rfl⟩
          | succ before =>
              have hitem := hall item (List.mem_of_getElem? hplace)
              exact .inr ⟨before, hplace, (if_pos hitem).symm⟩
        · rintro (⟨rfl, rfl⟩ | ⟨before, hbefore, rfl⟩)
          · rfl
          · rw [if_pos (hall item (List.mem_of_getElem? hbefore))]
            exact hbefore
      · have hpassed : passed r new (head :: tail) = passed r new tail + 1 :=
          List.countP_cons_of_pos (by simpa using hnew)
        rw [List.orderedInsert_of_not_le r tail hnew, hpassed]
        cases place with
        | zero =>
            constructor
            · intro hplace
              obtain rfl := Option.some.inj hplace
              exact .inr ⟨0, rfl, (if_neg hnew).symm⟩
            · rintro (⟨-, hplace⟩ | ⟨before, hbefore, hplace⟩)
              · omega
              · split_ifs at hplace
                rw [← hplace] at hbefore
                exact hbefore
        | succ place =>
            rw [List.getElem?_cons_succ, ih htail]
            constructor
            · rintro (⟨hitem, rfl⟩ | ⟨before, hbefore, rfl⟩)
              · exact .inl ⟨hitem, rfl⟩
              · refine .inr ⟨before + 1, hbefore, ?_⟩
                split_ifs <;> rfl
            · rintro (⟨hitem, hplace⟩ | ⟨before, hbefore, hplace⟩)
              · exact .inl ⟨hitem, by omega⟩
              · cases before with
                | zero =>
                    obtain rfl := Option.some.inj hbefore
                    rw [if_neg hnew] at hplace
                    omega
                | succ before =>
                    refine .inr ⟨before, hbefore, ?_⟩
                    split_ifs at hplace ⊢ <;> omega

/-- Every item of a list has the place of its rank, and every place is one. -/
theorem getElem?_insertionSort_iff [Std.Total r] (list : List α) (item : α) (place : ℕ) :
    (list.insertionSort r)[place]? = some item ↔
      ∃ front behind, list = front ++ item :: behind ∧ place = rank r front item behind := by
  induction list generalizing place with
  | nil => simp
  | cons head tail ih =>
      have hpassed : passed r head (tail.insertionSort r) = rank r [] head tail := by
        rw [rank, List.countP_nil, Nat.zero_add, passed, passed]
        exact (List.perm_insertionSort r tail).countP_eq _
      rw [List.insertionSort_cons,
        getElem?_orderedInsert_iff (List.pairwise_insertionSort r tail), hpassed]
      constructor
      · rintro (⟨rfl, rfl⟩ | ⟨before, hbefore, rfl⟩)
        · exact ⟨[], tail, rfl, rfl⟩
        · obtain ⟨front, behind, rfl, rfl⟩ := (ih before).1 hbefore
          exact ⟨head :: front, behind, rfl, (rank_cons head front item behind).symm⟩
      · rintro ⟨front, behind, hlist, rfl⟩
        cases front with
        | nil =>
            obtain ⟨rfl, rfl⟩ := List.cons.inj hlist
            exact .inl ⟨rfl, rfl⟩
        | cons first front =>
            obtain ⟨rfl, rfl⟩ := List.cons.inj hlist
            exact .inr ⟨rank r front item behind, (ih _).2 ⟨front, behind, rfl, rfl⟩,
              rank_cons head front item behind⟩

end StableRank
