import Mathlib.Data.List.Sort
import Mathlib.Order.Lattice

/-!
# Sorting by two keys

Items in descending order of one key and, where that is equal, in ascending order of
another.  If no two items share the second key, the sorted list does not depend on the
order of the input.
-/

namespace TwoKey

variable {α P S : Type*} [LinearOrder P] [LinearOrder S] (descending : α → P)
  (ascending : α → S)

def RanksBefore (first second : α) : Prop :=
  descending second < descending first ∨
    (descending first = descending second ∧ ascending first ≤ ascending second)

instance : DecidableRel (RanksBefore descending ascending) := fun _ _ =>
  inferInstanceAs (Decidable (_ ∨ _))

instance : Std.Total (RanksBefore descending ascending) where
  total first second := by
    rcases lt_trichotomy (descending first) (descending second) with hless | hequal | hmore
    · exact .inr (.inl hless)
    · rcases le_total (ascending first) (ascending second) with hle | hle
      · exact .inl (.inr ⟨hequal, hle⟩)
      · exact .inr (.inr ⟨hequal.symm, hle⟩)
    · exact .inl (.inl hmore)

instance : IsTrans α (RanksBefore descending ascending) where
  trans first second third hfirst hsecond := by
    rcases hfirst with hfirst | ⟨hfirst, hfirst'⟩
    · rcases hsecond with hsecond | ⟨hsecond, -⟩
      · exact .inl (hsecond.trans hfirst)
      · exact .inl (hsecond ▸ hfirst)
    · rcases hsecond with hsecond | ⟨hsecond, hsecond'⟩
      · exact .inl (hfirst.symm ▸ hsecond)
      · exact .inr ⟨hfirst.trans hsecond, hfirst'.trans hsecond'⟩

variable {descending ascending}

/-- Items that rank before each other share both keys. -/
theorem RanksBefore.antisymm {first second : α}
    (hfirst : RanksBefore descending ascending first second)
    (hsecond : RanksBefore descending ascending second first) :
    descending first = descending second ∧ ascending first = ascending second := by
  rcases hfirst with hless | ⟨hequal, hle⟩
  · rcases hsecond with hmore | ⟨hequal, -⟩
    · exact absurd hless hmore.not_gt
    · exact absurd hequal hless.ne
  · rcases hsecond with hless | ⟨-, hge⟩
    · exact absurd hequal hless.ne
    · exact ⟨hequal, le_antisymm hle hge⟩

/-- Two sorted lists of the same items are equal if no two items share the second key. -/
theorem eq_of_perm {left right : List α} (hperm : left.Perm right)
    (hdistinct : (left.map ascending).Nodup)
    (hleft : left.Pairwise (RanksBefore descending ascending))
    (hright : right.Pairwise (RanksBefore descending ascending)) : left = right := by
  apply List.Perm.eq_of_pairwise _ hleft hright hperm
  intro first second hfirst hsecond hbefore hafter
  exact List.inj_on_of_nodup_map hdistinct hfirst (hperm.mem_iff.2 hsecond)
    (hbefore.antisymm hafter).2

/-- Sorting forgets the order of the input if no two items share the second key. -/
theorem insertionSort_eq_of_perm {left right : List α} (hperm : left.Perm right)
    (hdistinct : (left.map ascending).Nodup) :
    left.insertionSort (RanksBefore descending ascending) =
      right.insertionSort (RanksBefore descending ascending) := by
  have hleft := List.perm_insertionSort (RanksBefore descending ascending) left
  have hright := List.perm_insertionSort (RanksBefore descending ascending) right
  have hsorted := List.pairwise_insertionSort (RanksBefore descending ascending)
  exact eq_of_perm ((hleft.trans hperm).trans hright.symm)
    ((hleft.map ascending).nodup_iff.2 hdistinct) (hsorted left) (hsorted right)

end TwoKey
