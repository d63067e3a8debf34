import Mathlib.Data.Nat.ModEq
import Mathlib.Data.List.Nodup

/-!
# Taking turns

A list without repetitions, read at a counter modulo its length.  Over as many
consecutive values of the counter as the list has items, every item has its turn once.
-/

namespace RoundRobin

/-- The first number from `start` on with the given remainder. -/
def firstTurn (count remainder start : ℕ) : ℕ :=
  start + (remainder + count - start % count) % count

theorem firstTurn_mod {count remainder : ℕ} (hremainder : remainder < count) (start : ℕ) :
    firstTurn count remainder start % count = remainder := by
  have hstart : start % count ≤ remainder + count :=
    (Nat.mod_lt start (by omega)).le.trans (Nat.le_add_left _ _)
  calc
    firstTurn count remainder start % count =
        (start % count + (remainder + count - start % count)) % count := by
      rw [firstTurn, Nat.add_mod, Nat.mod_mod, ← Nat.add_mod, Nat.mod_add_mod]
    _ = (remainder + count) % count := by rw [Nat.add_sub_cancel' hstart]
    _ = remainder := by rw [Nat.add_mod_right, Nat.mod_eq_of_lt hremainder]

theorem eq_of_mod_eq {count first second : ℕ} (hle : first ≤ second)
    (hless : second < first + count) (hmod : first % count = second % count) :
    first = second := by
  have hdvd : count ∣ second - first := (Nat.modEq_iff_dvd' hle).1 hmod
  have hzero : second - first = 0 := Nat.eq_zero_of_dvd_of_lt hdvd (by omega)
  omega

/-- Among `count` consecutive numbers one has a given remainder. -/
theorem existsUnique_mod {count remainder : ℕ} (hremainder : remainder < count)
    (start : ℕ) :
    ∃! turn, (start ≤ turn ∧ turn < start + count) ∧ turn % count = remainder := by
  have hlower : start ≤ firstTurn count remainder start := Nat.le_add_right _ _
  have hupper : firstTurn count remainder start < start + count :=
    Nat.add_lt_add_left (Nat.mod_lt _ (by omega)) start
  have hmod := firstTurn_mod hremainder start
  refine ⟨firstTurn count remainder start, ⟨⟨hlower, hupper⟩, hmod⟩, ?_⟩
  rintro turn ⟨⟨hlower', hupper'⟩, hmod'⟩
  rcases le_total turn (firstTurn count remainder start) with hle | hle
  · exact eq_of_mod_eq hle (by omega) (hmod'.trans hmod.symm)
  · exact (eq_of_mod_eq hle (by omega) (hmod.trans hmod'.symm)).symm

/-- In as many consecutive turns as there are items, every item has one. -/
theorem existsUnique_turn {α : Type*} {list : List α} (hnodup : list.Nodup) {item : α}
    (hitem : item ∈ list) (start : ℕ) :
    ∃! turn, (start ≤ turn ∧ turn < start + list.length) ∧
      list[turn % list.length]? = some item := by
  obtain ⟨index, hindex, rfl⟩ := List.getElem_of_mem hitem
  have hpositive : 0 < list.length := by omega
  have hturn : ∀ turn, list[turn % list.length]? = some list[index] ↔
      turn % list.length = index := by
    intro turn
    rw [List.getElem?_eq_getElem (Nat.mod_lt turn hpositive), Option.some.injEq,
      hnodup.getElem_inj_iff]
  simpa only [hturn] using existsUnique_mod hindex start

end RoundRobin
