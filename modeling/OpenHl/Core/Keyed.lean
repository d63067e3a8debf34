import Mathlib.Algebra.BigOperators.Group.List.Basic
import Mathlib.Data.List.Nodup

/-!
# Sums over keyed items

A list of items holds at most one for each key.  Summing over the keys what is found
under each is then summing over the items, and summing over a selection is summing
over everything, with nothing for the rest.
-/

namespace Keyed

variable {K I M : Type*} [DecidableEq K] [AddCommMonoid M]

/-- What the first item of a key measures, zero if there is none. -/
def amountAt (keyOf : I → K) (measure : I → M) (items : List I) (key : K) : M :=
  ((items.find? fun item => keyOf item = key).map measure).getD 0

section Sum

variable {keyOf : I → K} {measure : I → M} {item : I} {items : List I} {keys : List K}

theorem amountAt_of_not_mem {key : K} (hnone : key ∉ items.map keyOf) :
    amountAt keyOf measure items key = 0 := by
  have hfind : (items.find? fun item => keyOf item = key) = none := by
    rw [List.find?_eq_none]
    intro item hitem hkey
    exact hnone (List.mem_map.2 ⟨item, hitem, of_decide_eq_true hkey⟩)
  rw [amountAt, hfind]
  rfl

/-- The first item adds its measure under its own key. -/
theorem amountAt_cons (hfresh : keyOf item ∉ items.map keyOf) (key : K) :
    amountAt keyOf measure (item :: items) key =
      (if key = keyOf item then measure item else 0) +
        amountAt keyOf measure items key := by
  by_cases hkey : key = keyOf item
  · subst hkey
    rw [if_pos rfl, amountAt_of_not_mem hfresh, add_zero, amountAt, List.find?_cons_of_pos]
    · rfl
    · simp
  · rw [if_neg hkey, zero_add, amountAt, List.find?_cons_of_neg, amountAt]
    simpa using Ne.symm hkey

theorem sum_map_ite_of_not_mem {key : K} (hnone : key ∉ keys) (amount : M) :
    (keys.map fun other => if other = key then amount else 0).sum = 0 := by
  apply List.sum_eq_zero
  intro summand hsummand
  obtain ⟨other, hother, rfl⟩ := List.mem_map.1 hsummand
  apply if_neg
  rintro rfl
  exact hnone hother

/-- The one key among distinct ones takes the whole amount. -/
theorem sum_map_ite_eq (hkeys : keys.Nodup) {key : K} (hmem : key ∈ keys) (amount : M) :
    (keys.map fun other => if other = key then amount else 0).sum = amount := by
  induction keys with
  | nil => exact absurd hmem List.not_mem_nil
  | cons first rest ih =>
      obtain ⟨hfresh, hrest⟩ := List.nodup_cons.1 hkeys
      rw [List.map_cons, List.sum_cons]
      by_cases hfirst : first = key
      · subst hfirst
        rw [if_pos rfl, sum_map_ite_of_not_mem hfresh, add_zero]
      · have hlater := (List.mem_cons.1 hmem).resolve_left (Ne.symm hfirst)
        rw [if_neg hfirst, ih hrest hlater, zero_add]

theorem sum_amountAt (hkeys : keys.Nodup) (hitems : (items.map keyOf).Nodup)
    (hfound : ∀ item ∈ items, keyOf item ∈ keys) :
    (keys.map (amountAt keyOf measure items)).sum = (items.map measure).sum := by
  induction items with
  | nil =>
      apply List.sum_eq_zero
      intro amount hamount
      obtain ⟨key, -, rfl⟩ := List.mem_map.1 hamount
      exact amountAt_of_not_mem List.not_mem_nil
  | cons item rest ih =>
      obtain ⟨hfresh, hrest⟩ := List.nodup_cons.1 hitems
      calc
        (keys.map (amountAt keyOf measure (item :: rest))).sum =
            (keys.map fun key => (if key = keyOf item then measure item else 0) +
              amountAt keyOf measure rest key).sum := by
          rw [funext (amountAt_cons hfresh)]
        _ = measure item + (keys.map (amountAt keyOf measure rest)).sum := by
          rw [List.sum_map_add, sum_map_ite_eq hkeys (hfound item (by simp))]
        _ = ((item :: rest).map measure).sum := by
          rw [ih hrest fun other hother => hfound other (List.mem_cons_of_mem item hother)]
          rfl

end Sum

theorem sum_map_filter (keep : I → Prop) [DecidablePred keep] (measure : I → M)
    (items : List I) :
    ((items.filter keep).map measure).sum =
      (items.map fun item => if keep item then measure item else 0).sum := by
  induction items with
  | nil => rfl
  | cons item rest ih =>
      by_cases hkeep : keep item
      · rw [List.filter_cons_of_pos (by simpa using hkeep), List.map_cons, List.map_cons,
          List.sum_cons, List.sum_cons, ih, if_pos hkeep]
      · rw [List.filter_cons_of_neg (by simpa using hkeep), List.map_cons, List.sum_cons,
          ih, if_neg hkeep, zero_add]

end Keyed
