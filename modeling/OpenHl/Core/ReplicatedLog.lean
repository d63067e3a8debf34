import Mathlib

/-!
# Logs of replicas

Each replica appends entries to a log of its own, the first at a common height and
every further one a height above.  If entries of one height look the same wherever
they stand, then of any two logs the shorter one is a prefix of the other
(`Consecutive.map_prefix`).
-/

namespace ReplicatedLog

variable {V A : Type*} {height : V → ℕ} {base : ℕ}

/-- The entries stand at the heights from `base` on. -/
def Consecutive (height : V → ℕ) (base : ℕ) (log : List V) : Prop :=
  ∀ index entry, log[index]? = some entry → height entry = base + index

theorem Consecutive.nil : Consecutive height base [] := by
  intro index entry hentry
  rw [List.getElem?_nil] at hentry
  cases hentry

theorem Consecutive.append {log later : List V} (hlog : Consecutive height base log)
    (hlater : Consecutive height (base + log.length) later) :
    Consecutive height base (log ++ later) := by
  intro index entry hentry
  by_cases hindex : index < log.length
  · rw [List.getElem?_append_left hindex] at hentry
    exact hlog index entry hentry
  · rw [List.getElem?_append_right (not_lt.1 hindex)] at hentry
    rw [hlater _ entry hentry]
    omega

theorem Consecutive.append_singleton {log : List V} (hlog : Consecutive height base log)
    {entry : V} (hentry : height entry = base + log.length) :
    Consecutive height base (log ++ [entry]) := by
  apply hlog.append
  intro index other hother
  cases index with
  | zero =>
      rw [List.getElem?_cons_zero, Option.some.injEq] at hother
      rw [← hother, hentry, Nat.add_zero]
  | succ index =>
      rw [List.getElem?_cons_succ, List.getElem?_nil] at hother
      cases hother

theorem Consecutive.bounds {log : List V} (hlog : Consecutive height base log) {entry : V}
    (hentry : entry ∈ log) : base ≤ height entry ∧ height entry < base + log.length := by
  obtain ⟨index, hlt, hindex⟩ := List.mem_iff_getElem.1 hentry
  have hheight := hlog index entry (List.getElem?_eq_some_iff.2 ⟨hlt, hindex⟩)
  omega

/-- Every height up to the last one has an entry. -/
theorem Consecutive.exists_mem {log : List V} (hlog : Consecutive height base log) {level : ℕ}
    (hlower : base ≤ level) (hupper : level < base + log.length) :
    ∃ entry ∈ log, height entry = level := by
  have hlt : level - base < log.length := by omega
  refine ⟨log[level - base], List.getElem_mem hlt, ?_⟩
  rw [hlog (level - base) _ (List.getElem?_eq_getElem hlt)]
  omega

/-- The last entry stands just below the next height. -/
theorem Consecutive.getLast {log : List V} (hlog : Consecutive height base log) {entry : V}
    (hentry : entry ∈ log.getLast?) : height entry + 1 = base + log.length := by
  rw [Option.mem_def, List.getLast?_eq_getElem?] at hentry
  have hpositive : log.length - 1 < log.length := (List.getElem?_eq_some_iff.1 hentry).1
  have hheight := hlog _ entry hentry
  omega

/-- The shorter of two logs is a prefix of the other, as far as the view goes in which
entries of one height agree. -/
theorem Consecutive.map_prefix {left right : List V} {view : V → A}
    (hleft : Consecutive height base left) (hright : Consecutive height base right)
    (hagree : ∀ entry ∈ left, ∀ other ∈ right, height entry = height other →
      view entry = view other)
    (hlength : left.length ≤ right.length) : left.map view <+: right.map view := by
  rw [List.prefix_iff_getElem?]
  intro index hindex
  rw [List.length_map] at hindex
  have hother : index < right.length := lt_of_lt_of_le hindex hlength
  rw [List.getElem?_map, List.getElem?_eq_getElem hother, Option.map_some, List.getElem_map]
  refine congrArg some (hagree _ (List.getElem_mem hindex) _ (List.getElem_mem hother) ?_).symm
  rw [hleft index _ (List.getElem?_eq_getElem hindex),
    hright index _ (List.getElem?_eq_getElem hother)]

end ReplicatedLog
