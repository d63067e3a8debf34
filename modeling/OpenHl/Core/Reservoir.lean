import Mathlib.Algebra.Order.Ring.Int
import Mathlib.Algebra.BigOperators.Group.List.Basic
import Mathlib.Data.List.Infix
import Mathlib.Tactic.Ring

/-!
# A store that runs dry

A store takes an inflow up to its capacity and then serves an outflow as far as
its level allows.  What it cannot serve is missing for good: later inflows raise
the level and do not make up for it.

`dry_of_missing_iff` says when a store that came up short at some point is empty
in the end.  The two sides are read off the level on credit, which serves every
outflow in full and so becomes negative where the store comes up short.
-/

namespace Reservoir

structure Flow where
  inflow : ℤ
  outflow : ℤ

variable (capacity : ℤ)

/-- The level after one flow, if it may become negative. -/
def creditStep (level : ℤ) (flow : Flow) : ℤ :=
  min capacity (level + flow.inflow) - flow.outflow

def step (level : ℤ) (flow : Flow) : ℤ := max 0 (creditStep capacity level flow)

/-- What one flow asks for and does not get. -/
def missing (level : ℤ) (flow : Flow) : ℤ := max 0 (-creditStep capacity level flow)

def credit (level : ℤ) (flows : List Flow) : ℤ := flows.foldl (creditStep capacity) level

def run (level : ℤ) (flows : List Flow) : ℤ := flows.foldl (step capacity) level

/-- All that is missing over a list of flows. -/
def totalMissing : ℤ → List Flow → ℤ
  | _, [] => 0
  | level, flow :: rest =>
      missing capacity level flow + totalMissing (step capacity level flow) rest

variable {capacity}

theorem step_nonneg (level : ℤ) (flow : Flow) : 0 ≤ step capacity level flow :=
  le_max_left _ _

theorem missing_nonneg (level : ℤ) (flow : Flow) : 0 ≤ missing capacity level flow :=
  le_max_left _ _

theorem totalMissing_nonneg (level : ℤ) (flows : List Flow) :
    0 ≤ totalMissing capacity level flows := by
  induction flows generalizing level with
  | nil => exact le_refl 0
  | cons flow rest ih => exact add_nonneg (missing_nonneg level flow) (ih _)

theorem run_nonneg {level : ℤ} (hlevel : 0 ≤ level) (flows : List Flow) :
    0 ≤ run capacity level flows := by
  induction flows generalizing level with
  | nil => exact hlevel
  | cons flow rest ih => exact ih (step_nonneg level flow)

theorem creditStep_mono {low high : ℤ} (hle : low ≤ high) (flow : Flow) :
    creditStep capacity low flow ≤ creditStep capacity high flow := by
  rw [creditStep, creditStep]
  omega

theorem credit_mono {low high : ℤ} (hle : low ≤ high) (flows : List Flow) :
    credit capacity low flows ≤ credit capacity high flows := by
  induction flows generalizing low high with
  | nil => exact hle
  | cons flow rest ih => exact ih (creditStep_mono hle flow)

/-- Credit never leaves more than the store has. -/
theorem credit_le_run (level : ℤ) (flows : List Flow) :
    credit capacity level flows ≤ run capacity level flows := by
  induction flows generalizing level with
  | nil => exact le_refl level
  | cons flow rest ih =>
      exact (credit_mono (le_max_right 0 _) rest).trans (ih _)

theorem credit_append (level : ℤ) (before after : List Flow) :
    credit capacity level (before ++ after) =
      credit capacity (credit capacity level before) after :=
  List.foldl_append

theorem run_append (level : ℤ) (before after : List Flow) :
    run capacity level (before ++ after) =
      run capacity (run capacity level before) after :=
  List.foldl_append

/-- The store comes up short where the level on credit becomes negative. -/
theorem totalMissing_pos_iff {level : ℤ} (hlevel : 0 ≤ level) (flows : List Flow) :
    0 < totalMissing capacity level flows ↔
      ∃ before, before <+: flows ∧ credit capacity level before < 0 := by
  induction flows generalizing level with
  | nil =>
      constructor
      · intro hmissing
        exact absurd hmissing (lt_irrefl 0)
      · rintro ⟨before, hbefore, hnegative⟩
        rw [List.prefix_nil.1 hbefore] at hnegative
        exact absurd hnegative (not_lt.2 hlevel)
  | cons flow rest ih =>
      rw [totalMissing]
      have hrest : 0 ≤ totalMissing capacity (step capacity level flow) rest :=
        totalMissing_nonneg _ rest
      rcases lt_or_ge (creditStep capacity level flow) 0 with hshort | henough
      · have hmissing : 0 < missing capacity level flow := by
          rw [missing]
          omega
        constructor
        · intro _
          exact ⟨[flow], List.prefix_append [flow] rest, hshort⟩
        · intro _
          omega
      · have hstep : step capacity level flow = creditStep capacity level flow :=
          max_eq_right henough
        have hmissing : missing capacity level flow = 0 := by
          rw [missing]
          omega
        rw [hmissing, hstep, zero_add, ih henough]
        constructor
        · rintro ⟨before, hbefore, hnegative⟩
          exact ⟨flow :: before, List.cons_prefix_cons.2 ⟨rfl, hbefore⟩, hnegative⟩
        · rintro ⟨before, hbefore, hnegative⟩
          cases before with
          | nil => exact absurd hnegative (not_lt.2 hlevel)
          | cons first before =>
              obtain ⟨rfl, hprefix⟩ := List.cons_prefix_cons.1 hbefore
              exact ⟨before, hprefix, hnegative⟩

/-- The store ends empty if neither its level nor an empty store later on would
gain from the flows that follow. -/
theorem run_nonpos {level : ℤ} {flows : List Flow}
    (hcredit : credit capacity level flows ≤ 0)
    (hafter : ∀ after, after <:+ flows → credit capacity 0 after ≤ 0) :
    run capacity level flows ≤ 0 := by
  induction flows generalizing level with
  | nil => exact hcredit
  | cons flow rest ih =>
      have hrest : ∀ after, after <:+ rest → credit capacity 0 after ≤ 0 :=
        fun after hsuffix => hafter after (hsuffix.trans (List.suffix_cons flow rest))
      change run capacity (step capacity level flow) rest ≤ 0
      rcases le_total (creditStep capacity level flow) 0 with hnonpos | hnonneg
      · rw [step, max_eq_left hnonpos]
        exact ih (hrest rest (List.suffix_refl rest)) hrest
      · rw [step, max_eq_right hnonneg]
        exact ih hcredit hrest

/-- A store that ever comes up short is empty in the end exactly if it never comes
up short, or no stretch of flows up to the end gains anything. -/
theorem dry_of_missing_iff {level : ℤ} (hlevel : 0 ≤ level) (flows : List Flow) :
    (0 < totalMissing capacity level flows → run capacity level flows = 0) ↔
      (∀ before, before <+: flows → 0 ≤ credit capacity level before) ∨
        ∀ after, after <:+ flows → credit capacity 0 after ≤ 0 := by
  have hshort : 0 < totalMissing capacity level flows ↔ _ :=
    totalMissing_pos_iff hlevel flows
  constructor
  · intro hdry
    by_cases hmissing : 0 < totalMissing capacity level flows
    · right
      rintro after ⟨before, rfl⟩
      have hstart : 0 ≤ run capacity level before := run_nonneg hlevel before
      calc
        credit capacity 0 after ≤ credit capacity (run capacity level before) after :=
          credit_mono hstart after
        _ ≤ run capacity (run capacity level before) after := credit_le_run _ after
        _ = 0 := by rw [← run_append, hdry hmissing]
    · left
      intro before hbefore
      by_contra hnegative
      exact hmissing (hshort.2 ⟨before, hbefore, not_le.1 hnegative⟩)
  · rintro (henough | hnever) hmissing
    · obtain ⟨before, hbefore, hnegative⟩ := hshort.1 hmissing
      exact absurd hnegative (not_lt.2 (henough before hbefore))
    · obtain ⟨before, ⟨after, rfl⟩, hnegative⟩ := hshort.1 hmissing
      have hcredit : credit capacity level (before ++ after) ≤ 0 := by
        rw [credit_append]
        exact (credit_mono hnegative.le after).trans
          (hnever after (List.suffix_append before after))
      exact le_antisymm (run_nonpos hcredit hnever) (run_nonneg hlevel _)

end Reservoir
