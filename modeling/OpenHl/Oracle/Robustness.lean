import OpenHl.Core.Majority
import OpenHl.Oracle.State

/-!
# The index under corrupt feeds

The median of the fresh prices is where the majority is, and the index is a median
of prices that deviate little from it.

`aggregateIndex_robust`: if more than half of the prices are within two bounds,
whatever the others are, the index is within the deviation cap of a price between
the bounds; and if the cap admits the whole span, it is between the bounds itself.
-/

namespace OpenHl.Oracle

open Machine OpenHl.Funding

/-! ## Medians -/

/-- The two entries in the middle of the sorted prices, possibly the same, between
which the median lies. -/
theorem computeMedian_middle {prices : List IndexPrice} {median : IndexPrice}
    (hmedian : computeMedian prices = some median) :
    ∃ (left right : ℕ) (hleft : left < (prices.insertionSort (· ≤ ·)).length)
      (hright : right < (prices.insertionSort (· ≤ ·)).length),
      prices.length ≤ 2 * left + 2 ∧ 2 * right ≤ prices.length ∧
      (prices.insertionSort (· ≤ ·))[left] ≤ median ∧
      median ≤ (prices.insertionSort (· ≤ ·))[right] := by
  have hlength := List.length_insertionSort (· ≤ ·) prices
  rw [computeMedian] at hmedian
  split_ifs at hmedian with hempty
  have hpositive : 0 < prices.length := by
    rw [List.isEmpty_iff] at hempty
    exact List.length_pos_of_ne_nil hempty
  have hright : prices.length / 2 < (prices.insertionSort (· ≤ ·)).length := by omega
  dsimp only at hmedian
  rw [hlength] at hmedian
  split_ifs at hmedian with hodd
  · rw [List.getD_eq_getElem _ _ hright, Option.some.injEq] at hmedian
    exact ⟨prices.length / 2, prices.length / 2, hright, hright, by omega, by omega,
      hmedian.le, hmedian.ge⟩
  · have hleft : prices.length / 2 - 1 < (prices.insertionSort (· ≤ ·)).length := by
      omega
    rw [List.getD_eq_getElem _ _ hleft, List.getD_eq_getElem _ _ hright,
      Option.some.injEq] at hmedian
    have hle : (prices.insertionSort (· ≤ ·))[prices.length / 2 - 1].val ≤
        (prices.insertionSort (· ≤ ·))[prices.length / 2].val :=
      List.pairwise_iff_getElem.1 (List.pairwise_insertionSort (· ≤ ·) prices) _ _
        hleft hright (by omega)
    refine ⟨prices.length / 2 - 1, prices.length / 2, hleft, hright, by omega, by omega,
      ?_, ?_⟩
    · rw [← hmedian, Fin.le_def]
      simp only [midpoint]
      omega
    · rw [← hmedian, Fin.le_def]
      simp only [midpoint]
      omega

/-- Prices in a span. -/
def within (low high : IndexPrice) (price : IndexPrice) : Bool :=
  low ≤ price ∧ price ≤ high

/-- A median is where the majority is. -/
theorem computeMedian_within {prices : List IndexPrice} {median low high : IndexPrice}
    (hmedian : computeMedian prices = some median)
    (hmajority : prices.length < 2 * prices.countP (within low high)) :
    low ≤ median ∧ median ≤ high := by
  have hsorted := List.pairwise_insertionSort (· ≤ ·) prices
  have hlength := List.length_insertionSort (· ≤ ·) prices
  have hperm := List.perm_insertionSort (· ≤ ·) prices
  have habove : prices.countP (within low high) ≤
      (prices.insertionSort (· ≤ ·)).countP fun price => low ≤ price := by
    rw [← hperm.countP_eq]
    apply List.countP_mono_left
    intro price _ hwithin
    exact decide_eq_true (of_decide_eq_true hwithin).1
  have hbelow : prices.countP (within low high) ≤
      (prices.insertionSort (· ≤ ·)).countP fun price => price ≤ high := by
    rw [← hperm.countP_eq]
    apply List.countP_mono_left
    intro price _ hwithin
    exact decide_eq_true (of_decide_eq_true hwithin).2
  obtain ⟨left, right, hleft, hright, hleftHalf, hrightHalf, hge, hle⟩ :=
    computeMedian_middle hmedian
  constructor
  · exact (Majority.le_getElem hsorted hleft (by omega)).trans hge
  · exact hle.trans (Majority.getElem_le hsorted hright (by omega))

/-- A median lies between two of the prices. -/
theorem computeMedian_between {prices : List IndexPrice} {median : IndexPrice}
    (hmedian : computeMedian prices = some median) :
    ∃ below ∈ prices, ∃ above ∈ prices, below ≤ median ∧ median ≤ above := by
  obtain ⟨left, right, hleft, hright, -, -, hge, hle⟩ := computeMedian_middle hmedian
  exact ⟨_, (List.mem_insertionSort (· ≤ ·)).1 (List.getElem_mem hleft), _,
    (List.mem_insertionSort (· ≤ ·)).1 (List.getElem_mem hright), hge, hle⟩

/-! ## Deviation -/

def distance (price reference : IndexPrice) : ℕ :=
  (price.val - reference.val) + (reference.val - price.val)

theorem deviationBps_mono {near far reference : IndexPrice}
    (hdistance : distance near reference ≤ distance far reference) :
    deviationBps near reference ≤ deviationBps far reference := by
  rw [deviationBps, deviationBps]
  split_ifs with hzero
  · exact le_refl _
  · have hquotient : distance near reference * deviationScale / reference.val ≤
        distance far reference * deviationScale / reference.val :=
      Nat.div_le_div_right (Nat.mul_le_mul_right _ hdistance)
    rw [Fin.le_def]
    exact min_le_min_right _ hquotient

/-- What lies between two prices deviates no more than one of them. -/
theorem deviationBps_le_of_between {below above price reference : IndexPrice}
    {cap : U32} (hbelow : below ≤ price) (habove : price ≤ above)
    (hlow : deviationBps below reference ≤ cap)
    (hhigh : deviationBps above reference ≤ cap) :
    deviationBps price reference ≤ cap := by
  rw [Fin.le_def] at hbelow habove
  rcases le_total reference.val price.val with hup | hdown
  · refine (deviationBps_mono ?_).trans hhigh
    rw [distance, distance]
    omega
  · refine (deviationBps_mono ?_).trans hlow
    rw [distance, distance]
    omega

/-! ## The index -/

theorem aggregateIndex_eq_ok {fresh : List IndexPrice} {params : OracleParams}
    {index : IndexPrice} (hindex : aggregateIndex fresh params = .ok index) :
    ∃ initial, computeMedian fresh = some initial ∧
      computeMedian (filterByDeviation fresh initial params.maxDeviationBps) =
        some index := by
  rw [aggregateIndex] at hindex
  dsimp only at hindex
  split_ifs at hindex
  cases hinitial : computeMedian fresh with
  | none => simp [hinitial] at hindex
  | some initial =>
      simp only [hinitial] at hindex
      split_ifs at hindex
      cases hmedian : computeMedian
          (filterByDeviation fresh initial params.maxDeviationBps) with
      | none => simp [hmedian] at hindex
      | some median =>
          simp only [hmedian] at hindex
          exact ⟨initial, rfl, by rw [hmedian, Except.ok.inj hindex]⟩

/-- A majority that the filter does not touch stays one. -/
theorem filterByDeviation_majority {fresh : List IndexPrice}
    {initial low high : IndexPrice} {cap : U32}
    (hmajority : fresh.length < 2 * fresh.countP (within low high))
    (hkept : ∀ price, low ≤ price → price ≤ high → deviationBps price initial ≤ cap) :
    (filterByDeviation fresh initial cap).length <
      2 * (filterByDeviation fresh initial cap).countP (within low high) := by
  have hcount : (filterByDeviation fresh initial cap).countP (within low high) =
      fresh.countP (within low high) := by
    rw [filterByDeviation, List.countP_filter]
    apply List.countP_congr
    intro price _
    constructor
    · intro hboth
      exact (Bool.and_eq_true_iff.1 hboth).1
    · intro hwithin
      obtain ⟨hlow, hhigh⟩ := of_decide_eq_true hwithin
      exact Bool.and_eq_true_iff.2 ⟨hwithin, decide_eq_true (hkept price hlow hhigh)⟩
  have hlength : (filterByDeviation fresh initial cap).length ≤ fresh.length :=
    List.length_filter_le _ _
  omega

/-- If more than half of the fresh prices are between two bounds, the index deviates
by at most the cap from some price between them; and if no two prices between the
bounds deviate by more than the cap, it is between them. -/
theorem aggregateIndex_robust (fresh : List IndexPrice) (params : OracleParams)
    (low high index : IndexPrice)
    (hmajority : fresh.length < 2 * fresh.countP (within low high))
    (hindex : aggregateIndex fresh params = .ok index) :
    (∃ median, low ≤ median ∧ median ≤ high ∧
      deviationBps index median ≤ params.maxDeviationBps) ∧
    ((∀ price median, low ≤ price → price ≤ high → low ≤ median → median ≤ high →
        deviationBps price median ≤ params.maxDeviationBps) →
      low ≤ index ∧ index ≤ high) := by
  obtain ⟨initial, hinitial, hfinal⟩ := aggregateIndex_eq_ok hindex
  obtain ⟨hlow, hhigh⟩ := computeMedian_within hinitial hmajority
  refine ⟨⟨initial, hlow, hhigh, ?_⟩, fun hspan => ?_⟩
  · obtain ⟨below, hbelow, above, habove, hge, hle⟩ := computeMedian_between hfinal
    exact deviationBps_le_of_between hge hle
      (of_decide_eq_true (List.mem_filter.1 hbelow).2)
      (of_decide_eq_true (List.mem_filter.1 habove).2)
  · exact computeMedian_within hfinal (filterByDeviation_majority hmajority
      fun price hpriceLow hpriceHigh => hspan price initial hpriceLow hpriceHigh hlow hhigh)

/-- Two feeds at 10000 and 10050 outvote a third one. -/
theorem aggregateIndex_robust_twoOfThree :
    ∃ index, aggregateIndex [10000, 5, 10050] .hyperliquidDefault = .ok index ∧
      10000 ≤ index ∧ index ≤ 10050 := by
  refine ⟨10025, by decide, (aggregateIndex_robust [10000, 5, 10050] .hyperliquidDefault
    10000 10050 10025 (by decide) (by decide)).2 ?_⟩
  intro price median hpriceLow hpriceHigh hmedianLow hmedianHigh
  replace hpriceLow : 10000 ≤ price.val := hpriceLow
  replace hpriceHigh : price.val ≤ 10050 := hpriceHigh
  replace hmedianLow : 10000 ≤ median.val := hmedianLow
  replace hmedianHigh : median.val ≤ 10050 := hmedianHigh
  -- At most 50 away from a reference of at least 10000.
  have hquotient : ((price.val - median.val) + (median.val - price.val)) *
      deviationScale / median.val ≤ 100 := by
    rw [deviationScale]
    apply Nat.div_le_of_le_mul
    omega
  rw [deviationBps]
  split_ifs with hzero
  · simp [hzero] at hmedianLow
  · rw [Fin.le_def]
    exact (min_le_left _ _).trans hquotient

end OpenHl.Oracle
