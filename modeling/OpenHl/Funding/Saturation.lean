import OpenHl.Funding.Redistribution

/-!
# Funding at the bounds of its words

The premium, the rate and every settlement are the exact values cut to 64 bits, with
two exceptions, in which the code negates a least word: a cap of `i64::MIN`, and a
position whose size times mark times rate is at most `-2^127`.

`tick_eq_exact_iff`: a tick gives the exact values, cut to 64 bits, exactly when it
meets neither.
-/

namespace OpenHl.Funding

open Machine OpenHl.Clob

/-! ## The exact values -/

/-- `(mark - index) × 10⁹ / index`, or 0 without an index. -/
def exactPremium (mark : MarkPrice) (index : IndexPrice) : ℤ :=
  if index = 0 then 0
  else (((mark.val : ℤ) - index.val) * rateScale).tdiv index.val

/-- The premium over the divisor, within the cap; 0 without a divisor. -/
def exactRate (premium : ℤ) (params : FundingParams) : ℤ :=
  if params.divisor = 0 then 0
  else max (-|params.rateCap.val|) (min |params.rateCap.val| (premium.tdiv params.divisor.val))

/-- The rate of a tick. -/
def tickRate (params : FundingParams) (mark : MarkPrice) (index : IndexPrice) : I64 :=
  .saturate (exactRate (I64.saturate (exactPremium mark index)).val params)

/-- The settlements of a rate: one for every open position, in their order. -/
def exactSettlements (positions : List Position) (mark : MarkPrice) (rate : I64) :
    List Settlement :=
  if rate = 0 then []
  else (positions.filter fun position => position.size ≠ 0).map fun position =>
    { account := position.account, delta := .saturate (exactDelta mark rate position) }

/-- What a tick does if nothing overflows on the way. -/
def FundingClock.exactTick (clock : FundingClock) (now : U64) (mark : MarkPrice)
    (index : IndexPrice) (positions : List Position) :
    FundingClock × Option FundingTick :=
  if now < clock.lastSettledAt.saturatingAdd clock.params.intervalSecs then (clock, none)
  else
    let rate := tickRate clock.params mark index
    ({ clock with lastSettledAt := now },
      some { settledAt := now, premium := .saturate (exactPremium mark index), rate := rate
             settlements := exactSettlements positions mark rate })

/-! ## Premium and rate -/

theorem computePremium_eq (mark : MarkPrice) (index : IndexPrice) :
    computePremium mark index = .saturate (exactPremium mark index) := by
  have hmark : (mark.val : ℤ) < 2 ^ 64 := by exact_mod_cast mark.isLt
  have hindex : (index.val : ℤ) < 2 ^ 64 := by exact_mod_cast index.isLt
  have hscaled : InI128 (((mark.val : ℤ) - index.val) * rateScale) := by
    rw [InI128, rateScale]
    omega
  rw [computePremium, exactPremium]
  split_ifs with hnone
  · rfl
  · simp only [saturateI128_of_inI128 hscaled]

/-- The cap is negated before it is used. -/
def CapNegates (params : FundingParams) : Prop :=
  params.divisor = 0 ∨ params.rateCap ≠ I64.minValue

instance (params : FundingParams) : Decidable (CapNegates params) :=
  inferInstanceAs (Decidable (_ ∨ _))

theorem computeRate_of_capNegates {params : FundingParams} (hcap : CapNegates params)
    (premium : I64) :
    computeRate premium params = .ok (.saturate (exactRate premium.val params)) := by
  rw [computeRate, exactRate]
  split_ifs with hdisabled
  · rfl
  · have hleast := hcap.resolve_left hdisabled
    have hlower := params.rateCap.lower
    have hupper := params.rateCap.upper
    have hne : params.rateCap.val ≠ -2 ^ 63 := fun hval => hleast (I64.ext hval)
    have habs : InI64 |params.rateCap.val| := by
      have hbound : |params.rateCap.val| < 2 ^ 63 := abs_lt.2 ⟨by omega, by omega⟩
      have hnonneg := abs_nonneg params.rateCap.val
      exact ⟨by omega, hbound⟩
    rw [I64.abs, if_neg hleast, ok_bind, I64.saturate_val_of_inI64 habs]
    rfl

theorem computeRate_of_not_capNegates {params : FundingParams}
    (hcap : ¬ CapNegates params) (premium : I64) :
    computeRate premium params = .error .overflow := by
  obtain ⟨henabled, hleast⟩ := not_or.1 hcap
  rw [computeRate, if_neg henabled, I64.abs, if_pos (not_not.1 hleast)]
  rfl

/-! ## Settlements -/

section Settle

variable {mark : MarkPrice} {rate : I64} {position : Position} {positions : List Position}

theorem settle_of_not_productNegates (hproduct : ¬ ProductNegates mark rate position) :
    settle mark rate position = .error .overflow := by
  rw [ProductNegates, not_lt] at hproduct
  have hleast : saturateI128 (position.size.val * mark.val * rate.val) = -2 ^ 127 := by
    rw [saturateI128]
    omega
  rw [settle, saturateI128_of_inI128 (inI128_notional mark position), hleast, negI128,
    if_pos rfl]
  rfl

theorem productNegates_of_flat (hflat : position.size = 0) :
    ProductNegates mark rate position := by
  rw [ProductNegates, hflat]
  norm_num

theorem productNegates_rate_zero (mark : MarkPrice) (position : Position) :
    ProductNegates mark 0 position := by
  rw [ProductNegates]
  norm_num

/-- The first product that cannot be negated ends the settlements. -/
theorem mapM_settle_of_not_productNegates
    (hproduct : ∃ position ∈ positions, ¬ ProductNegates mark rate position) :
    positions.mapM (settle mark rate) = .error .overflow := by
  induction positions with
  | nil => simp at hproduct
  | cons position positions ih =>
      rw [List.mapM_cons]
      by_cases hfirst : ProductNegates mark rate position
      · have hrest : ∃ other ∈ positions, ¬ ProductNegates mark rate other := by
          obtain ⟨other, hmem, hother⟩ := hproduct
          rcases List.mem_cons.1 hmem with rfl | hmem
          · exact absurd hfirst hother
          · exact ⟨other, hmem, hother⟩
        rw [settle_of_productNegates hfirst, ok_bind, ih hrest]
        rfl
      · rw [settle_of_not_productNegates hfirst]
        rfl

theorem applyFunding_of_productNegates
    (hproducts : ∀ position ∈ positions, ProductNegates mark rate position) :
    applyFunding positions mark rate = .ok (exactSettlements positions mark rate) := by
  rw [applyFunding, exactSettlements]
  split_ifs with hrate
  · rfl
  · apply mapM_settle_of_productNegates
    intro position hposition
    exact hproducts position (List.mem_of_mem_filter hposition)

theorem applyFunding_of_not_productNegates
    (hproduct : ∃ position ∈ positions, ¬ ProductNegates mark rate position) :
    applyFunding positions mark rate = .error .overflow := by
  obtain ⟨position, hposition, hoverflow⟩ := hproduct
  have hrate : rate ≠ 0 := by
    rintro rfl
    exact hoverflow (productNegates_rate_zero mark position)
  have hopen : position.size ≠ 0 := fun hflat =>
    hoverflow (productNegates_of_flat hflat)
  rw [applyFunding, if_neg hrate]
  exact mapM_settle_of_not_productNegates
    ⟨position, List.mem_filter.2 ⟨hposition, by simpa using hopen⟩, hoverflow⟩

end Settle

/-- With a positive rate longs pay and shorts receive. -/
theorem exactDelta_sign {mark : MarkPrice} {rate : I64} {position : Position}
    (hrate : 0 < rate.val) :
    (0 < position.size.val → (I64.saturate (exactDelta mark rate position)).val ≤ 0) ∧
      (position.size.val < 0 → 0 ≤ (I64.saturate (exactDelta mark rate position)).val) := by
  have hquotient : (0 : ℤ) ≤ (scaledPayment mark rate position / rateScale.toNat : ℕ) :=
    Int.natCast_nonneg _
  rw [exactDelta_eq, Int.sign_eq_one_of_pos hrate, I64.saturate_val]
  constructor
  · intro hlong
    rw [Int.sign_eq_one_of_pos hlong]
    omega
  · intro hshort
    rw [Int.sign_eq_neg_one_of_neg hshort]
    omega

/-! ## Ticks -/

/-- A tick negates no least word: it only waits, or neither the cap nor a product is
one. -/
def FundingClock.Negates (clock : FundingClock) (now : U64) (mark : MarkPrice)
    (index : IndexPrice) (positions : List Position) : Prop :=
  now < clock.lastSettledAt.saturatingAdd clock.params.intervalSecs ∨
    (CapNegates clock.params ∧ ∀ position ∈ positions,
      ProductNegates mark (tickRate clock.params mark index) position)

section Tick

variable {clock : FundingClock} {now : U64} {mark : MarkPrice} {index : IndexPrice}
  {positions : List Position}

theorem tick_of_negates (hnegates : clock.Negates now mark index positions) :
    clock.tick now mark index positions =
      .ok (clock.exactTick now mark index positions) := by
  rw [FundingClock.tick, FundingClock.exactTick]
  split_ifs with hearly
  · rfl
  · obtain ⟨hcap, hproducts⟩ := hnegates.resolve_left hearly
    dsimp only
    rw [computePremium_eq, computeRate_of_capNegates hcap, ok_bind, ← tickRate,
      applyFunding_of_productNegates hproducts]
    rfl

theorem tick_of_not_negates (hnegates : ¬ clock.Negates now mark index positions) :
    clock.tick now mark index positions = .error .overflow := by
  obtain ⟨hdue, hleast⟩ := not_or.1 hnegates
  rw [FundingClock.tick, if_neg hdue]
  dsimp only
  rw [computePremium_eq]
  by_cases hcap : CapNegates clock.params
  · have hproduct : ∃ position ∈ positions,
        ¬ ProductNegates mark (tickRate clock.params mark index) position := by
      by_contra hnone
      exact hleast ⟨hcap, by simpa using hnone⟩
    rw [computeRate_of_capNegates hcap, ok_bind, ← tickRate,
      applyFunding_of_not_productNegates hproduct]
    rfl
  · rw [computeRate_of_not_capNegates hcap]
    rfl

end Tick

/-- For all parameters, prices and positions, a tick gives the exact premium, rate and
settlements cut to 64 bits, longs paying at a positive rate, exactly if it negates no
least word; otherwise it overflows. -/
theorem tick_eq_exact_iff (clock : FundingClock) (now : U64) (mark : MarkPrice)
    (index : IndexPrice) (positions : List Position) :
    (clock.tick now mark index positions =
        .ok (clock.exactTick now mark index positions) ↔
      clock.Negates now mark index positions) ∧
      (¬ clock.Negates now mark index positions →
        clock.tick now mark index positions = .error .overflow) ∧
      ∀ (rate : I64) (position : Position), 0 < rate.val →
        (0 < position.size.val → (I64.saturate (exactDelta mark rate position)).val ≤ 0) ∧
          (position.size.val < 0 →
            0 ≤ (I64.saturate (exactDelta mark rate position)).val) := by
  refine ⟨⟨fun htick => ?_, tick_of_negates⟩, tick_of_not_negates,
    fun _ _ => exactDelta_sign⟩
  by_contra hleast
  rw [tick_of_not_negates hleast] at htick
  cases htick

/-- A clock that settles every hour, with a cap of its choice. -/
def hourlyClock (rateCap : I64) : FundingClock :=
  { params := { FundingParams.hyperliquidDefault with rateCap := rateCap }
    lastSettledAt := 0 }

/-- At the default rates a long of 100 at a mark ten percent over the index pays 1.25
percent of its 11000. -/
theorem tick_eq_exact_hourly :
    (hourlyClock 40000000).tick 3600 110 100 [⟨1, 100⟩] =
      .ok ({ hourlyClock 40000000 with lastSettledAt := 3600 },
        some { settledAt := 3600, premium := 100000000, rate := 12500000
               settlements := [⟨1, -137⟩] }) := by
  have hexact := (tick_eq_exact_iff (hourlyClock 40000000) 3600 110 100 [⟨1, 100⟩]).1
  rw [hexact.2 (.inr (by decide +kernel))]
  decide +kernel

/-- A short of `2^40` at a mark of `2^63` and the default cap, and any due tick with a
cap of `i64::MIN`, overflow. -/
theorem tick_overflows :
    (hourlyClock 40000000).tick 3600 9223372036854775808 4611686018427387904
        [⟨1, -1099511627776⟩] = .error .overflow ∧
      (hourlyClock I64.minValue).tick 3600 110 100 [] = .error .overflow := by
  constructor
  · decide +kernel
  · decide +kernel

end OpenHl.Funding
