import OpenHl.Liquidation.Margin

/-!
# Exact margin classification

`marginHealth` compares a ratio with rates.  `classify` compares the products
instead, without division, for any equity and notional.

`marginHealth_classifies`: the code classifies its own equity and notional, as
saturated, and these are the exact ones whenever the exact ones fit.  Only a
negative equity shows the division: below one basis point of the notional it
rounds to a ratio of zero, and without a notional there is no ratio.
-/

namespace OpenHl.Liquidation

open Machine OpenHl.Clob OpenHl.Funding

/-- `size × (mark - avg_entry)`, without bounds. -/
def exactPnl (snapshot : AccountSnapshot) (mark : MarkPrice) : ℤ :=
  snapshot.positionSize.val * ((mark.val : ℤ) - snapshot.avgEntry.val)

/-- `collateral + size × (mark - avg_entry)`, without bounds. -/
def exactEquity (snapshot : AccountSnapshot) (mark : MarkPrice) : ℤ :=
  snapshot.collateral.val + exactPnl snapshot mark

/-- `|size| × mark`, without bounds. -/
def exactNotional (snapshot : AccountSnapshot) (mark : MarkPrice) : ℤ :=
  |snapshot.positionSize.val| * mark.val

/-- The four bands of margin health, for an equity against a notional. -/
def classify (equity notional : ℤ) (params : LiquidationParams) : MarginHealth :=
  if equity < 0 then .underwater
  else if equity * marginScale < params.maintenanceMarginBps.val * notional then
    .liquidatable
  else if equity * marginScale < params.initialMarginBps.val * notional then .atRisk
  else .safe

/-! ## Saturated and exact amounts -/

theorem accountEquity_val_of_inI64 {snapshot : AccountSnapshot} {mark : MarkPrice}
    (hpnl : InI64 (exactPnl snapshot mark)) (hequity : InI64 (exactEquity snapshot mark)) :
    (accountEquity snapshot mark).val = exactEquity snapshot mark := by
  have hpnlVal : (unrealizedPnl snapshot mark).val = exactPnl snapshot mark := by
    rw [unrealizedPnl, saturate_saturateI128, mul_comm]
    exact I64.saturate_val_of_inI64 hpnl
  rw [exactEquity, ← hpnlVal] at hequity ⊢
  exact I64.saturatingAdd_val_of_inI64 hequity

theorem notionalValue_val_of_lt {snapshot : AccountSnapshot} {mark : MarkPrice}
    (hnotional : exactNotional snapshot mark < 2 ^ 64) :
    ((notionalValue snapshot mark).val : ℤ) = exactNotional snapshot mark := by
  rw [exactNotional, ← Int.natCast_natAbs] at hnotional ⊢
  exact U64.saturate_val_of_range (by positivity) hnotional

/-! ## The ratio against a rate -/

/-- The scaled equity is within 128 bits, so only the division loses anything. -/
theorem saturateI128_scaled (equity : I64) :
    saturateI128 (equity.val * marginScale) = equity.val * marginScale := by
  apply saturateI128_of_inI128
  have hlower := equity.lower
  have hupper := equity.upper
  constructor
  · rw [marginScale]
    omega
  · rw [marginScale]
    omega

theorem marginRatio_val {snapshot : AccountSnapshot} {mark : MarkPrice}
    (hnotional : notionalValue snapshot mark ≠ 0) :
    (marginRatio snapshot mark).val = max (-2 ^ 63) (min (2 ^ 63 - 1)
      (((accountEquity snapshot mark).val * marginScale).tdiv
        (notionalValue snapshot mark).val)) := by
  rw [marginRatio, if_neg hnotional, I64.saturate_val, saturateI128_scaled]

/-- The ratio of a nonnegative equity is below a rate exactly when the scaled
equity is below that part of the notional. -/
theorem marginRatio_lt_iff {snapshot : AccountSnapshot} {mark : MarkPrice}
    (hequity : 0 ≤ (accountEquity snapshot mark).val) (rate : U32) :
    (marginRatio snapshot mark).val < rate.val ↔
      (accountEquity snapshot mark).val * marginScale <
        rate.val * (notionalValue snapshot mark).val := by
  have hrate : (rate.val : ℤ) < 2 ^ 32 := by exact_mod_cast rate.isLt
  have hscaled : 0 ≤ (accountEquity snapshot mark).val * marginScale :=
    mul_nonneg hequity (by decide)
  by_cases hnotional : notionalValue snapshot mark = 0
  · rw [marginRatio, if_pos hnotional, hnotional, I64.maxValue_val]
    simp only [Fin.val_zero, Nat.cast_zero, mul_zero]
    omega
  · have hpositive : (0 : ℤ) < (notionalValue snapshot mark).val := by
      exact_mod_cast Nat.pos_of_ne_zero fun hzero => hnotional (Fin.ext hzero)
    have hdivision := Int.ediv_lt_iff_lt_mul (a := (accountEquity snapshot mark).val *
      marginScale) (b := rate.val) hpositive
    have hquotient := Int.ediv_nonneg hscaled hpositive.le
    rw [marginRatio_val hnotional, Int.tdiv_eq_ediv_of_nonneg hscaled, ← hdivision]
    omega

theorem marginRatio_nonneg {snapshot : AccountSnapshot} {mark : MarkPrice}
    (hequity : 0 ≤ (accountEquity snapshot mark).val) :
    0 ≤ (marginRatio snapshot mark).val := by
  have hzero := marginRatio_lt_iff hequity 0
  rw [← not_lt]
  intro hnegative
  have hscaled : (0 : ℤ) ≤ (accountEquity snapshot mark).val * marginScale :=
    mul_nonneg hequity (by decide)
  simp only [Fin.val_zero, Nat.cast_zero, zero_mul] at hzero
  exact absurd (hzero.1 hnegative) (not_lt.2 hscaled)

/-- With equity left an account is never underwater, and liquidatable below the
maintenance margin. -/
theorem marginHealth_of_nonneg {snapshot : AccountSnapshot} {mark : MarkPrice}
    (hequity : 0 ≤ (accountEquity snapshot mark).val) (params : LiquidationParams) :
    marginHealth snapshot mark params ≠ .underwater ∧
      (marginHealth snapshot mark params = .liquidatable ↔
        (accountEquity snapshot mark).val * marginScale <
          params.maintenanceMarginBps.val * (notionalValue snapshot mark).val) := by
  rw [marginHealth, if_neg (not_lt.2 (marginRatio_nonneg hequity)),
    ← marginRatio_lt_iff hequity]
  split_ifs with hmaintenance hinitial <;> simp [hmaintenance]

/-- A ratio is negative when the missing equity is worth a basis point of the
notional; a smaller deficit rounds to zero. -/
theorem marginRatio_neg_iff (snapshot : AccountSnapshot) (mark : MarkPrice) :
    (marginRatio snapshot mark).val < 0 ↔
      0 < (notionalValue snapshot mark).val ∧
        ((notionalValue snapshot mark).val : ℤ) ≤
          -((accountEquity snapshot mark).val * marginScale) := by
  by_cases hnotional : notionalValue snapshot mark = 0
  · rw [marginRatio, if_pos hnotional, hnotional, I64.maxValue_val]
    simp
  · have hpositive : 0 < (notionalValue snapshot mark).val :=
      Nat.pos_of_ne_zero fun hzero => hnotional (Fin.ext hzero)
    rcases le_or_gt 0 (accountEquity snapshot mark).val with hequity | hequity
    · have hscaled : 0 ≤ (accountEquity snapshot mark).val * marginScale :=
        mul_nonneg hequity (by decide)
      have hratio := marginRatio_nonneg hequity
      omega
    · have hdeficit : 0 ≤ -((accountEquity snapshot mark).val * marginScale) := by
        rw [marginScale]
        omega
      have hdivision := Int.le_ediv_iff_mul_le (a := 1)
        (b := -((accountEquity snapshot mark).val * marginScale))
        (c := (notionalValue snapshot mark).val) (by exact_mod_cast hpositive)
      have hquotient := Int.tdiv_eq_ediv_of_nonneg
        (b := ((notionalValue snapshot mark).val : ℤ)) hdeficit
      rw [Int.neg_tdiv] at hquotient
      rw [marginRatio_val hnotional]
      omega

/-- The code classifies its own equity and notional exactly when a negative
equity is not rounded away. -/
theorem marginHealth_eq_classify_iff (snapshot : AccountSnapshot) (mark : MarkPrice)
    (params : LiquidationParams) :
    marginHealth snapshot mark params =
        classify (accountEquity snapshot mark).val (notionalValue snapshot mark).val
          params ↔
      ((accountEquity snapshot mark).val < 0 →
        0 < (notionalValue snapshot mark).val ∧
          ((notionalValue snapshot mark).val : ℤ) ≤
            -((accountEquity snapshot mark).val * marginScale)) := by
  rw [← marginRatio_neg_iff, marginHealth, classify]
  rcases lt_or_ge (accountEquity snapshot mark).val 0 with hequity | hequity
  · rw [if_pos hequity]
    simp only [hequity, forall_const]
    constructor
    · intro hhealth
      by_contra hratio
      rw [if_neg hratio] at hhealth
      split_ifs at hhealth
    · intro hratio
      exact if_pos hratio
  · have hratio := marginRatio_nonneg hequity
    rw [if_neg (not_lt.2 hequity), if_neg (not_lt.2 hratio)]
    simp only [marginRatio_lt_iff hequity, not_lt.2 hequity, false_imp_iff]

/-- The code classifies its saturated equity and notional by exact comparisons,
unless a negative equity is rounded away; and neither is changed by saturation
when the exact amounts fit their types. -/
theorem marginHealth_classifies (snapshot : AccountSnapshot) (mark : MarkPrice)
    (params : LiquidationParams)
    (hdeficit : (accountEquity snapshot mark).val < 0 →
      0 < (notionalValue snapshot mark).val ∧
        ((notionalValue snapshot mark).val : ℤ) ≤
          -((accountEquity snapshot mark).val * marginScale)) :
    marginHealth snapshot mark params =
        classify (accountEquity snapshot mark).val (notionalValue snapshot mark).val
          params ∧
      (InI64 (exactPnl snapshot mark) → InI64 (exactEquity snapshot mark) →
        (accountEquity snapshot mark).val = exactEquity snapshot mark) ∧
      (exactNotional snapshot mark < 2 ^ 64 →
        ((notionalValue snapshot mark).val : ℤ) = exactNotional snapshot mark) := by
  refine ⟨(marginHealth_eq_classify_iff snapshot mark params).2 hdeficit, ?_, ?_⟩
  · intro hpnl hequity
    exact accountEquity_val_of_inI64 hpnl hequity
  · intro hnotional
    exact notionalValue_val_of_lt hnotional

/-- One unit bought at 100 against a collateral of 1. -/
def thinLong : AccountSnapshot :=
  { account := 1, positionSize := 1, avgEntry := 100, collateral := 1 }

/-- At 101 its equity of 2 is 198 basis points of the notional, below the
maintenance margin; at 90 the deficit of 9 is 1000 basis points. -/
theorem marginHealth_classifies_thinLong :
    marginHealth thinLong 101 .hyperliquidDefault = .liquidatable ∧
      marginHealth thinLong 90 .hyperliquidDefault = .underwater := by
  constructor
  · rw [(marginHealth_classifies thinLong 101 .hyperliquidDefault (by decide)).1]
    decide
  · rw [(marginHealth_classifies thinLong 90 .hyperliquidDefault (by decide)).1]
    decide

/-- A position whose notional of `2^70` exceeds an unsigned word. -/
def hugeLong : AccountSnapshot :=
  { account := 1, positionSize := 1099511627776, avgEntry := 1073741824
    collateral := I64.maxValue }

/-- Against the notional cut to `2^64 - 1` its equity is safe; against the exact
one it is below the maintenance margin. -/
theorem not_forall_marginHealth_eq_classify_exact :
    ¬ ∀ (snapshot : AccountSnapshot) (mark : MarkPrice) (params : LiquidationParams),
      snapshot.positionSize ≠ 0 →
        params.maintenanceMarginBps ≤ params.initialMarginBps →
          marginHealth snapshot mark params =
            classify (exactEquity snapshot mark) (exactNotional snapshot mark)
              params := by
  intro hexact
  have hhealth := hexact hugeLong 1073741824 .hyperliquidDefault (by decide) (by decide)
  revert hhealth
  decide

end OpenHl.Liquidation
