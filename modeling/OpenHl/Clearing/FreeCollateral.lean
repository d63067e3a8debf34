import OpenHl.Clearing.ApplyFill
import OpenHl.Funding.Clock

/-!
# Free collateral

The part of `crates/clearing` that says how much an account may take out: equity
at a mark less the initial margin at that mark.  Without a mark the initial
margin is taken at the entry price and the unrealized profit counts as zero.

What may be taken out never exceeds the collateral and the unrealized profit
together (`le_of_le_freeCollateral`), so an accepted withdrawal does not leave the
range of its type.
-/

namespace OpenHl.Clearing

open Machine OpenHl.Clob OpenHl.Funding

/-- Margin rates are in basis points. -/
def marginScale : ℤ := 10000

def initialMarginRequirementAt (account : Account) (mark : MarkPrice) (imBps : U32) :
    I64 :=
  let absSize : ℤ := account.positionSize.unsignedAbs.val
  let scaled := saturateI128 (saturateI128 (absSize * mark.val) * imBps.val)
  .saturate (scaled.tdiv marginScale)

def initialMarginRequirement (account : Account) (imBps : U32) : I64 :=
  initialMarginRequirementAt account account.avgEntry imBps

def unrealizedPnl (account : Account) (mark : MarkPrice) : I64 :=
  let diff : ℤ := mark.val - account.avgEntry.val
  .saturate (saturateI128 (diff * account.positionSize.val))

def freeCollateral (account : Account) (mark : MarkPrice) (imBps : U32) : I64 :=
  let equity := saturateI128 (account.collateral.val + (unrealizedPnl account mark).val)
  .saturate (equity - (initialMarginRequirementAt account mark imBps).val)

theorem initialMarginRequirementAt_nonneg (account : Account) (mark : MarkPrice)
    (imBps : U32) : 0 ≤ (initialMarginRequirementAt account mark imBps).val := by
  have hnotional : (0 : ℤ) ≤ account.positionSize.unsignedAbs.val * mark.val := by
    positivity
  have hinner : 0 ≤ saturateI128 (account.positionSize.unsignedAbs.val * mark.val) := by
    rw [saturateI128]
    omega
  have hscaled : 0 ≤ saturateI128 (saturateI128
      (account.positionSize.unsignedAbs.val * mark.val) * imBps.val) := by
    have hproduct : 0 ≤ saturateI128
        (account.positionSize.unsignedAbs.val * mark.val) * imBps.val := by
      positivity
    rw [saturateI128]
    omega
  have hquotient := Int.tdiv_nonneg hscaled (by decide : (0 : ℤ) ≤ marginScale)
  rw [initialMarginRequirementAt, I64.saturate_val]
  omega

/-! ## Without bounds -/

/-- `(mark - avg_entry) × size`, without bounds. -/
def exactProfit (account : Account) (mark : MarkPrice) : ℤ :=
  ((mark.val : ℤ) - account.avgEntry.val) * account.positionSize.val

/-- `|size| × mark × im_bps / 10⁴`, rounded down, without bounds. -/
def exactRequirement (account : Account) (mark : MarkPrice) (imBps : U32) : ℤ :=
  |account.positionSize.val| * mark.val * imBps.val / marginScale

theorem exactRequirement_nonneg (account : Account) (mark : MarkPrice) (imBps : U32) :
    0 ≤ exactRequirement account mark imBps :=
  Int.ediv_nonneg (by positivity) (by decide)

theorem unrealizedPnl_val (account : Account) (mark : MarkPrice) :
    (unrealizedPnl account mark).val =
      max (-2 ^ 63) (min (2 ^ 63 - 1) (exactProfit account mark)) := by
  rw [unrealizedPnl, saturate_saturateI128, I64.saturate_val]
  rfl

/-- The 128-bit words of the source cut the requirement only where the 64-bit word of
the result does. -/
theorem initialMarginRequirementAt_val (account : Account) (mark : MarkPrice)
    (imBps : U32) :
    (initialMarginRequirementAt account mark imBps).val =
      min (2 ^ 63 - 1) (exactRequirement account mark imBps) := by
  have hnonneg := exactRequirement_nonneg account mark imBps
  have hsize : (account.positionSize.unsignedAbs.val : ℤ) = |account.positionSize.val| := by
    rw [I64.unsignedAbs_val, Int.natCast_natAbs]
  have hnotional : InI128 (|account.positionSize.val| * mark.val) := by
    have hlower := account.positionSize.lower
    have hupper := account.positionSize.upper
    have habs : |account.positionSize.val| ≤ 2 ^ 63 := abs_le.2 ⟨by omega, by omega⟩
    have hproduct : (0 : ℤ) ≤ |account.positionSize.val| * mark.val := by positivity
    have hmark := mul_price_le (abs_nonneg account.positionSize.val) mark
    constructor <;> omega
  have hproduct : 0 ≤ |account.positionSize.val| * mark.val * (imBps.val : ℤ) := by
    positivity
  rw [initialMarginRequirementAt]
  simp only [hsize]
  rw [saturateI128_of_inI128 hnotional, I64.saturate_val]
  rw [exactRequirement] at hnonneg ⊢
  rw [saturateI128, Int.tdiv_eq_ediv_of_nonneg (by omega)]
  rw [marginScale] at hnonneg ⊢
  omega

/-- An amount within the free collateral is within collateral and profit. -/
theorem le_of_le_freeCollateral {account : Account} {mark : MarkPrice} {imBps : U32}
    {amount : ℤ} (hnonneg : 0 ≤ amount)
    (hfree : amount ≤ (freeCollateral account mark imBps).val) :
    amount ≤ account.collateral.val + (unrealizedPnl account mark).val := by
  have hmargin := initialMarginRequirementAt_nonneg account mark imBps
  have hupper := (unrealizedPnl account mark).upper
  have hlower := (unrealizedPnl account mark).lower
  have hcollateral := account.collateral.inI64
  rw [freeCollateral, I64.saturate_val, saturateI128_of_inI128] at hfree
  · omega
  · rw [InI64] at hcollateral
    rw [InI128]
    omega

end OpenHl.Clearing
