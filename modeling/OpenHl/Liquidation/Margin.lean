import OpenHl.Funding.Clock

/-!
# Margin

`crates/liquidation`: the margin model of one account at a mark price, and the
decomposition of a forced close into fee, residual and shortfall.  Everything
here is a function of a snapshot, the mark and the parameters.
-/

namespace OpenHl.Liquidation

open Machine OpenHl.Clob OpenHl.Funding

/-- Margin ratios and rates are in basis points. -/
def marginScale : ℤ := 10000

inductive MarginHealth where
  | safe
  | atRisk
  | liquidatable
  | underwater
  deriving DecidableEq, Repr

@[ext]
structure AccountSnapshot where
  account : AccountId
  positionSize : I64
  avgEntry : MarkPrice
  collateral : I64
  deriving DecidableEq

structure LiquidationParams where
  initialMarginBps : U32
  maintenanceMarginBps : U32
  liquidationFeeBps : U32
  deriving DecidableEq

def LiquidationParams.hyperliquidDefault : LiquidationParams :=
  { initialMarginBps := 1000, maintenanceMarginBps := 200, liquidationFeeBps := 150 }

structure CloseOrderSpec where
  account : AccountId
  side : Side
  qty : Qty
  deriving DecidableEq

/-- The account pays the whole fee and keeps the residual. -/
structure SolventClose where
  feeToFund : I64
  residualToAccount : I64
  deriving DecidableEq

/-- The account cannot pay the fee; the fund is asked for the shortfall. -/
structure UnderwaterClose where
  feeToFund : I64
  shortfallToFund : I64
  deriving DecidableEq

def notionalValue (snapshot : AccountSnapshot) (mark : MarkPrice) : U64 :=
  snapshot.positionSize.unsignedAbs.saturatingMul mark

def unrealizedPnl (snapshot : AccountSnapshot) (mark : MarkPrice) : I64 :=
  let diff : ℤ := mark.val - snapshot.avgEntry.val
  .saturate (saturateI128 (diff * snapshot.positionSize.val))

def accountEquity (snapshot : AccountSnapshot) (mark : MarkPrice) : I64 :=
  snapshot.collateral.saturatingAdd (unrealizedPnl snapshot mark)

/-- Equity over notional; the largest ratio when there is no exposure. -/
def marginRatio (snapshot : AccountSnapshot) (mark : MarkPrice) : I64 :=
  let notional := notionalValue snapshot mark
  if notional = 0 then I64.maxValue
  else
    let equity := accountEquity snapshot mark
    .saturate ((saturateI128 (equity.val * marginScale)).tdiv notional.val)

def marginHealth (snapshot : AccountSnapshot) (mark : MarkPrice)
    (params : LiquidationParams) : MarginHealth :=
  let ratio := (marginRatio snapshot mark).val
  if ratio < 0 then .underwater
  else if ratio < params.maintenanceMarginBps.val then .liquidatable
  else if ratio < params.initialMarginBps.val then .atRisk
  else .safe

/-- The market order that closes a position. -/
def closeOrderSpec (snapshot : AccountSnapshot) : CloseOrderSpec :=
  { account := snapshot.account
    side := if 0 < snapshot.positionSize.val then .sell else .buy
    qty := snapshot.positionSize.unsignedAbs }

def liquidationFee (closedNotional : U64) (params : LiquidationParams) : I64 :=
  if closedNotional = 0 then 0
  else .saturate ((saturateI128
    (closedNotional.val * params.liquidationFeeBps.val)).tdiv marginScale)

/-- The fee a close at `mark` asks for. -/
def desiredFee (params : LiquidationParams) (mark : MarkPrice)
    (snapshot : AccountSnapshot) : I64 :=
  liquidationFee (notionalValue snapshot mark) params

def solventCloseOutcome (snapshot : AccountSnapshot) (closePrice : MarkPrice)
    (params : LiquidationParams) : SolventClose :=
  let fee := desiredFee params closePrice snapshot
  { feeToFund := fee
    residualToAccount := (accountEquity snapshot closePrice).saturatingSub fee }

def underwaterCloseOutcome (snapshot : AccountSnapshot) (closePrice : MarkPrice)
    (params : LiquidationParams) : UnderwaterClose :=
  let fee := desiredFee params closePrice snapshot
  let postCloseEquity := accountEquity snapshot closePrice
  { feeToFund := if 0 < postCloseEquity.val then postCloseEquity else 0
    shortfallToFund := fee.saturatingSub postCloseEquity }

theorem liquidationFee_nonneg (closedNotional : U64) (params : LiquidationParams) :
    0 ≤ (liquidationFee closedNotional params).val := by
  rw [liquidationFee]
  split_ifs
  · exact le_refl 0
  · have hproduct : (0 : ℤ) ≤ saturateI128
        (closedNotional.val * params.liquidationFeeBps.val) := by
      have hnonneg : (0 : ℤ) ≤ closedNotional.val * params.liquidationFeeBps.val := by
        positivity
      rw [saturateI128]
      omega
    have hquotient := Int.tdiv_nonneg hproduct (by decide : (0 : ℤ) ≤ marginScale)
    rw [I64.saturate_val]
    omega

theorem desiredFee_nonneg (params : LiquidationParams) (mark : MarkPrice)
    (snapshot : AccountSnapshot) : 0 ≤ (desiredFee params mark snapshot).val :=
  liquidationFee_nonneg _ _

end OpenHl.Liquidation
