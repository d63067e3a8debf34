import OpenHl.Clob.Book

/-!
# Position bookkeeping under fills

`crates/clearing`: what one fill does to one account.  A fill against the
position closes contracts and realizes their profit; what is left of it opens
contracts, at a volume-weighted average price that is rounded down.

Intermediates are 128-bit words in the source.  Here they are integers, with
`saturateI128` where the source saturates.

`applyFill_value`: at every mark price, a fill changes the value of an account
by the value of the traded contracts at the mark, up to the remainder of the
one division.  `applyFill_exact` is the whole of it for the account it returns.
-/

namespace OpenHl.Clearing

open Machine OpenHl.Clob

structure Account where
  account : AccountId
  /-- Net signed contracts. -/
  positionSize : I64
  /-- Average entry price of the open position; kept when it is closed. -/
  avgEntry : U64
  collateral : I64
  deriving DecidableEq

def Account.flat (account : AccountId) : Account :=
  { account := account, positionSize := 0, avgEntry := 0, collateral := 0 }

/-! ## `apply_fill` -/

def sideSign : Side → ℤ
  | .buy => 1
  | .sell => -1

def signedDelta (qty : ℤ) (side : Side) : ℤ := saturateI128 (qty * sideSign side)

def oppositeSign (oldSize : ℤ) (side : Side) : Bool :=
  oldSize.sign ≠ 0 && oldSize.sign ≠ sideSign side

/-- Contracts of the old position that the fill closes. -/
def closedQty (oldSize qty : ℤ) (side : Side) : ℤ :=
  if oppositeSign oldSize side then min |oldSize| |qty| else 0

def realizedPnl (oldSize oldAvg price closed : ℤ) : I64 :=
  if 0 < closed then
    let basisDelta := price - oldAvg
    .saturate (saturateI128 (saturateI128 (oldSize.sign * closed) * basisDelta))
  else 0

/-- The volume-weighted mean of an increase. -/
def weightedMean (oldSize oldAvg opened price : ℤ) : ℤ :=
  let newNotional := saturateI128
    (saturateI128 (|oldSize| * oldAvg) + saturateI128 (opened * price))
  let totalAbs := saturateI128 (|oldSize| + opened)
  if totalAbs = 0 then oldAvg else newNotional.tdiv totalAbs

def newAvgEntry (oldSize oldAvg newSize opened price : ℤ) (opposite : Bool) : ℤ :=
  if newSize = 0 then oldAvg
  else if oldSize = 0 then price
  else if oldSize.sign = newSize.sign then
    if opposite then oldAvg
    else weightedMean oldSize oldAvg opened price
  else price

/-- Apply one fill to one account and return the realized profit. -/
def applyFill (account : Account) (fillPrice : Price) (fillQty : Qty)
    (side : Side) : Account × I64 :=
  let qty : ℤ := fillQty.val
  let price : ℤ := fillPrice.val
  let oldSize := account.positionSize.val
  let oldAvg : ℤ := account.avgEntry.val
  let closed := closedQty oldSize qty side
  let opened := qty - closed
  let newSize := saturateI128 (oldSize + signedDelta qty side)
  let newAvg := newAvgEntry oldSize oldAvg newSize opened price
    (oppositeSign oldSize side)
  ({ account with
      positionSize := .saturate newSize
      avgEntry := U64.saturate newAvg },
    realizedPnl oldSize oldAvg price closed)

/-! ## The exact fill -/

section Exact

variable (account : Account) (price : Price) (qty : Qty) (side : Side)

/-- The position after a fill, in unbounded integers. -/
def exactSize : ℤ := account.positionSize.val + qty.val * sideSign side

/-- The realized profit of a fill, in unbounded integers. -/
def exactRealized : ℤ :=
  account.positionSize.val.sign *
    closedQty account.positionSize.val qty.val side *
      ((price.val : ℤ) - account.avgEntry.val)

/-- The fill increases a position that is open already. -/
def Increases : Prop :=
  account.positionSize.val ≠ 0 ∧ oppositeSign account.positionSize.val side = false

instance : Decidable (Increases account side) :=
  inferInstanceAs (Decidable (_ ∧ _))

/-- Remainder of the division in the weighted mean, with the sign of the
position; it is what an increase adds to the value of the account. -/
def fillResidue : ℤ :=
  if Increases account side then
    account.positionSize.val.sign *
      ((|account.positionSize.val| * account.avgEntry.val + qty.val * price.val) %
        (|account.positionSize.val| + qty.val))
  else 0

/-- Value of an account's position and collateral at a mark price. -/
def Account.equityAt (mark : ℤ) : ℤ :=
  account.collateral.val + account.positionSize.val * (mark - account.avgEntry.val)

end Exact

/-- A fill closes contracts when the position is on the other side. -/
theorem oppositeSign_iff (oldSize : ℤ) (side : Side) :
    oppositeSign oldSize side = true ↔
      oldSize ≠ 0 ∧ oldSize = -sideSign side * |oldSize| := by
  rcases lt_trichotomy oldSize 0 with hneg | rfl | hpos
  · cases side with
    | buy =>
        simp [oppositeSign, sideSign, Int.sign_eq_neg_one_of_neg hneg, hneg.ne,
          abs_of_neg hneg]
    | sell =>
        simp [oppositeSign, sideSign, Int.sign_eq_neg_one_of_neg hneg,
          abs_of_neg hneg]
        omega
  · simp [oppositeSign]
  · cases side with
    | buy =>
        simp [oppositeSign, sideSign, Int.sign_eq_one_of_pos hpos, abs_of_pos hpos]
        omega
    | sell =>
        simp [oppositeSign, sideSign, Int.sign_eq_one_of_pos hpos, hpos.ne',
          abs_of_pos hpos]

theorem increases_iff (account : Account) (side : Side) :
    Increases account side ↔ account.positionSize.val ≠ 0 ∧
      account.positionSize.val =
        sideSign side * |account.positionSize.val| := by
  rw [Increases, ← Bool.not_eq_true, oppositeSign_iff]
  refine and_congr_right fun hne => ?_
  generalize account.positionSize.val = size at hne ⊢
  rcases lt_or_gt_of_ne hne with hneg | hpos
  · cases side <;> simp [sideSign, abs_of_neg hneg] <;> omega
  · cases side <;> simp [sideSign, abs_of_pos hpos] <;> omega

theorem sideSign_cases (side : Side) : sideSign side = 1 ∨ sideSign side = -1 := by
  cases side <;> simp [sideSign]

section Spec

variable {account : Account} {price : Price} {qty : Qty} {side : Side}

theorem saturateI128_newSize (account : Account) (qty : Qty) (side : Side) :
    saturateI128 (account.positionSize.val + signedDelta qty.val side) =
      exactSize account qty side := by
  have hlower := account.positionSize.lower
  have hupper := account.positionSize.upper
  have hqty := qty.isLt
  have hdelta : signedDelta qty.val side = qty.val * sideSign side := by
    apply saturateI128_of_inI128
    rw [InI128]
    rcases sideSign_cases side with hsign | hsign <;> rw [hsign] <;> omega
  rw [hdelta]
  apply saturateI128_of_inI128
  rw [InI128]
  rcases sideSign_cases side with hsign | hsign <;> rw [hsign] <;> omega

theorem applyFill_positionSize (hsize : InI64 (exactSize account qty side)) :
    (applyFill account price qty side).1.positionSize.val =
      exactSize account qty side := by
  change (I64.saturate (saturateI128 _)).val = _
  rw [saturateI128_newSize]
  exact I64.saturate_val_of_inI64 hsize

theorem closedQty_bounds (oldSize qty : ℤ) (side : Side) :
    0 ≤ closedQty oldSize qty side ∧ closedQty oldSize qty side ≤ |oldSize| ∧
      closedQty oldSize qty side ≤ |qty| := by
  rw [closedQty]
  split_ifs
  · exact ⟨le_min (abs_nonneg _) (abs_nonneg _), min_le_left _ _, min_le_right _ _⟩
  · exact ⟨le_refl 0, abs_nonneg _, abs_nonneg _⟩

theorem applyFill_realized (hrealized : InI64 (exactRealized account price qty side)) :
    (applyFill account price qty side).2.val =
      exactRealized account price qty side := by
  change (realizedPnl _ _ _ _).val = _
  obtain ⟨hnonneg, hclosed, -⟩ :=
    closedQty_bounds account.positionSize.val qty.val side
  rw [exactRealized] at hrealized ⊢
  rw [realizedPnl]
  split_ifs with hpos
  · have hlower := account.positionSize.lower
    have hupper := account.positionSize.upper
    have hsmall : InI128 (account.positionSize.val.sign *
        closedQty account.positionSize.val qty.val side) := by
      rw [InI128]
      have habs : |account.positionSize.val| ≤ 2 ^ 63 := abs_le.2 ⟨by omega, by omega⟩
      rcases Int.sign_trichotomy account.positionSize.val with hsign | hsign | hsign <;>
        rw [hsign] <;> omega
    rw [saturateI128_of_inI128 hsmall, saturate_saturateI128]
    exact I64.saturate_val_of_inI64 hrealized
  · have hzero : closedQty account.positionSize.val qty.val side = 0 := by omega
    simp [hzero]

theorem mul_price_le {amount : ℤ} (hamount : 0 ≤ amount) (price : U64) :
    amount * price.val ≤ amount * (2 ^ 64 - 1) := by
  have hprice := price.isLt
  exact mul_le_mul_of_nonneg_left (by omega) hamount

/-- Within the range of a position the mean of an increase never saturates. -/
theorem weightedMean_eq {oldSize opened : ℤ} {oldAvg price : U64}
    (hne : oldSize ≠ 0) (hopened : 0 ≤ opened)
    (htotal : |oldSize| + opened ≤ 2 ^ 63) :
    weightedMean oldSize oldAvg.val opened price.val =
      (|oldSize| * oldAvg.val + opened * price.val) / (|oldSize| + opened) := by
  have habs : 0 < |oldSize| := abs_pos.2 hne
  have holdNotional := mul_price_le habs.le oldAvg
  have hnewNotional := mul_price_le hopened price
  have hold : 0 ≤ |oldSize| * (oldAvg.val : ℤ) := by positivity
  have hnew : 0 ≤ opened * (price.val : ℤ) := by positivity
  have hkeptNotional : InI128 (|oldSize| * oldAvg.val) := ⟨by omega, by omega⟩
  have hopenedNotional : InI128 (opened * price.val) := ⟨by omega, by omega⟩
  have hnotional : InI128 (|oldSize| * oldAvg.val + opened * price.val) :=
    ⟨by omega, by omega⟩
  have hqty : InI128 (|oldSize| + opened) := ⟨by omega, by omega⟩
  have hnonzero : ¬ |oldSize| + opened = 0 := by omega
  simp only [weightedMean]
  rw [saturateI128_of_inI128 hkeptNotional, saturateI128_of_inI128 hopenedNotional,
    saturateI128_of_inI128 hnotional, saturateI128_of_inI128 hqty, if_neg hnonzero,
    Int.tdiv_eq_ediv_of_nonneg (by omega)]

theorem weightedMean_range {oldSize opened : ℤ} (oldAvg price : U64)
    (hne : oldSize ≠ 0) (hopened : 0 ≤ opened) :
    0 ≤ (|oldSize| * oldAvg.val + opened * price.val) / (|oldSize| + opened) ∧
      (|oldSize| * oldAvg.val + opened * price.val) / (|oldSize| + opened) <
        2 ^ 64 := by
  have habs : 0 < |oldSize| := abs_pos.2 hne
  refine ⟨Int.ediv_nonneg (by positivity) (by omega), ?_⟩
  apply Int.ediv_lt_of_lt_mul (by omega)
  have holdNotional := mul_price_le habs.le oldAvg
  have hnewNotional := mul_price_le hopened price
  omega

theorem sign_sideSign_mul (side : Side) {amount : ℤ} (hpos : 0 < amount) :
    (sideSign side * amount).sign = sideSign side := by
  rw [Int.sign_mul, Int.sign_eq_one_of_pos hpos, mul_one]
  cases side <;> rfl

theorem exactSize_of_increases (hincreases : Increases account side) :
    exactSize account qty side =
      sideSign side * (|account.positionSize.val| + qty.val) := by
  have hsigned := ((increases_iff account side).1 hincreases).2
  rw [exactSize]
  linear_combination hsigned

theorem exactSize_of_opposite
    (hopposite : oppositeSign account.positionSize.val side = true) :
    exactSize account qty side =
      sideSign side * (qty.val - |account.positionSize.val|) := by
  have hsigned := ((oppositeSign_iff _ side).1 hopposite).2
  rw [exactSize]
  linear_combination hsigned

/-- The average entry price before the cast to an unsigned word. -/
theorem applyFill_avgEntry (account : Account) (price : Price) (qty : Qty)
    (side : Side) :
    (applyFill account price qty side).1.avgEntry =
      U64.saturate (newAvgEntry account.positionSize.val account.avgEntry.val
        (exactSize account qty side)
        (qty.val - closedQty account.positionSize.val qty.val side)
        price.val (oppositeSign account.positionSize.val side)) := by
  rw [← saturateI128_newSize]
  rfl

theorem applyFill_avgEntry_of_flat (hold : account.positionSize.val = 0)
    (hnew : exactSize account qty side ≠ 0) :
    (applyFill account price qty side).1.avgEntry = price := by
  rw [applyFill_avgEntry, newAvgEntry, if_neg hnew, if_pos hold, U64.saturate_val]

theorem applyFill_avgEntry_of_increases (hincreases : Increases account side)
    (hsize : InI64 (exactSize account qty side)) :
    ((applyFill account price qty side).1.avgEntry.val : ℤ) =
      (|account.positionSize.val| * account.avgEntry.val + qty.val * price.val) /
        (|account.positionSize.val| + qty.val) := by
  have hsigned := ((increases_iff account side).1 hincreases).2
  have hnew : exactSize account qty side = _ := exactSize_of_increases hincreases
  obtain ⟨hold, hopposite⟩ := hincreases
  have habs := abs_pos.2 hold
  have hpos : 0 < |account.positionSize.val| + (qty.val : ℤ) := by omega
  have hsign : account.positionSize.val.sign = (exactSize account qty side).sign := by
    rw [hnew, sign_sideSign_mul side hpos, hsigned, sign_sideSign_mul side habs]
  have hnonzero : exactSize account qty side ≠ 0 := by
    intro hzero
    rw [hzero, Int.sign_zero, Int.sign_eq_zero_iff_zero] at hsign
    exact hold hsign
  have htotal : |account.positionSize.val| + (qty.val : ℤ) ≤ 2 ^ 63 := by
    rw [hnew, InI64] at hsize
    rcases sideSign_cases side with hside | hside <;> rw [hside] at hsize <;> omega
  have hclosed : closedQty account.positionSize.val qty.val side = 0 := by
    simp [closedQty, hopposite]
  obtain ⟨hlower, hupper⟩ := weightedMean_range account.avgEntry price hold
    (Int.natCast_nonneg qty.val)
  rw [applyFill_avgEntry, newAvgEntry, if_neg hnonzero, if_neg hold, if_pos hsign,
    hopposite, if_neg Bool.false_ne_true, hclosed, sub_zero,
    weightedMean_eq hold (Int.natCast_nonneg _) htotal,
    U64.saturate_val_of_range hlower hupper]

theorem applyFill_avgEntry_of_closes
    (hopposite : oppositeSign account.positionSize.val side = true)
    (hcloses : (qty.val : ℤ) ≤ |account.positionSize.val|) :
    (applyFill account price qty side).1.avgEntry = account.avgEntry := by
  obtain ⟨hold, hsigned⟩ := (oppositeSign_iff _ side).1 hopposite
  have habs := abs_pos.2 hold
  rw [applyFill_avgEntry, newAvgEntry, hopposite, if_pos rfl]
  split_ifs with hnew hsign
  · rw [U64.saturate_val]
  · rw [U64.saturate_val]
  · refine absurd ?_ hsign
    have hpos : 0 < |account.positionSize.val| - (qty.val : ℤ) := by
      rw [exactSize_of_opposite hopposite, mul_eq_zero] at hnew
      omega
    have hnegated : exactSize account qty side =
        -(sideSign side * (|account.positionSize.val| - qty.val)) := by
      rw [exactSize_of_opposite hopposite]
      ring
    rw [hnegated, Int.sign_neg, sign_sideSign_mul side hpos, hsigned, neg_mul,
      Int.sign_neg, sign_sideSign_mul side habs]

theorem applyFill_avgEntry_of_flips
    (hopposite : oppositeSign account.positionSize.val side = true)
    (hflips : |account.positionSize.val| < qty.val) :
    (applyFill account price qty side).1.avgEntry = price := by
  obtain ⟨hold, hsigned⟩ := (oppositeSign_iff _ side).1 hopposite
  have habs := abs_pos.2 hold
  have hnewSign : (exactSize account qty side).sign = sideSign side := by
    rw [exactSize_of_opposite hopposite, sign_sideSign_mul side (by omega)]
  have holdSign : account.positionSize.val.sign = -sideSign side := by
    rw [hsigned, neg_mul, Int.sign_neg, sign_sideSign_mul side habs]
  have hnonzero : exactSize account qty side ≠ 0 := by
    intro hzero
    rw [hzero, Int.sign_zero] at hnewSign
    rcases sideSign_cases side with hside | hside <;> omega
  have hsign : account.positionSize.val.sign ≠ (exactSize account qty side).sign := by
    rw [hnewSign, holdSign]
    rcases sideSign_cases side with hside | hside <;> omega
  rw [applyFill_avgEntry, newAvgEntry, if_neg hnonzero, if_neg hold, if_neg hsign,
    U64.saturate_val]

/-- At every mark, a fill changes the value of the account by that of the
traded contracts, plus the remainder of the average price. -/
theorem applyFill_value (price : Price)
    (hsize : InI64 (exactSize account qty side)) (mark : ℤ) :
    exactRealized account price qty side +
        (applyFill account price qty side).1.positionSize.val *
          (mark - (applyFill account price qty side).1.avgEntry.val) =
      account.positionSize.val * (mark - account.avgEntry.val) +
        qty.val * sideSign side * (mark - price.val) +
          fillResidue account price qty side := by
  rw [applyFill_positionSize hsize]
  by_cases hold : account.positionSize.val = 0
  · have hresidue : fillResidue account price qty side = 0 := by
      simp [fillResidue, Increases, hold]
    have hrealized : exactRealized account price qty side = 0 := by
      simp [exactRealized, hold]
    by_cases hnew : exactSize account qty side = 0
    · have hqty : (qty.val : ℤ) * sideSign side = 0 := by
        rwa [exactSize, hold, zero_add] at hnew
      simp [hresidue, hrealized, hnew, hqty, hold]
    · rw [hresidue, hrealized, applyFill_avgEntry_of_flat hold hnew, exactSize, hold]
      ring
  · cases hopposite : oppositeSign account.positionSize.val side with
    | false =>
        have hincreases : Increases account side := ⟨hold, hopposite⟩
        have hsigned := ((increases_iff account side).1 hincreases).2
        have habs := abs_pos.2 hold
        have hsign : account.positionSize.val.sign = sideSign side := by
          rw [hsigned, sign_sideSign_mul side habs]
        have hdiv := Int.mul_ediv_add_emod
          (|account.positionSize.val| * account.avgEntry.val + qty.val * price.val)
          (|account.positionSize.val| + qty.val)
        rw [← applyFill_avgEntry_of_increases hincreases hsize] at hdiv
        have hrealized : exactRealized account price qty side = 0 := by
          simp [exactRealized, closedQty, hopposite]
        rw [hrealized, exactSize_of_increases hincreases, fillResidue,
          if_pos hincreases, hsign]
        linear_combination (-sideSign side) * hdiv +
          ((account.avgEntry.val : ℤ) - mark) * hsigned
    | true =>
        obtain ⟨-, hsigned⟩ := (oppositeSign_iff _ side).1 hopposite
        have habs := abs_pos.2 hold
        have hsign : account.positionSize.val.sign = -sideSign side := by
          rw [hsigned, neg_mul, Int.sign_neg, sign_sideSign_mul side habs]
        have hresidue : fillResidue account price qty side = 0 := by
          simp [fillResidue, Increases, hopposite]
        rw [hresidue, exactRealized, hsign, closedQty, hopposite, if_pos rfl,
          Nat.abs_cast, exactSize]
        by_cases hcloses : (qty.val : ℤ) ≤ |account.positionSize.val|
        · rw [applyFill_avgEntry_of_closes hopposite hcloses, min_eq_right hcloses]
          ring
        · rw [applyFill_avgEntry_of_flips hopposite (by omega),
            min_eq_left (by omega)]
          linear_combination
            ((account.avgEntry.val : ℤ) - price.val) * hsigned

theorem applyFill_account (account : Account) (price : Price) (qty : Qty)
    (side : Side) : (applyFill account price qty side).1.account = account.account := rfl

theorem applyFill_collateral (account : Account) (price : Price) (qty : Qty)
    (side : Side) :
    (applyFill account price qty side).1.collateral = account.collateral := rfl

/-- Without a clamp a fill trades at its price up to `fillResidue`, the remainder of
the average price, which only an increase leaves. -/
theorem applyFill_exact (hsize : InI64 (exactSize account qty side))
    (hrealized : InI64 (exactRealized account price qty side)) :
    let (after, realized) := applyFill account price qty side
    after.positionSize.val = account.positionSize.val + qty.val * sideSign side ∧
      (∀ mark : ℤ, realized.val + after.positionSize.val * (mark - after.avgEntry.val) =
        account.positionSize.val * (mark - account.avgEntry.val) +
          qty.val * sideSign side * (mark - price.val) +
            fillResidue account price qty side) ∧
      (¬ Increases account side → fillResidue account price qty side = 0) ∧
      (Increases account side →
        (after.avgEntry.val : ℤ) =
            (|account.positionSize.val| * account.avgEntry.val + qty.val * price.val) /
              (|account.positionSize.val| + qty.val) ∧
          fillResidue account price qty side = account.positionSize.val.sign *
            ((|account.positionSize.val| * account.avgEntry.val + qty.val * price.val) %
              (|account.positionSize.val| + qty.val))) ∧
      after.account = account.account ∧ after.collateral = account.collateral := by
  have hvalue := applyFill_value price hsize
  rw [← applyFill_realized hrealized] at hvalue
  refine ⟨applyFill_positionSize hsize, hvalue, ?_, ?_,
    applyFill_account account price qty side, applyFill_collateral account price qty side⟩
  · intro hnot
    rw [fillResidue, if_neg hnot]
  · intro hincreases
    refine ⟨applyFill_avgEntry_of_increases hincreases hsize, ?_⟩
    rw [fillResidue, if_pos hincreases]

/-- Two units at 101 on top of three at 100: 502 over five is 100, and 2 remain. -/
theorem applyFill_exact_increase :
    let long : Account :=
      { account := 1, positionSize := 3, avgEntry := 100, collateral := 50 }
    let (after, realized) := applyFill long 101 2 .buy
    (after.positionSize.val = 5 ∧ after.avgEntry.val = 100 ∧
        fillResidue long 101 2 .buy = 2) ∧
      ∀ mark : ℤ, realized.val + after.positionSize.val * (mark - after.avgEntry.val) =
        3 * (mark - 100) + 2 * (mark - 101) + 2 := by
  intro long
  have hexact := @applyFill_exact long 101 2 .buy (by decide) (by decide)
  have hresidue : fillResidue long 101 2 .buy = 2 := by decide
  refine ⟨by decide, fun mark => ?_⟩
  have hvalue := hexact.2.1 mark
  rw [hresidue] at hvalue
  exact hvalue

end Spec

/-- The remainder is less than the size of the new position, and it is in
favour of the account only when a long position increases. -/
theorem fillResidue_le (account : Account) (price : Price) (qty : Qty)
    (side : Side) :
    fillResidue account price qty side ≤
      if 0 < account.positionSize.val ∧ side = .buy then
        account.positionSize.val + qty.val - 1
      else 0 := by
  have hqty := Int.natCast_nonneg qty.val
  by_cases hincreases : Increases account side
  · obtain ⟨hne, hsigned⟩ := (increases_iff account side).1 hincreases
    have habs := abs_pos.2 hne
    have hpos : 0 < |account.positionSize.val| + (qty.val : ℤ) := by omega
    have hmod := Int.emod_lt_of_pos (|account.positionSize.val| *
      account.avgEntry.val + qty.val * price.val) hpos
    have hnonneg := Int.emod_nonneg (|account.positionSize.val| *
      account.avgEntry.val + qty.val * price.val) hpos.ne'
    rw [fillResidue, if_pos hincreases]
    cases side with
    | buy =>
        rw [sideSign, one_mul] at hsigned
        have hsize : 0 < account.positionSize.val := by omega
        rw [if_pos ⟨hsize, rfl⟩, Int.sign_eq_one_of_pos hsize, one_mul]
        omega
    | sell =>
        rw [sideSign, neg_one_mul] at hsigned
        have hsize : account.positionSize.val < 0 := by omega
        rw [if_neg (by simp), Int.sign_eq_neg_one_of_neg hsize]
        omega
  · rw [fillResidue, if_neg hincreases]
    split_ifs with hlong
    · omega
    · exact le_refl 0

end OpenHl.Clearing
