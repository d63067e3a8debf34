import OpenHl.Liquidation.Margin

/-!
# The liquidation scan and the insurance fund

One scan classifies every account at the mark, closes those below maintenance
margin on paper and lets the insurance fund collect the fees and absorb the
shortfalls, in the order of the accounts.

`scan_value`: what the fund gains is what the closed accounts lose plus the
deficit it could not cover, less the fees it asked itself for.
-/

namespace OpenHl.Liquidation

open Machine OpenHl.Clob OpenHl.Funding

/-! ## The insurance fund -/

/-- The fund never owes anything. -/
structure InsuranceFund where
  balance : I64
  nonneg : 0 ≤ balance.val
  deriving DecidableEq

inductive WithdrawOutcome where
  | covered (amount : I64)
  | partiallyDrained (amount unfilled : I64)
  | depleted (unfilled : I64)
  deriving DecidableEq

namespace InsuranceFund

def empty : InsuranceFund := ⟨0, le_refl 0⟩

/-- A fund with an initial balance; negative balances become zero. -/
def new (initialBalance : I64) : InsuranceFund :=
  if hpos : 0 < initialBalance.val then ⟨initialBalance, hpos.le⟩ else empty

/-- Credit a fee; anything that is not positive is ignored. -/
def deposit (fund : InsuranceFund) (fee : I64) : InsuranceFund :=
  if hpos : 0 < fee.val then
    ⟨fund.balance.saturatingAdd fee, by
      have hbalance := fund.nonneg
      rw [I64.saturatingAdd_val]
      omega⟩
  else fund

/-- Pay as much of a shortfall as the balance covers. -/
def withdrawShortfall (fund : InsuranceFund) (shortfall : I64) :
    InsuranceFund × WithdrawOutcome :=
  if shortfall.val ≤ 0 then (fund, .covered 0)
  else if fund.balance = 0 then (fund, .depleted shortfall)
  else if hcovered : shortfall.val ≤ fund.balance.val then
    (⟨fund.balance.saturatingSub shortfall, by
      rw [I64.saturatingSub_val]
      omega⟩, .covered shortfall)
  else
    (empty, .partiallyDrained fund.balance (shortfall.saturatingSub fund.balance))

end InsuranceFund

def WithdrawOutcome.paid : WithdrawOutcome → I64
  | .covered amount => amount
  | .partiallyDrained amount _ => amount
  | .depleted _ => 0

def WithdrawOutcome.unfilled : WithdrawOutcome → I64
  | .covered _ => 0
  | .partiallyDrained _ unfilled => unfilled
  | .depleted unfilled => unfilled

theorem deposit_balance_val (fund : InsuranceFund) {fee : I64} (hfee : 0 ≤ fee.val) :
    (fund.deposit fee).balance.val = min (2 ^ 63 - 1) (fund.balance.val + fee.val) := by
  have hbalance := fund.nonneg
  have hupper := fund.balance.upper
  rw [InsuranceFund.deposit]
  split_ifs with hpositive
  · rw [I64.saturatingAdd_val]
    omega
  · omega

theorem deposit_balance {fund : InsuranceFund} {fee : I64} (hfee : 0 ≤ fee.val)
    (hrange : InI64 (fund.balance.val + fee.val)) :
    (fund.deposit fee).balance.val = fund.balance.val + fee.val := by
  have hupper := hrange.2
  rw [deposit_balance_val fund hfee]
  omega

/-- A withdrawal takes the balance down to zero at most. -/
theorem withdrawShortfall_vals (fund : InsuranceFund) {shortfall : I64}
    (hshortfall : 0 ≤ shortfall.val) :
    let after := fund.withdrawShortfall shortfall
    after.1.balance.val = max 0 (fund.balance.val - shortfall.val) ∧
      after.2.paid.val = min fund.balance.val shortfall.val ∧
      after.2.unfilled.val = max 0 (shortfall.val - fund.balance.val) := by
  intro after
  have hbalance := fund.nonneg
  have hbelow := fund.balance.upper
  have hupper := shortfall.upper
  simp only [after, InsuranceFund.withdrawShortfall]
  split_ifs with hnone hempty hcovered
  · simp only [WithdrawOutcome.paid, WithdrawOutcome.unfilled, I64.zero_val]
    omega
  · simp only [WithdrawOutcome.paid, WithdrawOutcome.unfilled, I64.zero_val, hempty]
    omega
  · simp only [WithdrawOutcome.paid, WithdrawOutcome.unfilled, I64.zero_val]
    rw [I64.saturatingSub_val_of_inI64 ⟨by omega, by omega⟩]
    omega
  · simp only [WithdrawOutcome.paid, WithdrawOutcome.unfilled, InsuranceFund.empty,
      I64.zero_val]
    rw [I64.saturatingSub_val_of_inI64 ⟨by omega, by omega⟩]
    omega

/-- A withdrawal pays from the balance, and what it does not pay is unfilled. -/
theorem withdrawShortfall_balance (fund : InsuranceFund) (shortfall : I64)
    (hshortfall : 0 ≤ shortfall.val) :
    let after := fund.withdrawShortfall shortfall
    after.1.balance.val + after.2.paid.val = fund.balance.val ∧
      after.2.paid.val + after.2.unfilled.val = shortfall.val := by
  intro after
  have hbalance := fund.nonneg
  obtain ⟨hlevel, hpaid, hunfilled⟩ := withdrawShortfall_vals fund hshortfall
  change after.1.balance.val = _ at hlevel
  change after.2.paid.val = _ at hpaid
  change after.2.unfilled.val = _ at hunfilled
  omega

/-! ## The scan -/

inductive CloseOutcomeKind where
  | solvent (close : SolventClose)
  | underwater (close : UnderwaterClose)
  deriving DecidableEq

structure LiquidationRecord where
  account : AccountId
  closeOrder : CloseOrderSpec
  classification : MarginHealth
  outcome : CloseOutcomeKind
  deriving DecidableEq

structure ScanReport where
  records : List LiquidationRecord
  fundDeposits : I64
  fundWithdrawals : I64
  unfilledDeficit : I64
  deriving DecidableEq

def ScanReport.default : ScanReport :=
  { records := [], fundDeposits := 0, fundWithdrawals := 0, unfilledDeficit := 0 }

/-- The fund and the report as a scan goes along. -/
structure ScanState where
  fund : InsuranceFund
  report : ScanReport
  deriving DecidableEq

section Scan

variable (params : LiquidationParams) (mark : MarkPrice)

/-- Solvent when the equity covers the fee. -/
def closeOutcome (snapshot : AccountSnapshot) : CloseOutcomeKind :=
  if (desiredFee params mark snapshot).val ≤ (accountEquity snapshot mark).val then
    .solvent (solventCloseOutcome snapshot mark params)
  else .underwater (underwaterCloseOutcome snapshot mark params)

/-- Let the fund collect the fee of a close and absorb its shortfall. -/
def absorbOutcome (state : ScanState) : CloseOutcomeKind → ScanState
  | .solvent close =>
      { fund := state.fund.deposit close.feeToFund
        report := { state.report with
          fundDeposits := state.report.fundDeposits.saturatingAdd close.feeToFund } }
  | .underwater close =>
      let deposited :=
        if 0 < close.feeToFund.val then state.fund.deposit close.feeToFund
        else state.fund
      let fundDeposits :=
        if 0 < close.feeToFund.val then
          state.report.fundDeposits.saturatingAdd close.feeToFund
        else state.report.fundDeposits
      let (fund, withdraw) := deposited.withdrawShortfall close.shortfallToFund
      { fund := fund
        report := { state.report with
          fundDeposits := fundDeposits
          fundWithdrawals :=
            state.report.fundWithdrawals.saturatingAdd withdraw.paid
          unfilledDeficit :=
            state.report.unfilledDeficit.saturatingAdd withdraw.unfilled } }

/-- Whether the scan closes an account. -/
def liquidated (snapshot : AccountSnapshot) : Bool :=
  match marginHealth snapshot mark params with
  | .safe => false
  | .atRisk => false
  | .liquidatable => snapshot.positionSize ≠ 0
  | .underwater => snapshot.positionSize ≠ 0

def liquidationRecord (snapshot : AccountSnapshot) : LiquidationRecord :=
  { account := snapshot.account
    closeOrder := closeOrderSpec snapshot
    classification := marginHealth snapshot mark params
    outcome := closeOutcome params mark snapshot }

def scanStep (state : ScanState) (snapshot : AccountSnapshot) : ScanState :=
  if liquidated params mark snapshot then
    let absorbed := absorbOutcome state (closeOutcome params mark snapshot)
    { absorbed with
      report := { absorbed.report with
        records := absorbed.report.records ++
          [liquidationRecord params mark snapshot] } }
  else state

/-- Scan every account and return the fund and the report. -/
def scan (fund : InsuranceFund) (accounts : List AccountSnapshot) : ScanState :=
  accounts.foldl (scanStep params mark) { fund := fund, report := .default }

end Scan

/-- The records are those of the closed accounts, in their order. -/
theorem foldl_scanStep_records (params : LiquidationParams) (mark : MarkPrice)
    (accounts : List AccountSnapshot) (state : ScanState) :
    (accounts.foldl (scanStep params mark) state).report.records =
      state.report.records ++
        (accounts.filter (liquidated params mark)).map
          (liquidationRecord params mark) := by
  induction accounts generalizing state with
  | nil => simp
  | cons snapshot rest ih =>
      rw [List.foldl_cons, ih]
      cases hliquidated : liquidated params mark snapshot with
      | false => simp [scanStep, hliquidated]
      | true =>
          have hkept : (absorbOutcome state
              (closeOutcome params mark snapshot)).report.records =
                state.report.records := by
            cases closeOutcome params mark snapshot <;> rfl
          simp [scanStep, hliquidated, hkept]

theorem scan_records (params : LiquidationParams) (mark : MarkPrice)
    (fund : InsuranceFund) (accounts : List AccountSnapshot) :
    (scan params mark fund accounts).report.records =
      (accounts.filter (liquidated params mark)).map
        (liquidationRecord params mark) := by
  simp [scan, foldl_scanStep_records, ScanReport.default]

/-! ## What a close does to the fund -/

section Value

variable (params : LiquidationParams) (mark : MarkPrice)

/-- Collateral that the outcome of a close leaves with the account. -/
def CloseOutcomeKind.left : CloseOutcomeKind → I64
  | .solvent close => close.residualToAccount
  | .underwater _ => 0

/-- What a closed account loses: its equity less what it keeps. -/
def lostEquity (snapshot : AccountSnapshot) : ℤ :=
  (accountEquity snapshot mark).val - (closeOutcome params mark snapshot).left.val

/-- The part of the desired fee that an underwater close does not collect; the
fund pays it as part of the shortfall. -/
def uncollectedFee (snapshot : AccountSnapshot) : ℤ :=
  match closeOutcome params mark snapshot with
  | .solvent _ => 0
  | .underwater close => (desiredFee params mark snapshot).val - close.feeToFund.val

/-- The deficit that a close adds when the fund holds `fund`. -/
def closeDeficit (fund : InsuranceFund) (snapshot : AccountSnapshot) : I64 :=
  match closeOutcome params mark snapshot with
  | .solvent _ => 0
  | .underwater close =>
      ((fund.deposit close.feeToFund).withdrawShortfall
        close.shortfallToFund).2.unfilled

/-- The fund after a close. -/
def fundAfterClose (fund : InsuranceFund) (snapshot : AccountSnapshot) :
    InsuranceFund :=
  match closeOutcome params mark snapshot with
  | .solvent close => fund.deposit close.feeToFund
  | .underwater close =>
      ((fund.deposit close.feeToFund).withdrawShortfall close.shortfallToFund).1

/-- The deficit that a fund leaves uncovered when accounts are closed in order,
on top of an earlier one. -/
def uncoveredDeficit (fund : InsuranceFund) (deficit : I64) :
    List AccountSnapshot → I64
  | [] => deficit
  | snapshot :: rest =>
      uncoveredDeficit (fundAfterClose params mark fund snapshot)
        (deficit.saturatingAdd (closeDeficit params mark fund snapshot)) rest

/-- No saturating operation of a close clips its result. -/
structure ExactClose (state : ScanState) (snapshot : AccountSnapshot) : Prop where
  shortfall : InI64 ((desiredFee params mark snapshot).val -
    (accountEquity snapshot mark).val)
  deposit : InI64 (state.fund.balance.val +
    max 0 (min (desiredFee params mark snapshot).val
      (accountEquity snapshot mark).val))
  deficit : InI64 (state.report.unfilledDeficit.val +
    (closeDeficit params mark state.fund snapshot).val)

instance (state : ScanState) (snapshot : AccountSnapshot) :
    Decidable (ExactClose params mark state snapshot) :=
  decidable_of_iff
    (InI64 ((desiredFee params mark snapshot).val -
        (accountEquity snapshot mark).val) ∧
      InI64 (state.fund.balance.val + max 0 (min (desiredFee params mark snapshot).val
        (accountEquity snapshot mark).val)) ∧
      InI64 (state.report.unfilledDeficit.val +
        (closeDeficit params mark state.fund snapshot).val))
    ⟨fun ⟨hshortfall, hdeposit, hdeficit⟩ => ⟨hshortfall, hdeposit, hdeficit⟩,
      fun ⟨hshortfall, hdeposit, hdeficit⟩ => ⟨hshortfall, hdeposit, hdeficit⟩⟩

/-- No close of a scan saturates. -/
def ScanExact : ScanState → List AccountSnapshot → Prop
  | _, [] => True
  | state, snapshot :: rest =>
      (liquidated params mark snapshot = true →
        ExactClose params mark state snapshot) ∧
      ScanExact (scanStep params mark state snapshot) rest

instance decidableScanExact : ∀ (accounts : List AccountSnapshot)
    (state : ScanState), Decidable (ScanExact params mark state accounts)
  | [], _ => isTrue trivial
  | snapshot :: rest, state =>
      have := decidableScanExact rest (scanStep params mark state snapshot)
      inferInstanceAs (Decidable (_ ∧ _))

variable {params mark}

theorem absorbOutcome_underwater (state : ScanState) (close : UnderwaterClose) :
    let after := (state.fund.deposit close.feeToFund).withdrawShortfall
      close.shortfallToFund
    (absorbOutcome state (.underwater close)).fund = after.1 ∧
      (absorbOutcome state (.underwater close)).report.unfilledDeficit =
        state.report.unfilledDeficit.saturatingAdd after.2.unfilled := by
  have hdeposited : (if 0 < close.feeToFund.val then
      state.fund.deposit close.feeToFund else state.fund) =
        state.fund.deposit close.feeToFund := by
    split_ifs with hpos
    · rfl
    · rw [InsuranceFund.deposit, dif_neg hpos]
  simp only [absorbOutcome, hdeposited, and_self]

theorem absorbOutcome_fund (params : LiquidationParams) (mark : MarkPrice)
    (state : ScanState) (snapshot : AccountSnapshot) :
    let after := absorbOutcome state (closeOutcome params mark snapshot)
    after.fund = fundAfterClose params mark state.fund snapshot ∧
      after.report.unfilledDeficit = state.report.unfilledDeficit.saturatingAdd
        (closeDeficit params mark state.fund snapshot) := by
  intro after
  cases houtcome : closeOutcome params mark snapshot with
  | solvent close =>
      simp [after, houtcome, absorbOutcome, fundAfterClose, closeDeficit]
  | underwater close =>
      simpa [after, houtcome, fundAfterClose, closeDeficit] using
        absorbOutcome_underwater state close

theorem foldl_scanStep_deficit (accounts : List AccountSnapshot)
    (state : ScanState) :
    (accounts.foldl (scanStep params mark) state).report.unfilledDeficit =
      uncoveredDeficit params mark state.fund state.report.unfilledDeficit
        (accounts.filter (liquidated params mark)) := by
  induction accounts generalizing state with
  | nil => rfl
  | cons snapshot rest ih =>
      rw [List.foldl_cons, ih]
      cases hliquidated : liquidated params mark snapshot with
      | false => simp [scanStep, hliquidated]
      | true =>
          obtain ⟨hfund, hdeficit⟩ :=
            absorbOutcome_fund params mark state snapshot
          rw [List.filter_cons_of_pos hliquidated, uncoveredDeficit, ← hfund,
            ← hdeficit, scanStep, if_pos hliquidated]

/-- One close: the fund gains what the account loses and what stays uncovered,
less the uncollected fee. -/
theorem absorbOutcome_value {state : ScanState} {snapshot : AccountSnapshot}
    (hexact : ExactClose params mark state snapshot) :
    let after := absorbOutcome state (closeOutcome params mark snapshot)
    after.fund.balance.val - after.report.unfilledDeficit.val =
      state.fund.balance.val - state.report.unfilledDeficit.val +
        lostEquity params mark snapshot - uncollectedFee params mark snapshot := by
  obtain ⟨hshortfall, hdeposit, hdeficit⟩ := hexact
  have hfee := desiredFee_nonneg params mark snapshot
  have hequity := (accountEquity snapshot mark).upper
  by_cases hsolvent : (desiredFee params mark snapshot).val ≤
      (accountEquity snapshot mark).val
  · have houtcome : closeOutcome params mark snapshot =
        .solvent (solventCloseOutcome snapshot mark params) := if_pos hsolvent
    have hresidual : (solventCloseOutcome snapshot mark params).residualToAccount.val =
        (accountEquity snapshot mark).val - (desiredFee params mark snapshot).val :=
      I64.saturatingSub_val_of_inI64 ⟨by omega, by omega⟩
    rw [min_eq_left hsolvent, max_eq_right hfee] at hdeposit
    have hbalance := deposit_balance hfee hdeposit
    simp only [houtcome, absorbOutcome, lostEquity, uncollectedFee,
      CloseOutcomeKind.left, hresidual]
    simp only [solventCloseOutcome, hbalance]
    ring
  · have houtcome : closeOutcome params mark snapshot =
        .underwater (underwaterCloseOutcome snapshot mark params) := if_neg hsolvent
    have hamount : (underwaterCloseOutcome snapshot mark params).shortfallToFund.val =
        (desiredFee params mark snapshot).val - (accountEquity snapshot mark).val :=
      I64.saturatingSub_val_of_inI64 hshortfall
    have hpartial : (underwaterCloseOutcome snapshot mark params).feeToFund.val =
        max 0 (accountEquity snapshot mark).val := by
      simp only [underwaterCloseOutcome]
      split_ifs with hpos
      · omega
      · rw [I64.zero_val]
        omega
    rw [min_eq_right (by omega), ← hpartial] at hdeposit
    obtain ⟨hfund, hunfilled⟩ := absorbOutcome_underwater state
      (underwaterCloseOutcome snapshot mark params)
    obtain ⟨hpaid, hsplit⟩ := withdrawShortfall_balance
      (state.fund.deposit (underwaterCloseOutcome snapshot mark params).feeToFund)
      (underwaterCloseOutcome snapshot mark params).shortfallToFund (by omega)
    rw [deposit_balance (by omega) hdeposit] at hpaid
    simp only [closeDeficit, houtcome] at hdeficit
    simp only [houtcome, lostEquity, uncollectedFee, CloseOutcomeKind.left,
      I64.zero_val]
    rw [hfund, hunfilled, I64.saturatingAdd_val_of_inI64 hdeficit]
    omega

theorem scanStep_value {state : ScanState} {snapshot : AccountSnapshot}
    (hexact : liquidated params mark snapshot = true →
      ExactClose params mark state snapshot) :
    let after := scanStep params mark state snapshot
    after.fund.balance.val - after.report.unfilledDeficit.val =
      state.fund.balance.val - state.report.unfilledDeficit.val +
        if liquidated params mark snapshot then
          lostEquity params mark snapshot - uncollectedFee params mark snapshot
        else 0 := by
  intro after
  cases hliquidated : liquidated params mark snapshot with
  | false => simp [after, scanStep, hliquidated]
  | true =>
      have hvalue := absorbOutcome_value (hexact hliquidated)
      simp only [after, scanStep, hliquidated, if_true]
      simp only at hvalue
      omega

theorem foldl_scanStep_value {accounts : List AccountSnapshot} {state : ScanState}
    (hexact : ScanExact params mark state accounts) :
    let after := accounts.foldl (scanStep params mark) state
    after.fund.balance.val - after.report.unfilledDeficit.val =
      state.fund.balance.val - state.report.unfilledDeficit.val +
        ((accounts.filter (liquidated params mark)).map
          (lostEquity params mark)).sum -
        ((accounts.filter (liquidated params mark)).map
          (uncollectedFee params mark)).sum := by
  induction accounts generalizing state with
  | nil => simp
  | cons snapshot rest ih =>
      obtain ⟨hclose, hrest⟩ := hexact
      have hstep := scanStep_value hclose
      have htail := ih hrest
      simp only [List.foldl_cons] at htail ⊢
      rw [htail, hstep]
      cases hliquidated : liquidated params mark snapshot with
      | false => simp [hliquidated]
      | true => simp [hliquidated]; ring

end Value

/-- Without saturation, a scan changes the fund by the sum over the closed
accounts of their equity less what they keep, plus the unfilled deficit, less
the fees that underwater closes leave uncollected. -/
theorem scan_value (params : LiquidationParams) (mark : MarkPrice)
    (fund : InsuranceFund) (accounts : List AccountSnapshot)
    (hexact : ScanExact params mark ⟨fund, .default⟩ accounts) :
    let after := scan params mark fund accounts
    let closed := accounts.filter (liquidated params mark)
    after.report.records = closed.map (liquidationRecord params mark) ∧
      after.fund.balance.val - fund.balance.val =
        (closed.map (lostEquity params mark)).sum +
          after.report.unfilledDeficit.val -
            (closed.map (uncollectedFee params mark)).sum := by
  refine ⟨scan_records params mark fund accounts, ?_⟩
  have hvalue := foldl_scanStep_value hexact
  simp only [ScanReport.default, I64.zero_val] at hvalue
  simp only [scan, ScanReport.default]
  omega

/-- Long ten contracts at 100 without collateral; at 90 the equity is -100 and
the fee is 13. -/
def longTenUncovered : AccountSnapshot :=
  { account := 1, positionSize := 10, avgEntry := 100, collateral := 0 }

theorem scan_value_longTenUncovered :
    (scan .hyperliquidDefault 90 .empty [longTenUncovered]).fund.balance.val -
        InsuranceFund.empty.balance.val = -100 + 113 - 13 :=
  (scan_value .hyperliquidDefault 90 .empty [longTenUncovered]
    (by decide +kernel)).2.trans (by decide +kernel)

/-- The fund is asked for 113, of which 13 is a fee that nobody receives. -/
theorem not_forall_scan_conserves :
    ¬ ∀ (params : LiquidationParams) (mark : MarkPrice) (fund : InsuranceFund)
      (accounts : List AccountSnapshot),
      ScanExact params mark ⟨fund, .default⟩ accounts →
        (scan params mark fund accounts).fund.balance.val - fund.balance.val =
          ((accounts.filter (liquidated params mark)).map
            (lostEquity params mark)).sum +
            (scan params mark fund accounts).report.unfilledDeficit.val := by
  intro hconserves
  have hvalue := hconserves .hyperliquidDefault 90 .empty [longTenUncovered]
    (by decide +kernel)
  revert hvalue
  decide +kernel

end OpenHl.Liquidation
