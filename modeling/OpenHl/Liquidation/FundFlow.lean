import OpenHl.Core.Reservoir
import OpenHl.Liquidation.Scanner

/-!
# What a scan moves through the insurance fund

Every close pays a fee into the fund and asks it for a shortfall, so the fund is
a store with the word size as its capacity.

`scan_settles`: without saturation the totals of a report are those of its
records, and the balance less the deficit does not depend on the order of the
accounts.  `scan_drained_iff`: when a scan that leaves a deficit leaves the fund
empty as well.  A fee that is collected after the fund came up short stays in the
fund.
-/

namespace OpenHl.Liquidation

open Machine OpenHl.Clob OpenHl.Funding

namespace CloseOutcomeKind

def feeToFund : CloseOutcomeKind → I64
  | .solvent close => close.feeToFund
  | .underwater close => close.feeToFund

/-- What the fund is asked for; a solvent close asks for nothing. -/
def shortfallToFund : CloseOutcomeKind → I64
  | .solvent _ => 0
  | .underwater close => close.shortfallToFund

end CloseOutcomeKind

/-! ## One close -/

theorem closeOutcome_nonneg (params : LiquidationParams) (mark : MarkPrice)
    (snapshot : AccountSnapshot) :
    0 ≤ (closeOutcome params mark snapshot).feeToFund.val ∧
      0 ≤ (closeOutcome params mark snapshot).left.val ∧
      0 ≤ (closeOutcome params mark snapshot).shortfallToFund.val := by
  have hfee := desiredFee_nonneg params mark snapshot
  rw [closeOutcome]
  split_ifs with hsolvent
  · refine ⟨hfee, ?_, le_refl 0⟩
    change 0 ≤ ((accountEquity snapshot mark).saturatingSub
      (desiredFee params mark snapshot)).val
    rw [I64.saturatingSub_val]
    omega
  · refine ⟨?_, le_refl 0, ?_⟩
    · change 0 ≤ (if 0 < (accountEquity snapshot mark).val then
        accountEquity snapshot mark else 0).val
      split_ifs with hpositive
      · exact hpositive.le
      · exact le_refl 0
    · change 0 ≤ ((desiredFee params mark snapshot).saturatingSub
        (accountEquity snapshot mark)).val
      rw [I64.saturatingSub_val]
      omega

/-! ## The fund as a store -/

section Flow

variable (params : LiquidationParams) (mark : MarkPrice)

/-- A signed word cannot hold more. -/
def fundCapacity : ℤ := 2 ^ 63 - 1

/-- What a close brings to the fund and asks of it. -/
def closeFlow (snapshot : AccountSnapshot) : Reservoir.Flow :=
  { inflow := (closeOutcome params mark snapshot).feeToFund.val
    outflow := (closeOutcome params mark snapshot).shortfallToFund.val }

/-- The fund after some closes, if it paid every shortfall in full. -/
def fundCredit (level : ℤ) (closes : List AccountSnapshot) : ℤ :=
  Reservoir.credit fundCapacity level (closes.map (closeFlow params mark))

theorem fundAfterClose_step (fund : InsuranceFund) (snapshot : AccountSnapshot) :
    (fundAfterClose params mark fund snapshot).balance.val =
        Reservoir.step fundCapacity fund.balance.val (closeFlow params mark snapshot) ∧
      (closeDeficit params mark fund snapshot).val =
        Reservoir.missing fundCapacity fund.balance.val
          (closeFlow params mark snapshot) := by
  obtain ⟨hfee, -, hshortfall⟩ := closeOutcome_nonneg params mark snapshot
  have hbalance := fund.nonneg
  rw [fundAfterClose, closeDeficit, Reservoir.step, Reservoir.missing,
    Reservoir.creditStep, closeFlow, fundCapacity]
  cases houtcome : closeOutcome params mark snapshot with
  | solvent close =>
      rw [houtcome, CloseOutcomeKind.feeToFund] at hfee
      simp only [CloseOutcomeKind.feeToFund, CloseOutcomeKind.shortfallToFund,
        deposit_balance_val fund hfee, I64.zero_val]
      omega
  | underwater close =>
      rw [houtcome, CloseOutcomeKind.feeToFund] at hfee
      rw [houtcome, CloseOutcomeKind.shortfallToFund] at hshortfall
      obtain ⟨hlevel, -, hunfilled⟩ :=
        withdrawShortfall_vals (fund.deposit close.feeToFund) hshortfall
      simp only [CloseOutcomeKind.feeToFund, CloseOutcomeKind.shortfallToFund, hlevel,
        hunfilled, deposit_balance_val fund hfee, true_and]
      omega

variable {params mark}

theorem foldl_fundAfterClose (fund : InsuranceFund) (closes : List AccountSnapshot) :
    (closes.foldl (fundAfterClose params mark) fund).balance.val =
      Reservoir.run fundCapacity fund.balance.val
        (closes.map (closeFlow params mark)) := by
  induction closes generalizing fund with
  | nil => rfl
  | cons snapshot rest ih =>
      rw [List.foldl_cons, ih, (fundAfterClose_step params mark fund snapshot).1]
      rfl

/-- Saturating or not, a deficit is reported exactly when the fund came up short. -/
theorem uncoveredDeficit_pos_iff (fund : InsuranceFund) {deficit : I64}
    (hdeficit : 0 ≤ deficit.val) (closes : List AccountSnapshot) :
    0 < (uncoveredDeficit params mark fund deficit closes).val ↔
      0 < deficit.val ∨ 0 < Reservoir.totalMissing fundCapacity fund.balance.val
        (closes.map (closeFlow params mark)) := by
  induction closes generalizing fund deficit with
  | nil => simp [uncoveredDeficit, Reservoir.totalMissing]
  | cons snapshot rest ih =>
      obtain ⟨hlevel, hmissing⟩ := fundAfterClose_step params mark fund snapshot
      have hnonneg : 0 ≤ Reservoir.missing fundCapacity fund.balance.val
          (closeFlow params mark snapshot) := Reservoir.missing_nonneg _ _
      have hrest : 0 ≤ Reservoir.totalMissing fundCapacity
          (Reservoir.step fundCapacity fund.balance.val (closeFlow params mark snapshot))
          (rest.map (closeFlow params mark)) := Reservoir.totalMissing_nonneg _ _
      have hadded : (deficit.saturatingAdd (closeDeficit params mark fund snapshot)).val =
          min (2 ^ 63 - 1) (deficit.val + Reservoir.missing fundCapacity
            fund.balance.val (closeFlow params mark snapshot)) := by
        rw [I64.saturatingAdd_val, hmissing]
        omega
      rw [uncoveredDeficit, ih _ (by omega), hadded, hlevel, List.map_cons,
        Reservoir.totalMissing]
      omega

theorem foldl_scanStep_fund (accounts : List AccountSnapshot) (state : ScanState) :
    (accounts.foldl (scanStep params mark) state).fund =
      (accounts.filter (liquidated params mark)).foldl (fundAfterClose params mark)
        state.fund := by
  induction accounts generalizing state with
  | nil => rfl
  | cons snapshot rest ih =>
      rw [List.foldl_cons, ih]
      cases hliquidated : liquidated params mark snapshot with
      | false => simp [scanStep, hliquidated]
      | true =>
          rw [List.filter_cons_of_pos hliquidated, List.foldl_cons, scanStep,
            if_pos hliquidated, ← (absorbOutcome_fund params mark state snapshot).1]

end Flow

/-- A scan that leaves a deficit leaves the fund empty exactly if the fund, running
on credit, would cover every close in order, or if no closes at the end of the scan
would leave anything in an empty fund that runs on credit. -/
theorem scan_drained_iff (params : LiquidationParams) (mark : MarkPrice)
    (fund : InsuranceFund) (accounts : List AccountSnapshot) :
    (0 < (scan params mark fund accounts).report.unfilledDeficit.val →
        (scan params mark fund accounts).fund.balance = 0) ↔
      (∀ first, first <+: accounts.filter (liquidated params mark) →
        0 ≤ fundCredit params mark fund.balance.val first) ∨
      ∀ last, last <:+ accounts.filter (liquidated params mark) →
        fundCredit params mark 0 last ≤ 0 := by
  have hzero : (scan params mark fund accounts).fund.balance = 0 ↔
      Reservoir.run fundCapacity fund.balance.val
        ((accounts.filter (liquidated params mark)).map (closeFlow params mark)) = 0 := by
    rw [← foldl_fundAfterClose, scan, foldl_scanStep_fund, I64.ext_iff]
    rfl
  have hdeficit : 0 < (scan params mark fund accounts).report.unfilledDeficit.val ↔
      0 < Reservoir.totalMissing fundCapacity fund.balance.val
        ((accounts.filter (liquidated params mark)).map (closeFlow params mark)) := by
    rw [scan, foldl_scanStep_deficit, uncoveredDeficit_pos_iff fund (le_refl 0)]
    simp [ScanReport.default]
  rw [hzero, hdeficit, Reservoir.dry_of_missing_iff fund.nonneg]
  refine or_congr ?_ ?_
  · constructor
    · intro henough first hfirst
      exact henough _ (hfirst.map _)
    · intro henough before hbefore
      obtain ⟨first, hfirst, rfl⟩ := List.prefix_map_iff.1 hbefore
      exact henough first hfirst
  · constructor
    · intro hnever last hlast
      exact hnever _ (hlast.map _)
    · intro hnever after hafter
      obtain ⟨last, hlast, rfl⟩ := List.suffix_map_iff.1 hafter
      exact hnever last hlast

/-- Long ten contracts at 100; at 90 the equity of 15 pays the fee of 13. -/
def longTenThin : AccountSnapshot :=
  { account := 2, positionSize := 10, avgEntry := 100, collateral := 115 }

/-- An empty fund is short of 113 for the first account and collects 13 from the
second. -/
theorem not_forall_scan_drained :
    ¬ ∀ (params : LiquidationParams) (mark : MarkPrice) (fund : InsuranceFund)
      (accounts : List AccountSnapshot),
      0 < (scan params mark fund accounts).report.unfilledDeficit.val →
        (scan params mark fund accounts).fund.balance = 0 := by
  intro hdrained
  have hbalance := hdrained .hyperliquidDefault 90 .empty [longTenUncovered, longTenThin]
    (by decide +kernel)
  revert hbalance
  decide +kernel

/-! ## Totals -/

/-- How the fund answers the shortfall of a close, after its fee. -/
def withdrawn (fund : InsuranceFund) (outcome : CloseOutcomeKind) : WithdrawOutcome :=
  ((fund.deposit outcome.feeToFund).withdrawShortfall outcome.shortfallToFund).2

/-- None of the sums that a close adds to saturates. -/
structure SumsFit (state : ScanState) (outcome : CloseOutcomeKind) : Prop where
  balance : InI64 (state.fund.balance.val + outcome.feeToFund.val)
  deposits : InI64 (state.report.fundDeposits.val + outcome.feeToFund.val)
  withdrawals : InI64 (state.report.fundWithdrawals.val +
    (withdrawn state.fund outcome).paid.val)
  deficit : InI64 (state.report.unfilledDeficit.val +
    (withdrawn state.fund outcome).unfilled.val)

instance (state : ScanState) (outcome : CloseOutcomeKind) :
    Decidable (SumsFit state outcome) :=
  decidable_of_iff
    (InI64 (state.fund.balance.val + outcome.feeToFund.val) ∧
      InI64 (state.report.fundDeposits.val + outcome.feeToFund.val) ∧
      InI64 (state.report.fundWithdrawals.val +
        (withdrawn state.fund outcome).paid.val) ∧
      InI64 (state.report.unfilledDeficit.val +
        (withdrawn state.fund outcome).unfilled.val))
    ⟨fun ⟨hbalance, hdeposits, hwithdrawals, hdeficit⟩ =>
        ⟨hbalance, hdeposits, hwithdrawals, hdeficit⟩,
      fun ⟨hbalance, hdeposits, hwithdrawals, hdeficit⟩ =>
        ⟨hbalance, hdeposits, hwithdrawals, hdeficit⟩⟩

section Totals

variable (params : LiquidationParams) (mark : MarkPrice)

/-- No sum of a scan saturates. -/
def ScanFits : ScanState → List AccountSnapshot → Prop
  | _, [] => True
  | state, snapshot :: rest =>
      (liquidated params mark snapshot = true →
        SumsFit state (closeOutcome params mark snapshot)) ∧
      ScanFits (scanStep params mark state snapshot) rest

instance decidableScanFits : ∀ (accounts : List AccountSnapshot) (state : ScanState),
    Decidable (ScanFits params mark state accounts)
  | [], _ => isTrue trivial
  | snapshot :: rest, state =>
      have := decidableScanFits rest (scanStep params mark state snapshot)
      inferInstanceAs (Decidable (_ ∧ _))

/-- What the closes pay to the fund. -/
def totalFees (closes : List AccountSnapshot) : ℤ :=
  (closes.map fun snapshot => (closeOutcome params mark snapshot).feeToFund.val).sum

/-- What the closes ask of the fund. -/
def totalShortfalls (closes : List AccountSnapshot) : ℤ :=
  (closes.map fun snapshot =>
    (closeOutcome params mark snapshot).shortfallToFund.val).sum

/-- The totals of the report after some closes, and the balance they explain. -/
structure Balanced (initial : ℤ) (closes : List AccountSnapshot) (state : ScanState) :
    Prop where
  deposits : state.report.fundDeposits.val = totalFees params mark closes
  shortfalls : state.report.fundWithdrawals.val + state.report.unfilledDeficit.val =
    totalShortfalls params mark closes
  balance : state.fund.balance.val = initial + state.report.fundDeposits.val -
    state.report.fundWithdrawals.val

variable {params mark}

/-- Every close is a deposit of the fee and a withdrawal of the shortfall, one of
which may be zero. -/
theorem absorbOutcome_eq (state : ScanState) {outcome : CloseOutcomeKind}
    (hfee : 0 ≤ outcome.feeToFund.val) :
    absorbOutcome state outcome =
      { fund := ((state.fund.deposit outcome.feeToFund).withdrawShortfall
          outcome.shortfallToFund).1
        report := { state.report with
          fundDeposits := state.report.fundDeposits.saturatingAdd outcome.feeToFund
          fundWithdrawals := state.report.fundWithdrawals.saturatingAdd
            (withdrawn state.fund outcome).paid
          unfilledDeficit := state.report.unfilledDeficit.saturatingAdd
            (withdrawn state.fund outcome).unfilled } } := by
  cases outcome with
  | solvent close =>
      simp [absorbOutcome, withdrawn, CloseOutcomeKind.feeToFund,
        CloseOutcomeKind.shortfallToFund, InsuranceFund.withdrawShortfall,
        WithdrawOutcome.paid, WithdrawOutcome.unfilled]
  | underwater close =>
      by_cases hpositive : 0 < close.feeToFund.val
      · simp [absorbOutcome, withdrawn, CloseOutcomeKind.feeToFund,
          CloseOutcomeKind.shortfallToFund, hpositive]
      · have hzero : close.feeToFund = 0 :=
          I64.ext (le_antisymm (not_lt.1 hpositive) hfee)
        simp [absorbOutcome, withdrawn, CloseOutcomeKind.feeToFund,
          CloseOutcomeKind.shortfallToFund, hzero, InsuranceFund.deposit]

theorem Balanced.absorb {initial : ℤ} {closes : List AccountSnapshot}
    {state : ScanState} (hbalanced : Balanced params mark initial closes state)
    {snapshot : AccountSnapshot}
    (hfits : SumsFit state (closeOutcome params mark snapshot)) :
    Balanced params mark initial (closes ++ [snapshot])
      (absorbOutcome state (closeOutcome params mark snapshot)) := by
  obtain ⟨hfee, -, hshortfall⟩ := closeOutcome_nonneg params mark snapshot
  obtain ⟨hpaid, hsplit⟩ := withdrawShortfall_balance
    (state.fund.deposit (closeOutcome params mark snapshot).feeToFund) _ hshortfall
  rw [deposit_balance hfee hfits.balance] at hpaid
  rw [absorbOutcome_eq state hfee]
  refine ⟨?_, ?_, ?_⟩
  · simp only [I64.saturatingAdd_val_of_inI64 hfits.deposits, hbalanced.deposits,
      totalFees, List.map_append, List.sum_append, List.map_cons, List.map_nil,
      List.sum_cons, List.sum_nil, add_zero]
  · have htotal := hbalanced.shortfalls
    simp only [I64.saturatingAdd_val_of_inI64 hfits.withdrawals,
      I64.saturatingAdd_val_of_inI64 hfits.deficit, totalShortfalls, List.map_append,
      List.sum_append, List.map_cons, List.map_nil, List.sum_cons, List.sum_nil,
      add_zero]
    rw [← totalShortfalls, ← htotal, withdrawn]
    omega
  · have hprior := hbalanced.balance
    simp only [I64.saturatingAdd_val_of_inI64 hfits.withdrawals,
      I64.saturatingAdd_val_of_inI64 hfits.deposits]
    rw [withdrawn]
    omega

theorem foldl_scanStep_balanced {initial : ℤ} {closes accounts : List AccountSnapshot}
    {state : ScanState} (hbalanced : Balanced params mark initial closes state)
    (hfits : ScanFits params mark state accounts) :
    Balanced params mark initial (closes ++ accounts.filter (liquidated params mark))
      (accounts.foldl (scanStep params mark) state) := by
  induction accounts generalizing closes state with
  | nil =>
      rw [List.filter_nil, List.append_nil]
      exact hbalanced
  | cons snapshot rest ih =>
      obtain ⟨hclose, hrest⟩ := hfits
      cases hliquidated : liquidated params mark snapshot with
      | false =>
          have hskip : scanStep params mark state snapshot = state := by
            simp [scanStep, hliquidated]
          rw [hskip] at hrest
          rw [List.foldl_cons, hskip,
            List.filter_cons_of_neg (by rw [hliquidated]; decide)]
          exact ih hbalanced hrest
      | true =>
          have habsorbed := hbalanced.absorb (hclose hliquidated)
          have hstep : Balanced params mark initial (closes ++ [snapshot])
              (scanStep params mark state snapshot) := by
            rw [scanStep, if_pos hliquidated]
            exact ⟨habsorbed.deposits, habsorbed.shortfalls, habsorbed.balance⟩
          rw [List.foldl_cons, List.filter_cons_of_pos hliquidated, List.append_cons]
          exact ih hstep hrest

theorem scan_balanced {fund : InsuranceFund} {accounts : List AccountSnapshot}
    (hfits : ScanFits params mark ⟨fund, .default⟩ accounts) :
    Balanced params mark fund.balance.val (accounts.filter (liquidated params mark))
      (scan params mark fund accounts) := by
  have hstart : Balanced params mark fund.balance.val [] ⟨fund, .default⟩ := by
    refine ⟨rfl, rfl, ?_⟩
    simp [ScanReport.default]
  exact foldl_scanStep_balanced hstart hfits

theorem liquidated_eq (params : LiquidationParams) (mark : MarkPrice) :
    liquidated params mark = fun snapshot => decide (snapshot.positionSize ≠ 0 ∧
      (marginHealth snapshot mark params = .liquidatable ∨
        marginHealth snapshot mark params = .underwater)) := by
  funext snapshot
  rw [liquidated]
  cases marginHealth snapshot mark params <;> simp

theorem totalFees_perm {left right : List AccountSnapshot} (hperm : left.Perm right) :
    totalFees params mark left = totalFees params mark right :=
  (hperm.map _).sum_eq

theorem totalShortfalls_perm {left right : List AccountSnapshot}
    (hperm : left.Perm right) :
    totalShortfalls params mark left = totalShortfalls params mark right :=
  (hperm.map _).sum_eq

/-- The fees and shortfalls determine the balance less the deficit. -/
theorem Balanced.net {initial : ℤ} {closes : List AccountSnapshot} {state : ScanState}
    (hbalanced : Balanced params mark initial closes state) :
    state.fund.balance.val - state.report.unfilledDeficit.val =
      initial + totalFees params mark closes - totalShortfalls params mark closes := by
  obtain ⟨hdeposits, hshortfalls, hbalance⟩ := hbalanced
  omega

end Totals

/-- A scan in which no sum saturates reports exactly the open accounts below
maintenance margin, in order, with amounts that are not negative.  Its totals are
those of the records, they explain the balance of the fund, and the balance less
the deficit is the same for every order of the accounts. -/
theorem scan_settles (params : LiquidationParams) (mark : MarkPrice)
    (fund : InsuranceFund) (accounts : List AccountSnapshot)
    (hfits : ScanFits params mark ⟨fund, .default⟩ accounts) :
    let after := scan params mark fund accounts
    after.report.records = (accounts.filter fun snapshot => snapshot.positionSize ≠ 0 ∧
        (marginHealth snapshot mark params = .liquidatable ∨
          marginHealth snapshot mark params = .underwater)).map
        (liquidationRecord params mark) ∧
      (∀ record ∈ after.report.records, 0 ≤ record.outcome.feeToFund.val ∧
        0 ≤ record.outcome.left.val ∧ 0 ≤ record.outcome.shortfallToFund.val) ∧
      after.report.fundDeposits.val =
        (after.report.records.map fun record => record.outcome.feeToFund.val).sum ∧
      after.report.fundWithdrawals.val + after.report.unfilledDeficit.val =
        (after.report.records.map fun record =>
          record.outcome.shortfallToFund.val).sum ∧
      after.fund.balance.val = fund.balance.val + after.report.fundDeposits.val -
        after.report.fundWithdrawals.val ∧
      0 ≤ after.fund.balance.val ∧
      ∀ other : List AccountSnapshot, other.Perm accounts →
        ScanFits params mark ⟨fund, .default⟩ other →
        (scan params mark fund other).fund.balance.val -
            (scan params mark fund other).report.unfilledDeficit.val =
          after.fund.balance.val - after.report.unfilledDeficit.val := by
  intro after
  have hbalanced := scan_balanced hfits
  have hrecords := scan_records params mark fund accounts
  refine ⟨?_, ?_, ?_, ?_, hbalanced.balance, after.fund.nonneg, ?_⟩
  · rw [hrecords, liquidated_eq]
  · intro record hrecord
    rw [hrecords, List.mem_map] at hrecord
    obtain ⟨snapshot, -, rfl⟩ := hrecord
    exact closeOutcome_nonneg params mark snapshot
  · rw [hrecords, List.map_map]
    exact hbalanced.deposits
  · rw [hrecords, List.map_map]
    exact hbalanced.shortfalls
  · intro other hperm hotherFits
    have hclosed := hperm.filter (liquidated params mark)
    rw [(scan_balanced hotherFits).net, hbalanced.net, totalFees_perm hclosed,
      totalShortfalls_perm hclosed]

/-- In either order the fund ends 100 short of what it was asked for. -/
theorem scan_settles_bothOrders :
    ScanFits .hyperliquidDefault 90 ⟨.empty, .default⟩ [longTenUncovered, longTenThin] ∧
      (scan .hyperliquidDefault 90 .empty [longTenThin, longTenUncovered]).fund.balance.val -
          (scan .hyperliquidDefault 90 .empty
            [longTenThin, longTenUncovered]).report.unfilledDeficit.val =
        (scan .hyperliquidDefault 90 .empty
            [longTenUncovered, longTenThin]).fund.balance.val -
          (scan .hyperliquidDefault 90 .empty
            [longTenUncovered, longTenThin]).report.unfilledDeficit.val := by
  have hfits : ScanFits .hyperliquidDefault 90 ⟨.empty, .default⟩
      [longTenUncovered, longTenThin] := by decide +kernel
  obtain ⟨-, -, -, -, -, -, hperm⟩ := scan_settles .hyperliquidDefault 90 .empty _ hfits
  exact ⟨hfits, hperm [longTenThin, longTenUncovered] (List.Perm.swap _ _ _)
    (by decide +kernel)⟩

end OpenHl.Liquidation
