import OpenHl.Core.Keyed
import OpenHl.Devnet.Collateral
import OpenHl.Devnet.OpenInterest
import OpenHl.Liquidation.Absorption
import OpenHl.Liquidation.Classification
import OpenHl.Liquidation.FundFlow

/-!
# The books of a block

A committed block moves value in two places: the insurance fund in the coordinator and
the accounts in the bridge, all of it computed from one snapshot at one mark.  If nothing
clips, the two together change by the funding of the accounts that stay open, the part of
the deficit that nobody absorbs, the fees that the fund pays to itself, and the mark of
the contracts that are closed against nobody.
-/

namespace OpenHl.Devnet

open Machine OpenHl.Clob OpenHl.Clearing OpenHl.Funding OpenHl.Liquidation OpenHl.Node
open OpenHl.Evm OpenHl.Oracle

/-- What all accounts and the insurance fund are worth at a mark. -/
def systemValue (mark : ℤ) (accounts : AccountMap) (fund : InsuranceFund) : ℤ :=
  totalEquity mark accounts + fund.balance.val

/-! ## Another mark -/

theorem equityAt_shift (account : Account) (mark other : ℤ) :
    account.equityAt mark =
      account.equityAt other + (mark - other) * account.positionSize.val := by
  rw [Account.equityAt, Account.equityAt]
  ring

/-- Between two marks the open contracts make the difference. -/
theorem totalEquity_shift (mark other : ℤ) (accounts : AccountMap) :
    totalEquity mark accounts =
      totalEquity other accounts + (mark - other) * netSize accounts := by
  rw [totalEquity, totalEquity, netSize, AccountMap.total, AccountMap.total,
    AccountMap.total, SortedMap.sumBy, SortedMap.sumBy, SortedMap.sumBy,
    ← List.sum_map_mul_left, ← List.sum_map_add]
  exact congrArg List.sum (List.map_congr_left fun entry _ =>
    equityAt_shift entry.2 mark other)

/-! ## One account -/

/-- What the deleveraging takes from the profit of an account. -/
def haircutFor (report : TickReport) : AccountId → ℤ :=
  Keyed.amountAt (fun record : AdlRecord => record.closeOrder.account)
    (fun record => record.haircut.val) report.adlRecords

/-- What a block changes in the equity of an account: a liquidated one keeps what its
outcome leaves, any other one receives its funding and loses its haircut. -/
def bookedFor (node : OpenHlNode) (input : TickInput) (report : TickReport)
    (snapshot : AccountSnapshot) : ℤ :=
  (if node.liquidates input snapshot then
      -lostEquity node.scanner.params (node.markFor input) snapshot
    else (fundingDelta report snapshot.account).val) - haircutFor report snapshot.account

/-- The report changes the equity of the account by what is booked for it. -/
def EquityBooked (node : OpenHlNode) (input : TickInput) (report : TickReport)
    (account : Account) : Prop :=
  (reportEffect report account.account account).equityAt (node.markFor input).val =
    account.equityAt (node.markFor input).val +
      bookedFor node input report (snapshotOf account)

/-- No operation of the block clips its result, and no account is closed twice. -/
structure ExactBlock (node : OpenHlNode) (input : TickInput) (report : TickReport) :
    Prop where
  scan : ScanExact node.scanner.params (node.markFor input) ⟨node.scanner.fund, .default⟩
    input.accountSnapshots
  disjoint : DisjointRecords report
  closed : ∀ snapshot ∈ input.accountSnapshots, node.liquidates input snapshot = true →
    InI64 (exactPnl snapshot (node.markFor input)) ∧
      InI64 (exactEquity snapshot (node.markFor input))
  deleveraged : ∀ snapshot ∈ input.accountSnapshots, node.Deleverages input snapshot →
    InI64 (exactPnl snapshot (node.markFor input)) ∧
      snapshot.positionSize ≠ I64.minValue
  kept : ∀ snapshot ∈ input.accountSnapshots, node.liquidates input snapshot ≠ true →
    InI64 (snapshot.collateral.val + (fundingDelta report snapshot.account).val) ∧
      InI64 (snapshot.collateral.val + (fundingDelta report snapshot.account).val +
        (paidProfit report snapshot.account).val)

@[simp] theorem snapshotOf_account (account : Account) :
    (snapshotOf account).account = account.account := rfl

@[simp] theorem snapshotOf_positionSize (account : Account) :
    (snapshotOf account).positionSize = account.positionSize := rfl

@[simp] theorem snapshotOf_collateral (account : Account) :
    (snapshotOf account).collateral = account.collateral := rfl

theorem equityAt_eq_exactEquity (account : Account) (mark : MarkPrice) :
    account.equityAt mark.val = exactEquity (snapshotOf account) mark := rfl

theorem unrealizedPnl_val_of_inI64 {snapshot : AccountSnapshot} {mark : MarkPrice}
    (hpnl : InI64 (exactPnl snapshot mark)) :
    (Liquidation.unrealizedPnl snapshot mark).val = exactPnl snapshot mark := by
  rw [Liquidation.unrealizedPnl, saturate_saturateI128, mul_comm]
  exact I64.saturate_val_of_inI64 hpnl

section Tick

variable {node after : OpenHlNode} {input : TickInput} {report : TickReport}

/-- A deleveraging record pays the profit of its snapshot, less the haircut. -/
theorem adlRecord_paid (htick : node.tick input = .ok (after, report))
    (hdistinct : (input.accountSnapshots.map AccountSnapshot.account).Nodup)
    {snapshot : AccountSnapshot} (hmem : snapshot ∈ input.accountSnapshots)
    {record : AdlRecord} (hrecord : record ∈ report.adlRecords)
    (haccount : record.closeOrder.account = snapshot.account) :
    record.pnlPaid.val =
      (Liquidation.unrealizedPnl snapshot (node.markFor input)).val - record.haircut.val := by
  rw [OpenHlNode.tick_adlRecords htick] at hrecord
  split_ifs at hrecord
  · rw [executeAdl_records] at hrecord
    have hgross := rankedCandidates_gross input.accountSnapshots (node.markFor input)
    obtain ⟨left, -, candidate, hcandidate, rfl⟩ := mem_adlRecords hrecord
    obtain ⟨other, hother, hsome⟩ := mem_rankedCandidates.1 hcandidate
    obtain ⟨rfl, hprofit⟩ := adlCandidate?_eq_some hsome
    have hsame : candidate.snapshot = snapshot :=
      snapshot_eq_of_account hdistinct hother hmem haccount
    rw [adlRecords_pnlPaid hgross hrecord, ← hsame, ← hprofit]
    rfl
  · exact absurd hrecord List.not_mem_nil

theorem reportEffect_avgEntry (htick : node.tick input = .ok (after, report))
    (hdistinct : (input.accountSnapshots.map AccountSnapshot.account).Nodup)
    (key : AccountId) (account : Account) :
    (reportEffect report key account).avgEntry = account.avgEntry := by
  have hclosed : (closedAccount report key account).avgEntry = account.avgEntry := by
    rw [closedAccount]
    cases liquidationFor report key with
    | none => rfl
    | some record =>
        simp only [Option.map_some, Option.getD_some, applyLiquidation]
        cases record.outcome <;> rfl
  rw [reportEffect_eq htick hdistinct]
  cases adlFor report key with
  | none => exact hclosed
  | some record => exact hclosed

theorem haircutFor_of_adlFor {key : AccountId} {record : AdlRecord}
    (hrecord : adlFor report key = some record) :
    haircutFor report key = record.haircut.val := by
  change ((adlFor report key).map _).getD 0 = _
  rw [hrecord]
  rfl

theorem haircutFor_of_none {key : AccountId} (hnone : adlFor report key = none) :
    haircutFor report key = 0 := by
  change ((adlFor report key).map _).getD 0 = _
  rw [hnone]
  rfl

variable {account : Account}

/-- A liquidated account is left with what its outcome leaves. -/
theorem reportEffect_equity_of_liquidated
    (htick : node.tick input = .ok (after, report))
    (hdistinct : (input.accountSnapshots.map AccountSnapshot.account).Nodup)
    (hexact : ExactBlock node input report)
    (hmem : snapshotOf account ∈ input.accountSnapshots)
    (hliquidated : node.liquidates input (snapshotOf account) = true) :
    EquityBooked node input report account := by
  have hrecord := liquidationFor_eq htick hdistinct hmem
  rw [if_pos hliquidated, snapshotOf_account] at hrecord
  have hnone := adlFor_eq_none htick hexact.disjoint hrecord
  have hkept : ¬ node.Deleverages input (snapshotOf account) := by
    intro hdeleverages
    obtain ⟨-, record, hsome, -⟩ | ⟨hkept, -⟩ := adlFor_cases htick hdistinct hmem
    · rw [snapshotOf_account, hnone] at hsome
      cases hsome
    · exact hkept hdeleverages
  have hsize := reportEffect_positionSize htick hdistinct hmem rfl
  rw [if_pos hliquidated, if_neg hkept, sub_zero, snapshotOf_account] at hsize
  have hleft := reportEffect_collateral htick hdistinct hexact.disjoint account
  simp only [hrecord] at hleft
  obtain ⟨hpnl, hequity⟩ := hexact.closed _ hmem hliquidated
  have hvalue := accountEquity_val_of_inI64 hpnl hequity
  rw [EquityBooked, bookedFor, if_pos hliquidated, snapshotOf_account,
    haircutFor_of_none hnone, lostEquity, hvalue, equityAt_eq_exactEquity account, Account.equityAt, hsize, hleft,
    liquidationRecord]
  ring

/-- A deleveraged account is paid its profit less the haircut. -/
theorem reportEffect_of_deleveraged
    (htick : node.tick input = .ok (after, report))
    (hdistinct : (input.accountSnapshots.map AccountSnapshot.account).Nodup)
    (hexact : ExactBlock node input report)
    (hmem : snapshotOf account ∈ input.accountSnapshots)
    (hdeleverages : node.Deleverages input (snapshotOf account))
    (hsize : (reportEffect report account.account account).positionSize.val =
      account.positionSize.val - clippedSize (snapshotOf account))
    {record : AdlRecord} (hrecord : adlFor report account.account = some record) :
    (reportEffect report account.account account).positionSize.val = 0 ∧
      (paidProfit report account.account).val = account.positionSize.val *
        ((node.markFor input).val - account.avgEntry.val) -
          haircutFor report account.account := by
  obtain ⟨hpnl, hleast⟩ := hexact.deleveraged _ hmem hdeleverages
  have hlower := account.positionSize.lower
  have habove : account.positionSize.val ≠ -2 ^ 63 := fun heq => hleast (I64.ext heq)
  have hclipped : clippedSize (snapshotOf account) = account.positionSize.val := by
    rw [clippedSize, snapshotOf_positionSize]
    omega
  have hkey : record.closeOrder.account = account.account := by
    simpa using List.find?_some hrecord
  have hpaid := adlRecord_paid htick hdistinct hmem (List.mem_of_find?_eq_some hrecord) hkey
  rw [unrealizedPnl_val_of_inI64 hpnl] at hpaid
  refine ⟨by rw [hsize, hclipped, sub_self], ?_⟩
  rw [haircutFor_of_adlFor hrecord, paidProfit, hrecord]
  exact hpaid

/-- An account that is not liquidated receives its funding and loses its haircut. -/
theorem reportEffect_equity_of_kept (htick : node.tick input = .ok (after, report))
    (hdistinct : (input.accountSnapshots.map AccountSnapshot.account).Nodup)
    (hexact : ExactBlock node input report)
    (hmem : snapshotOf account ∈ input.accountSnapshots)
    (hkept : node.liquidates input (snapshotOf account) ≠ true) :
    EquityBooked node input report account := by
  have hrecord := liquidationFor_eq htick hdistinct hmem
  rw [if_neg hkept, snapshotOf_account] at hrecord
  obtain ⟨hfunded, hpaid⟩ := hexact.kept _ hmem hkept
  rw [snapshotOf_account, snapshotOf_collateral] at hfunded hpaid
  have hcollateral := reportEffect_collateral htick hdistinct hexact.disjoint account
  simp only [hrecord] at hcollateral
  have hfirst := I64.saturatingAdd_val_of_inI64 hfunded
  rw [← hfirst] at hpaid
  have hsettled := I64.saturatingAdd_val_of_inI64 hpaid
  rw [← hcollateral, hfirst] at hsettled
  have hsize := reportEffect_positionSize htick hdistinct hmem rfl
  rw [if_neg hkept, snapshotOf_account, snapshotOf_positionSize] at hsize
  rw [EquityBooked, bookedFor, if_neg hkept, snapshotOf_account, Account.equityAt,
    Account.equityAt, hsettled]
  obtain ⟨hdeleverages, record, hsome, -⟩ | ⟨hstays, hnone⟩ :=
    adlFor_cases htick hdistinct hmem
  · rw [if_pos hdeleverages] at hsize
    obtain ⟨hflat, hprofit⟩ := reportEffect_of_deleveraged htick hdistinct hexact
      hmem hdeleverages hsize hsome
    rw [hflat, hprofit]
    ring
  · rw [if_neg hstays, sub_zero] at hsize
    rw [snapshotOf_account] at hnone
    rw [hsize, haircutFor_of_none hnone, paidProfit, hnone,
      reportEffect_avgEntry htick hdistinct, Option.map_none, Option.getD_none, I64.zero_val]
    ring

theorem reportEffect_equity (htick : node.tick input = .ok (after, report))
    (hdistinct : (input.accountSnapshots.map AccountSnapshot.account).Nodup)
    (hexact : ExactBlock node input report)
    (hmem : snapshotOf account ∈ input.accountSnapshots) :
    EquityBooked node input report account := by
  by_cases hliquidates : node.liquidates input (snapshotOf account) = true
  · exact reportEffect_equity_of_liquidated htick hdistinct hexact hmem hliquidates
  · exact reportEffect_equity_of_kept htick hdistinct hexact hmem hliquidates

/-! ## The block -/

/-- What the accounts that stay open receive from funding. -/
def blockFunding (node : OpenHlNode) (input : TickInput) (report : TickReport) : ℤ :=
  ((input.accountSnapshots.filter fun snapshot => ¬ node.liquidates input snapshot).map
    fun snapshot => (fundingDelta report snapshot.account).val).sum

/-- The part of the deficit that neither the fund nor a haircut covers. -/
def unabsorbed (report : TickReport) : ℤ :=
  report.liquidation.unfilledDeficit.val - haircutSum report.adlRecords

/-- The fees that the fund pays to itself as part of a shortfall. -/
def uncollected (node : OpenHlNode) (input : TickInput) : ℤ :=
  ((input.accountSnapshots.filter (node.liquidates input)).map
    (uncollectedFee node.scanner.params (node.markFor input))).sum

theorem uncollected_nonneg (node : OpenHlNode) (input : TickInput) :
    0 ≤ uncollected node input := by
  apply List.sum_nonneg
  intro fee hfee
  obtain ⟨snapshot, -, rfl⟩ := List.mem_map.1 hfee
  have hdesired := desiredFee_nonneg node.scanner.params (node.markFor input) snapshot
  rw [uncollectedFee, closeOutcome]
  split_ifs with hsolvent
  · exact le_refl 0
  · simp only [underwaterCloseOutcome]
    split_ifs
    · omega
    · exact sub_nonneg.2 hdesired

theorem uncoveredDeficit_nonneg (params : LiquidationParams) (mark : MarkPrice)
    (fund : InsuranceFund) {deficit : I64} (hdeficit : 0 ≤ deficit.val)
    (closes : List AccountSnapshot) :
    0 ≤ (uncoveredDeficit params mark fund deficit closes).val := by
  induction closes generalizing fund deficit with
  | nil => exact hdeficit
  | cons snapshot rest ih =>
      have hmissing : 0 ≤ (closeDeficit params mark fund snapshot).val := by
        rw [(fundAfterClose_step params mark fund snapshot).2]
        exact Reservoir.missing_nonneg _ _
      apply ih
      rw [I64.saturatingAdd_val]
      omega

/-- The haircuts take no more than the deficit. -/
theorem unabsorbed_nonneg (htick : node.tick input = .ok (after, report)) :
    0 ≤ unabsorbed report := by
  have hdeficit : 0 ≤ (node.deficitFor input).val :=
    uncoveredDeficit_nonneg _ _ _ (le_refl 0) _
  rw [unabsorbed, OpenHlNode.tick_unfilledDeficit htick, OpenHlNode.tick_adlRecords htick,
    sub_nonneg]
  split_ifs
  · rw [executeAdl_records]
    exact (adlRecords_fills (rankedCandidates_gross _ _) _).sum_given_le hdeficit
  · exact hdeficit

/-- Every haircut is taken from one of the accounts. -/
theorem sum_haircutFor (htick : node.tick input = .ok (after, report))
    (hdistinct : (input.accountSnapshots.map AccountSnapshot.account).Nodup) :
    (input.accountSnapshots.map fun snapshot => haircutFor report snapshot.account).sum =
      haircutSum report.adlRecords := by
  have hfound : ∀ record ∈ report.adlRecords, record.closeOrder.account ∈
      input.accountSnapshots.map AccountSnapshot.account := by
    intro record hrecord
    obtain ⟨snapshot, hsnapshot, -, horder⟩ :=
      (OpenHlNode.mem_tick_closeOrders htick hdistinct record.closeOrder).1
        (List.mem_map_of_mem hrecord)
    rw [horder]
    exact List.mem_map_of_mem hsnapshot
  calc
    (input.accountSnapshots.map fun snapshot => haircutFor report snapshot.account).sum =
        ((input.accountSnapshots.map AccountSnapshot.account).map
          (haircutFor report)).sum := by
      rw [List.map_map]
      rfl
    _ = haircutSum report.adlRecords :=
      Keyed.sum_amountAt hdistinct
        (OpenHlNode.tick_adlRecords_distinct htick hdistinct) hfound

theorem sum_bookedFor (htick : node.tick input = .ok (after, report))
    (hdistinct : (input.accountSnapshots.map AccountSnapshot.account).Nodup) :
    (input.accountSnapshots.map (bookedFor node input report)).sum =
      blockFunding node input report - haircutSum report.adlRecords -
        ((input.accountSnapshots.filter (node.liquidates input)).map
          (lostEquity node.scanner.params (node.markFor input))).sum := by
  have hlost := Keyed.sum_map_filter (fun snapshot => node.liquidates input snapshot = true)
    (lostEquity node.scanner.params (node.markFor input)) input.accountSnapshots
  have hfunding := Keyed.sum_map_filter
    (fun snapshot => ¬ node.liquidates input snapshot = true)
    (fun snapshot => (fundingDelta report snapshot.account).val) input.accountSnapshots
  simp only [Bool.decide_eq_true] at hlost
  have hsplit : (input.accountSnapshots.map (bookedFor node input report)).sum +
      haircutSum report.adlRecords +
      ((input.accountSnapshots.filter (node.liquidates input)).map
        (lostEquity node.scanner.params (node.markFor input))).sum =
      blockFunding node input report := by
    rw [blockFunding, hlost, hfunding, ← sum_haircutFor htick hdistinct,
      ← List.sum_map_add, ← List.sum_map_add]
    apply congrArg List.sum
    apply List.map_congr_left
    intro snapshot _
    rw [bookedFor]
    by_cases hliquidates : node.liquidates input snapshot = true
    · rw [if_pos hliquidates, if_pos hliquidates, if_neg (not_not.2 hliquidates)]
      ring
    · rw [if_neg hliquidates, if_neg hliquidates, if_pos hliquidates]
      ring
  linarith

theorem totalEquity_applyReport {accounts : AccountMap}
    (hsnapshots : input.accountSnapshots = accountsSnapshot accounts)
    (htick : node.tick input = .ok (after, report))
    (hexact : ExactBlock node input report) :
    totalEquity (node.markFor input).val (applyReport accounts report) =
      totalEquity (node.markFor input).val accounts +
        (input.accountSnapshots.map (bookedFor node input report)).sum := by
  have hdistinct : (input.accountSnapshots.map AccountSnapshot.account).Nodup := by
    rw [hsnapshots]
    exact accountsSnapshot_distinct accounts
  have hentries : (input.accountSnapshots.map (bookedFor node input report)).sum =
      (accounts.map.entries.map fun entry =>
        bookedFor node input report (snapshotOf entry.2)).sum := by
    rw [hsnapshots, accountsSnapshot, SortedMap.values, List.map_map, List.map_map]
    rfl
  rw [hentries, totalEquity, totalEquity, AccountMap.total, AccountMap.total,
    SortedMap.sumBy, SortedMap.sumBy, applyReport_entries, List.map_map, ← List.sum_map_add]
  apply congrArg List.sum
  apply List.map_congr_left
  intro entry hentry
  have hget := (SortedMap.get?_eq_some_iff accounts.map).2 hentry
  have hmem : snapshotOf entry.2 ∈ input.accountSnapshots := by
    rw [hsnapshots]
    exact List.mem_map_of_mem (List.mem_map_of_mem hentry)
  rw [Function.comp_apply, ← accounts.keyed entry.1 entry.2 hget]
  exact reportEffect_equity htick hdistinct hexact hmem

theorem tick_fund (htick : node.tick input = .ok (after, report))
    (hexact : ExactBlock node input report) :
    after.scanner.fund.balance.val = node.scanner.fund.balance.val +
      ((input.accountSnapshots.filter (node.liquidates input)).map
        (lostEquity node.scanner.params (node.markFor input))).sum +
      report.liquidation.unfilledDeficit.val - uncollected node input := by
  have hvalue := foldl_scanStep_value hexact.scan
  have hliquidates : liquidated node.scanner.params (node.markFor input) =
      node.liquidates input := rfl
  have hfund : after.scanner.fund = (scan node.scanner.params (node.markFor input)
      node.scanner.fund input.accountSnapshots).fund := by
    obtain ⟨clock, funding, -, rfl, -⟩ := OpenHlNode.tick_eq_ok htick
    rfl
  rw [hliquidates] at hvalue
  rw [hfund, OpenHlNode.tick_liquidation htick, scan, uncollected]
  simp only [ScanReport.default, I64.zero_val] at hvalue ⊢
  omega

/-- A block changes the value of the system at any mark by the funding of the accounts
that stay open, the deficit that nobody absorbs, the fees that nobody receives, and the
contracts that are closed against nobody, from the mark of the scan to the given one. -/
theorem systemValue_applyReport {accounts : AccountMap}
    (hsnapshots : input.accountSnapshots = accountsSnapshot accounts)
    (htick : node.tick input = .ok (after, report))
    (hexact : ExactBlock node input report) (mark : ℤ) :
    systemValue mark (applyReport accounts report) after.scanner.fund =
      systemValue mark accounts node.scanner.fund + blockFunding node input report +
        unabsorbed report - uncollected node input -
          (mark - (node.markFor input).val) * forcedNetSize node input := by
  have hdistinct : (input.accountSnapshots.map AccountSnapshot.account).Nodup := by
    rw [hsnapshots]
    exact accountsSnapshot_distinct accounts
  have hbooked := sum_bookedFor htick hdistinct
  have haccounts := totalEquity_applyReport hsnapshots htick hexact
  have hfund := tick_fund htick hexact
  have hsizes := netSize_applyReport hsnapshots htick
  rw [systemValue, systemValue, totalEquity_shift mark (node.markFor input).val,
    totalEquity_shift mark (node.markFor input).val accounts, haccounts, hbooked, hfund,
    ← hsizes, unabsorbed]
  ring

end Tick

end OpenHl.Devnet
