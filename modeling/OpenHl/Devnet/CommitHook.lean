import OpenHl.Evm.Bridge
import OpenHl.Node.Tick

/-!
# The commit hook

`bin/openhl`: after a block is committed, the hook snapshots the bridge's
accounts, ticks the coordinator and writes the report back into the account
map: funding settlements first, then liquidation records, then deleveraging
records.  All three lists were computed from the one snapshot.
-/

namespace OpenHl.Devnet

open Machine OpenHl.Clob OpenHl.Clearing OpenHl.Funding OpenHl.Liquidation OpenHl.Node
open OpenHl.Evm OpenHl.Oracle

/-! ## Snapshots -/

def snapshotOf (account : Account) : AccountSnapshot :=
  { account := account.account, positionSize := account.positionSize,
    avgEntry := account.avgEntry, collateral := account.collateral }

/-- The accounts in the order of their ids. -/
def accountsSnapshot (accounts : AccountMap) : List AccountSnapshot :=
  accounts.map.values.map snapshotOf

theorem accountsSnapshot_accounts (accounts : AccountMap) :
    (accountsSnapshot accounts).map AccountSnapshot.account =
      accounts.map.entries.map Prod.fst := by
  rw [accountsSnapshot, SortedMap.values, List.map_map, List.map_map]
  refine List.map_congr_left fun entry hentry => ?_
  exact accounts.keyed entry.1 entry.2
    ((SortedMap.get?_eq_some_iff accounts.map).2 hentry)

theorem accountsSnapshot_distinct (accounts : AccountMap) :
    ((accountsSnapshot accounts).map AccountSnapshot.account).Nodup := by
  rw [accountsSnapshot_accounts]
  exact accounts.map.sorted.imp fun hlt => hlt.ne

/-! ## Applying a report -/

def applySettlement (settlement : Settlement) (account : Account) : Account :=
  { account with collateral := account.collateral.saturatingAdd settlement.delta }

/-- The position is closed and the collateral is assigned, not adjusted. -/
def applyLiquidation (record : LiquidationRecord) (account : Account) : Account :=
  match record.outcome with
  | .solvent close =>
      { account with positionSize := 0, collateral := close.residualToAccount }
  | .underwater _ => { account with positionSize := 0, collateral := 0 }

/-- A position moved by a close order, whose quantity is clipped to `i64`. -/
def closedSize (order : CloseOrderSpec) (prevSize : I64) : I64 :=
  let qty := order.qty.toI64?.getD I64.maxValue
  match order.side with
  | .sell => prevSize.saturatingSub qty
  | .buy => prevSize.saturatingAdd qty

/-- The close order moves the position, and the paid profit the collateral. -/
def applyAdlRecord (record : AdlRecord) (account : Account) : Account :=
  { account with
    positionSize := closedSize record.closeOrder account.positionSize
    collateral := account.collateral.saturatingAdd record.pnlPaid }

theorem applySettlement_account (settlement : Settlement) (account : Account) :
    (applySettlement settlement account).account = account.account := rfl

theorem applyLiquidation_account (record : LiquidationRecord) (account : Account) :
    (applyLiquidation record account).account = account.account := by
  rw [applyLiquidation]
  cases record.outcome <;> rfl

theorem applyAdlRecord_account (record : AdlRecord) (account : Account) :
    (applyAdlRecord record account).account = account.account := rfl

def applyReport (accounts : AccountMap) (report : TickReport) : AccountMap :=
  let funded := accounts.modifyEach Settlement.account applySettlement
    applySettlement_account report.settlements
  let closed := funded.modifyEach (fun record => record.closeOrder.account)
    applyLiquidation applyLiquidation_account report.liquidation.records
  closed.modifyEach (fun record => record.closeOrder.account)
    applyAdlRecord applyAdlRecord_account report.adlRecords

/-! ## The hook -/

structure DevnetState where
  bridge : BridgeState
  node : OpenHlNode

/-- A decided block, with the publishers' observations for it. -/
structure CommittedBlock where
  height : U64
  blockTime : U64
  observations : List PriceObservation

/-- Observations that are rejected are skipped. -/
def ingestObservations (verify : PriceObservation → PublisherKey → Bool)
    (node : OpenHlNode) (block : CommittedBlock) : OpenHlNode :=
  block.observations.foldl (fun node observation =>
    match node.ingestSignedObservation verify observation block.blockTime with
    | .error _ => node
    | .ok ingested => ingested) node

/-- The input of the tick; a book without a midpoint is marked at 100. -/
def hookInput (checks : U64.OverflowChecks) (bridge : BridgeState) (node : OpenHlNode)
    (block : CommittedBlock) : Checked TickInput :=
  (currentMark checks bridge.clob).map fun mark =>
    { blockHeight := block.height
      blockTime := block.blockTime
      mark := mark.getD 100
      accountSnapshots := accountsSnapshot bridge.accounts
      vaultTotalAssets := node.vault.totalAssets }

def commitHook (checks : U64.OverflowChecks)
    (verify : PriceObservation → PublisherKey → Bool) (state : DevnetState)
    (block : CommittedBlock) : Checked DevnetState := do
  let node := ingestObservations verify state.node block
  let input ← hookInput checks state.bridge node block
  let (ticked, report) ← node.tick input
  return { bridge := { state.bridge with
             accounts := applyReport state.bridge.accounts report }
           node := ticked }

/-! ## What a report does to one account -/

/-- The changes that the three lists make to the account under a key. -/
def reportEffect (report : TickReport) (key : AccountId) (account : Account) :
    Account :=
  AccountMap.changesOf (fun record => record.closeOrder.account) applyAdlRecord
    report.adlRecords key
    (AccountMap.changesOf (fun record => record.closeOrder.account) applyLiquidation
      report.liquidation.records key
      (AccountMap.changesOf Settlement.account applySettlement
        report.settlements key account))

theorem applyReport_entries (accounts : AccountMap) (report : TickReport) :
    (applyReport accounts report).map.entries =
      accounts.map.entries.map fun entry =>
        (entry.1, reportEffect report entry.1 entry.2) := by
  simp only [applyReport, AccountMap.modifyEach_entries, List.map_map]
  rfl

theorem applyReport_get? (accounts : AccountMap) (report : TickReport)
    (key : AccountId) :
    (applyReport accounts report).get? key =
      (accounts.get? key).map (reportEffect report key) := by
  cases hget : accounts.get? key with
  | none =>
      rw [Option.map_none]
      cases hafter : (applyReport accounts report).get? key with
      | none => rfl
      | some after =>
          have hmem := (SortedMap.get?_eq_some_iff _).1 hafter
          rw [applyReport_entries] at hmem
          obtain ⟨entry, hentry, heq⟩ := List.mem_map.1 hmem
          have hkey : entry.1 = key := congrArg Prod.fst heq
          have hfound := (SortedMap.get?_eq_some_iff accounts.map).2 hentry
          rw [hkey] at hfound
          exact absurd (hfound.symm.trans hget) (by simp)
  | some account =>
      have hmem := (SortedMap.get?_eq_some_iff _).1 hget
      apply (SortedMap.get?_eq_some_iff _).2
      rw [applyReport_entries]
      exact List.mem_map_of_mem hmem

/-! ## The records of one account -/

def settlementFor (report : TickReport) (key : AccountId) : Option Settlement :=
  report.settlements.find? fun settlement => settlement.account = key

def liquidationFor (report : TickReport) (key : AccountId) :
    Option LiquidationRecord :=
  report.liquidation.records.find? fun record => record.closeOrder.account = key

def adlFor (report : TickReport) (key : AccountId) : Option AdlRecord :=
  report.adlRecords.find? fun record => record.closeOrder.account = key

/-- What a report settles for an account, zero without a settlement. -/
def fundingDelta (report : TickReport) (key : AccountId) : I64 :=
  ((settlementFor report key).map Settlement.delta).getD 0

/-- An account after the settlements. -/
def fundedAccount (report : TickReport) (key : AccountId) (account : Account) :
    Account :=
  { account with
    collateral := account.collateral.saturatingAdd (fundingDelta report key) }

/-- An account after the settlements and the liquidations. -/
def closedAccount (report : TickReport) (key : AccountId) (account : Account) :
    Account :=
  let funded := fundedAccount report key account
  ((liquidationFor report key).map fun record => applyLiquidation record funded).getD
    funded

section Tick

variable {node after : OpenHlNode} {input : TickInput} {report : TickReport}

theorem liquidationRecords_distinct (htick : node.tick input = .ok (after, report))
    (hdistinct : (input.accountSnapshots.map AccountSnapshot.account).Nodup) :
    (report.liquidation.records.map fun record => record.closeOrder.account).Nodup := by
  rw [OpenHlNode.tick_liquidation_records htick, List.map_map]
  exact hdistinct.sublist (List.filter_sublist.map _)

/-- The three lists of a report hold at most one record per account. -/
theorem reportEffect_eq (htick : node.tick input = .ok (after, report))
    (hdistinct : (input.accountSnapshots.map AccountSnapshot.account).Nodup)
    (key : AccountId) (account : Account) :
    reportEffect report key account =
      let closed := closedAccount report key account
      ((adlFor report key).map fun record => applyAdlRecord record closed).getD
        closed := by
  have hsettlements :=
    hdistinct.sublist (OpenHlNode.tick_settlements_accounts htick)
  have hliquidations := liquidationRecords_distinct htick hdistinct
  have hadl := OpenHlNode.tick_adlRecords_distinct htick hdistinct
  have hfunded : AccountMap.changesOf Settlement.account applySettlement
      report.settlements key account = fundedAccount report key account := by
    rw [AccountMap.changesOf_eq_find? hsettlements, fundedAccount, fundingDelta,
      settlementFor]
    cases report.settlements.find? fun settlement => settlement.account = key with
    | none => simp
    | some settlement => rfl
  rw [reportEffect, AccountMap.changesOf_eq_find? hadl,
    AccountMap.changesOf_eq_find? hliquidations, hfunded]
  rfl

theorem snapshot_eq_of_account
    (hdistinct : (input.accountSnapshots.map AccountSnapshot.account).Nodup)
    {left right : AccountSnapshot} (hleft : left ∈ input.accountSnapshots)
    (hright : right ∈ input.accountSnapshots)
    (haccount : left.account = right.account) : left = right :=
  List.inj_on_of_nodup_map hdistinct hleft hright haccount

variable {snapshot : AccountSnapshot}

theorem liquidationFor_eq (htick : node.tick input = .ok (after, report))
    (hdistinct : (input.accountSnapshots.map AccountSnapshot.account).Nodup)
    (hmem : snapshot ∈ input.accountSnapshots) :
    liquidationFor report snapshot.account =
      if node.liquidates input snapshot then
        some (liquidationRecord node.scanner.params (node.markFor input) snapshot)
      else none := by
  rw [liquidationFor, OpenHlNode.tick_liquidation_records htick, List.find?_map]
  cases hfind : (input.accountSnapshots.filter (node.liquidates input)).find?
      ((fun record : LiquidationRecord => decide (record.closeOrder.account =
        snapshot.account)) ∘ liquidationRecord node.scanner.params
          (node.markFor input)) with
  | none =>
      rw [List.find?_eq_none] at hfind
      split_ifs with hliquidates
      · have hother := hfind snapshot (List.mem_filter.2 ⟨hmem, hliquidates⟩)
        simp [liquidationRecord, closeOrderSpec] at hother
      · rfl
  | some found =>
      have hfound := List.mem_filter.1 (List.mem_of_find?_eq_some hfind)
      have hrecord := List.find?_some hfind
      have haccount : found.account = snapshot.account := of_decide_eq_true hrecord
      obtain rfl := snapshot_eq_of_account hdistinct hfound.1 hmem haccount
      rw [if_pos hfound.2]
      rfl

/-- An account is deleveraged exactly if the report has a record for it, whose
order closes the snapshot's position. -/
theorem adlFor_cases (htick : node.tick input = .ok (after, report))
    (hdistinct : (input.accountSnapshots.map AccountSnapshot.account).Nodup)
    (hmem : snapshot ∈ input.accountSnapshots) :
    (node.Deleverages input snapshot ∧
      ∃ record, adlFor report snapshot.account = some record ∧
        record.closeOrder = closeOrderSpec snapshot) ∨
    (¬ node.Deleverages input snapshot ∧ adlFor report snapshot.account = none) := by
  have horders := OpenHlNode.mem_tick_closeOrders htick hdistinct
  cases hfind : adlFor report snapshot.account with
  | none =>
      refine Or.inr ⟨fun hdeleverages => ?_, rfl⟩
      obtain ⟨record, hrecord, horder⟩ := List.mem_map.1
        ((horders (closeOrderSpec snapshot)).2 ⟨snapshot, hmem, hdeleverages, rfl⟩)
      have hnone := List.find?_eq_none.1 hfind record hrecord
      rw [horder] at hnone
      simp [closeOrderSpec] at hnone
  | some record =>
      have hrecord := List.mem_of_find?_eq_some hfind
      have haccount : record.closeOrder.account = snapshot.account := by
        simpa using List.find?_some hfind
      obtain ⟨other, hother, hdeleverages, horder⟩ :=
        (horders record.closeOrder).1 (List.mem_map_of_mem hrecord)
      rw [horder] at haccount
      obtain rfl := snapshot_eq_of_account hdistinct hother hmem haccount
      exact Or.inl ⟨hdeleverages, record, rfl, horder⟩

end Tick

/-! ## Position sizes -/

/-- The position that a close order of the snapshot takes away: all of it, but
one contract of the least signed word. -/
def clippedSize (snapshot : AccountSnapshot) : ℤ :=
  max snapshot.positionSize.val (-(2 ^ 63 - 1))

theorem closedSize_closeOrderSpec (snapshot : AccountSnapshot) (prevSize : I64) :
    closedSize (closeOrderSpec snapshot) prevSize =
      .saturate (prevSize.val - clippedSize snapshot) := by
  have hlower := snapshot.positionSize.lower
  have hupper := snapshot.positionSize.upper
  have hqty : ((snapshot.positionSize.unsignedAbs.toI64?).getD I64.maxValue).val =
      (clippedSize snapshot).natAbs := by
    rw [U64.toI64?, clippedSize]
    split_ifs with hfits
    · rw [I64.unsignedAbs_val] at hfits
      simp only [Option.getD_some, I64.unsignedAbs_val]
      omega
    · rw [I64.unsignedAbs_val] at hfits
      simp only [Option.getD_none, I64.maxValue_val]
      omega
  rw [closedSize, closeOrderSpec]
  simp only
  split_ifs with hlong
  · simp only [I64.saturatingSub, hqty, clippedSize]
    congr 1
    omega
  · simp only [I64.saturatingAdd, hqty, clippedSize]
    congr 1
    omega

section Tick

variable {node after : OpenHlNode} {input : TickInput} {report : TickReport}
  {snapshot : AccountSnapshot}

instance (node : OpenHlNode) (input : TickInput) (snapshot : AccountSnapshot) :
    Decidable (node.Deleverages input snapshot) :=
  inferInstanceAs (Decidable (_ ∧ _))

theorem closedAccount_positionSize (htick : node.tick input = .ok (after, report))
    (hdistinct : (input.accountSnapshots.map AccountSnapshot.account).Nodup)
    (hmem : snapshot ∈ input.accountSnapshots) {account : Account}
    (hsnapshot : snapshotOf account = snapshot) :
    (closedAccount report snapshot.account account).positionSize.val =
      if node.liquidates input snapshot then 0 else snapshot.positionSize.val := by
  rw [closedAccount, liquidationFor_eq htick hdistinct hmem]
  split_ifs
  · simp only [Option.map_some, Option.getD_some, applyLiquidation]
    split <;> rfl
  · rw [← hsnapshot]
    rfl

/-- A liquidation takes the whole position away and a deleveraging the clipped
one, each on its own. -/
theorem reportEffect_positionSize (htick : node.tick input = .ok (after, report))
    (hdistinct : (input.accountSnapshots.map AccountSnapshot.account).Nodup)
    (hmem : snapshot ∈ input.accountSnapshots) {account : Account}
    (hsnapshot : snapshotOf account = snapshot) :
    (reportEffect report snapshot.account account).positionSize.val =
      (if node.liquidates input snapshot then 0 else snapshot.positionSize.val) -
        (if node.Deleverages input snapshot then clippedSize snapshot else 0) := by
  have hlower := snapshot.positionSize.lower
  have hupper := snapshot.positionSize.upper
  have hclosed := closedAccount_positionSize htick hdistinct hmem hsnapshot
  rw [reportEffect_eq htick hdistinct]
  rcases adlFor_cases htick hdistinct hmem with
    ⟨hdeleverages, record, hrecord, horder⟩ | ⟨hkept, hrecord⟩
  · simp only [hrecord, if_pos hdeleverages, Option.map_some, Option.getD_some,
      applyAdlRecord, horder, closedSize_closeOrderSpec, hclosed]
    apply I64.saturate_val_of_inI64
    rw [InI64, clippedSize]
    split_ifs <;> omega
  · simp only [hrecord, if_neg hkept, Option.map_none, Option.getD_none, sub_zero,
      hclosed]

end Tick

end OpenHl.Devnet
