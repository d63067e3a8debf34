import OpenHl.Devnet.CommitHook
import OpenHl.Evm.Margin

/-!
# Margin health and the liquidations of a tick

The bridge, the coordinator and the commit hook choose the mark on their own:
the bridge prefers the pushed index to the midpoint, the tick the fresh index to
the mark of its input, and the hook the midpoint to the stub mark of 100.

`commitTick_liquidates_iff`: the tick closes exactly the accounts that the
bridge's margin health flags once the fresh index is pushed; without an index and
a midpoint, those that it flags at the stub mark.
-/

namespace OpenHl.Devnet

open Machine OpenHl.Clob OpenHl.Clearing OpenHl.Funding OpenHl.Liquidation OpenHl.Node
open OpenHl.Evm OpenHl.Oracle

/-- The tick that the commit hook runs. -/
def commitTick (checks : U64.OverflowChecks)
    (verify : PriceObservation → PublisherKey → Bool) (bridge : BridgeState)
    (node : OpenHlNode) (block : CommittedBlock) : Checked (OpenHlNode × TickReport) := do
  let ingested := ingestObservations verify node block
  let input ← hookInput checks bridge ingested block
  ingested.tick input

theorem commitHook_eq (checks : U64.OverflowChecks)
    (verify : PriceObservation → PublisherKey → Bool) (state : DevnetState)
    (block : CommittedBlock) :
    commitHook checks verify state block =
      (commitTick checks verify state.bridge state.node block).map fun result =>
        { bridge := { state.bridge with
            accounts := applyReport state.bridge.accounts result.2 }
          node := result.1 } := by
  rw [commitHook, commitTick]
  dsimp only
  cases hookInput checks state.bridge (ingestObservations verify state.node block)
      block with
  | error fault => rfl
  | ok input =>
      simp only [ok_bind]
      cases (ingestObservations verify state.node block).tick input with
      | error fault => rfl
      | ok result => rfl

/-- The hook installs the index that is fresh after the tick, and clears the old
one if none is. -/
def pushIndex (bridge : LiveBridge) (node : OpenHlNode) (blockTime : U64) : LiveBridge :=
  match node.oracle.currentPriceFreshAt blockTime with
  | some index => bridge.setOracleIndexPrice index
  | none => bridge.clearOracleIndexPrice

/-- The accounts that a report closes. -/
def liquidatedAccounts (report : TickReport) : List AccountId :=
  report.liquidation.records.map fun record => record.closeOrder.account

/-- The bridge's margin health of an account calls for its liquidation. -/
def HealthFlags (checks : U64.OverflowChecks) (bridge : LiveBridge)
    (account : AccountId) : Prop :=
  ∃ health, bridge.marginHealth checks account = .ok (some health) ∧
    (health = .liquidatable ∨ health = .underwater)

/-! ## The scan and margin health at one mark -/

theorem marginHealth_of_flat {snapshot : AccountSnapshot}
    (hflat : snapshot.positionSize = 0) (mark : MarkPrice) (params : LiquidationParams) :
    Liquidation.marginHealth snapshot mark params = .safe := by
  have hnotional : notionalValue snapshot mark = 0 := by
    have hsize : (0 : I64).unsignedAbs = 0 := rfl
    have hproduct : ((0 : U64) : ℤ) * (mark : ℤ) = 0 := zero_mul _
    rw [notionalValue, hflat, hsize, U64.saturatingMul, hproduct]
    rfl
  have hratio : (marginRatio snapshot mark).val = 2 ^ 63 - 1 := by
    rw [marginRatio]
    simp only [hnotional, if_true]
    rfl
  have hmaintenance := params.maintenanceMarginBps.isLt
  have hinitial := params.initialMarginBps.isLt
  simp only [Liquidation.marginHealth, hratio]
  rw [if_neg (by omega), if_neg (by omega), if_neg (by omega)]

/-- The scan closes the accounts whose margin health is below maintenance; a flat
account is safe. -/
theorem liquidated_iff (params : LiquidationParams) (mark : MarkPrice)
    (snapshot : AccountSnapshot) :
    liquidated params mark snapshot = true ↔
      Liquidation.marginHealth snapshot mark params = .liquidatable ∨
        Liquidation.marginHealth snapshot mark params = .underwater := by
  by_cases hflat : snapshot.positionSize = 0
  · simp [liquidated, marginHealth_of_flat hflat]
  · rw [liquidated]
    cases Liquidation.marginHealth snapshot mark params <;> simp [hflat]

/-- Margin health of the accounts in the map, as the scan sees them. -/
theorem healthFlags_of_mark {checks : U64.OverflowChecks} {bridge : LiveBridge}
    {mark : MarkPrice} (hmark : bridge.effectiveMark checks = .ok (some mark))
    (account : AccountId) :
    HealthFlags checks bridge account ↔ ∃ found, bridge.accounts.get? account = some found ∧
      liquidated bridge.liquidationParams mark (snapshotOf found) = true := by
  simp only [HealthFlags, LiveBridge.marginHealth, hmark, ok_bind, liquidated_iff]
  cases bridge.accounts.get? account with
  | none => simp [pure, Except.pure]
  | some found => simp [pure, Except.pure, snapshotOf]

theorem mem_accountsSnapshot {accounts : AccountMap} {snapshot : AccountSnapshot} :
    snapshot ∈ accountsSnapshot accounts ↔ ∃ found,
      accounts.get? snapshot.account = some found ∧ snapshotOf found = snapshot := by
  rw [accountsSnapshot, SortedMap.values, List.map_map, List.mem_map]
  constructor
  · rintro ⟨entry, hentry, rfl⟩
    have hget : accounts.get? entry.1 = some entry.2 :=
      (SortedMap.get?_eq_some_iff accounts.map).2 hentry
    have hkey : entry.2.account = entry.1 := accounts.keyed entry.1 entry.2 hget
    exact ⟨entry.2, by simpa [snapshotOf, hkey] using hget, rfl⟩
  · rintro ⟨found, hget, rfl⟩
    exact ⟨_, (SortedMap.get?_eq_some_iff accounts.map).1 hget, rfl⟩

/-! ## The three choices of the mark agree -/

section Tick

variable {checks : U64.OverflowChecks}
  {verify : PriceObservation → PublisherKey → Bool} {bridge : LiveBridge}
  {node after : OpenHlNode} {block : CommittedBlock} {report : TickReport}

theorem ingestObservations_scanner (verify : PriceObservation → PublisherKey → Bool)
    (node : OpenHlNode) (block : CommittedBlock) :
    (ingestObservations verify node block).scanner = node.scanner := by
  rw [ingestObservations]
  induction block.observations generalizing node with
  | nil => rfl
  | cons observation rest ih =>
      rw [List.foldl_cons, ih, OpenHlNode.ingestSignedObservation]
      cases node.oracle.ingestSigned verify observation block.blockTime with
      | error failure => rfl
      | ok oracle => rfl

theorem commitTick_cases
    (htick : commitTick checks verify bridge.toBridgeState node block =
      .ok (after, report)) :
    ∃ mark, currentMark checks bridge.clob = .ok mark ∧
      (ingestObservations verify node block).tick
        { blockHeight := block.height, blockTime := block.blockTime
          mark := mark.getD 100
          accountSnapshots := accountsSnapshot bridge.accounts
          vaultTotalAssets := (ingestObservations verify node block).vault.totalAssets } =
        .ok (after, report) := by
  rw [commitTick, hookInput] at htick
  cases hmark : currentMark checks bridge.clob with
  | error fault =>
      rw [hmark] at htick
      cases htick
  | ok mark =>
      rw [hmark] at htick
      exact ⟨mark, rfl, htick⟩

/-- The tick scans at the index that the hook pushes afterwards, else at its
input. -/
theorem tick_markFor {input : TickInput} (htick : node.tick input = .ok (after, report)) :
    node.markFor input =
      (after.oracle.currentPriceFreshAt input.blockTime).getD input.mark := by
  rw [OpenHlNode.markFor, OpenHlNode.scanMark, ← OpenHlNode.tick_oracle htick]

theorem pushIndex_effectiveMark (bridge : LiveBridge) (node : OpenHlNode)
    (blockTime : U64) :
    (pushIndex bridge node blockTime).effectiveMark checks =
      match node.oracle.currentPriceFreshAt blockTime with
      | some index => .ok (some index)
      | none => currentMark checks bridge.clob := by
  rw [pushIndex]
  cases node.oracle.currentPriceFreshAt blockTime with
  | none => rfl
  | some index => rfl

theorem pushIndex_accounts (bridge : LiveBridge) (node : OpenHlNode) (blockTime : U64) :
    (pushIndex bridge node blockTime).accounts = bridge.accounts := by
  rw [pushIndex]
  cases node.oracle.currentPriceFreshAt blockTime with
  | none => rfl
  | some index => rfl

theorem pushIndex_liquidationParams (bridge : LiveBridge) (node : OpenHlNode)
    (blockTime : U64) :
    (pushIndex bridge node blockTime).liquidationParams = bridge.liquidationParams := by
  rw [pushIndex]
  cases node.oracle.currentPriceFreshAt blockTime with
  | none => rfl
  | some index => rfl

/-- The accounts closed by a tick are those liquidated at the pushed bridge's
effective mark, or at the stub mark without one. -/
theorem mem_liquidatedAccounts
    (htick : commitTick checks verify bridge.toBridgeState node block =
      .ok (after, report))
    (account : AccountId) :
    ∃ mark, (pushIndex bridge after block.blockTime).effectiveMark checks = .ok mark ∧
      (account ∈ liquidatedAccounts report ↔
        ∃ found, bridge.accounts.get? account = some found ∧
          liquidated node.scanner.params (mark.getD 100) (snapshotOf found) = true) := by
  obtain ⟨midpoint, hmidpoint, hticked⟩ := commitTick_cases htick
  have hscanner := ingestObservations_scanner verify node block
  have hrecords := OpenHlNode.tick_liquidation_records hticked
  have hmem : ∀ mark, (ingestObservations verify node block).markFor
      { blockHeight := block.height, blockTime := block.blockTime
        mark := midpoint.getD 100
        accountSnapshots := accountsSnapshot bridge.accounts
        vaultTotalAssets := (ingestObservations verify node block).vault.totalAssets } =
          mark →
      (account ∈ liquidatedAccounts report ↔
        ∃ found, bridge.accounts.get? account = some found ∧
          liquidated node.scanner.params mark (snapshotOf found) = true) := by
    intro mark hmark
    simp only [liquidatedAccounts, hrecords, List.map_map, List.mem_map, List.mem_filter,
      Function.comp_apply, OpenHlNode.liquidates, hmark, hscanner, mem_accountsSnapshot,
      liquidationRecord, closeOrderSpec]
    constructor
    · rintro ⟨snapshot, ⟨⟨found, hget, rfl⟩, hliquidated⟩, rfl⟩
      exact ⟨found, hget, hliquidated⟩
    · rintro ⟨found, hget, hliquidated⟩
      have hkey : (snapshotOf found).account = account :=
        bridge.accounts.keyed account found hget
      exact ⟨snapshotOf found, ⟨⟨found, hkey.symm ▸ hget, rfl⟩, hliquidated⟩, hkey⟩
  have hmark := tick_markFor hticked
  rw [pushIndex_effectiveMark]
  cases hindex : after.oracle.currentPriceFreshAt block.blockTime with
  | none =>
      simp only [hindex, Option.getD_none] at hmark
      exact ⟨midpoint, hmidpoint, hmem _ hmark⟩
  | some index =>
      simp only [hindex, Option.getD_some] at hmark
      exact ⟨some index, rfl, hmem _ hmark⟩

/-- The tick closes exactly the accounts that margin health flags at the fresh
index, else at the midpoint, else at the hook's stub mark. -/
theorem commitTick_liquidates_iff
    (hparams : bridge.liquidationParams = node.scanner.params)
    (htick : commitTick checks verify bridge.toBridgeState node block =
      .ok (after, report))
    (account : AccountId) :
    let pushed := pushIndex bridge after block.blockTime
    (pushed.effectiveMark checks ≠ .ok none →
      (account ∈ liquidatedAccounts report ↔ HealthFlags checks pushed account)) ∧
    (pushed.effectiveMark checks = .ok none →
      (account ∈ liquidatedAccounts report ↔
        HealthFlags checks (pushed.setOracleIndexPrice 100) account)) := by
  intro pushed
  obtain ⟨mark, hmark, hmem⟩ := mem_liquidatedAccounts htick account
  have haccounts : pushed.accounts = bridge.accounts := pushIndex_accounts _ _ _
  have hpushed : pushed.liquidationParams = node.scanner.params :=
    (pushIndex_liquidationParams _ _ _).trans hparams
  constructor
  · intro hsome
    cases mark with
    | none => exact absurd hmark hsome
    | some mark =>
        rw [hmem, healthFlags_of_mark hmark, hpushed, haccounts]
        rfl
  · intro hnone
    obtain rfl : mark = none := Except.ok.inj (hmark.symm.trans hnone)
    have hstub : (pushed.setOracleIndexPrice 100).effectiveMark checks =
        .ok (some 100) := rfl
    rw [hmem, healthFlags_of_mark hstub]
    change _ ↔ ∃ found, pushed.accounts.get? account = some found ∧
      liquidated pushed.liquidationParams 100 (snapshotOf found) = true
    rw [hpushed, haccounts]
    rfl

end Tick

/-- A long position opened at 200 with little collateral, next to a book. -/
def longAt200 (book : Book) : LiveBridge :=
  { LiveBridge.new with
    clob := book
    accounts := AccountMap.empty.upsert 1
      (fun account =>
        { account with positionSize := 10, avgEntry := 200, collateral := 100 })
      (fun _ => rfl) }

/-- A book with the midpoint 150. -/
def quotedAt150 : Book :=
  (Book.new.rest .buy 140 { id := 1, account := 2, qty := 1 }).rest .sell 160
    { id := 2, account := 3, qty := 1 }

def emptyBlock : CommittedBlock :=
  { height := 1, blockTime := 1, observations := [] }

/-- The tick finds no fresh index and closes the account. -/
theorem longAt200_ticks :
    ∃ after report,
      commitTick .on (fun _ _ => false) (longAt200 Book.new).toBridgeState
        (.new .hyperliquidDefault) emptyBlock = .ok (after, report) ∧
      (pushIndex (longAt200 Book.new) after emptyBlock.blockTime).effectiveMark .on =
        .ok none ∧
      1 ∈ liquidatedAccounts report :=
  ⟨_, _, rfl, rfl, by decide⟩

/-- With the book it closes the account at the midpoint. -/
theorem quotedAt150_ticks :
    ∃ after report,
      commitTick .on (fun _ _ => false) (longAt200 quotedAt150).toBridgeState
        (.new .hyperliquidDefault) emptyBlock = .ok (after, report) ∧
      (pushIndex (longAt200 quotedAt150) after emptyBlock.blockTime).effectiveMark .on =
        .ok (some 150) ∧
      1 ∈ liquidatedAccounts report :=
  ⟨_, _, rfl, rfl, by decide⟩

/-- Margin health flags the account at the midpoint, and without one at the stub
mark. -/
theorem commitTick_liquidates_iff_longAt200 :
    (∃ after report,
      commitTick .on (fun _ _ => false) (longAt200 quotedAt150).toBridgeState
        (.new .hyperliquidDefault) emptyBlock = .ok (after, report) ∧
      HealthFlags .on (pushIndex (longAt200 quotedAt150) after emptyBlock.blockTime) 1) ∧
    ∃ after report,
      commitTick .on (fun _ _ => false) (longAt200 Book.new).toBridgeState
        (.new .hyperliquidDefault) emptyBlock = .ok (after, report) ∧
      HealthFlags .on
        ((pushIndex (longAt200 Book.new) after emptyBlock.blockTime).setOracleIndexPrice
          100) 1 := by
  constructor
  · obtain ⟨after, report, htick, hmark, hmem⟩ := quotedAt150_ticks
    refine ⟨after, report, htick,
      ((commitTick_liquidates_iff rfl htick 1).1 fun hnone => ?_).1 hmem⟩
    rw [hmark] at hnone
    cases hnone
  · obtain ⟨after, report, htick, hmark, hmem⟩ := longAt200_ticks
    exact ⟨after, report, htick,
      ((commitTick_liquidates_iff rfl htick 1).2 hmark).1 hmem⟩

/-- Without an index and a midpoint margin health is indeterminate, and the tick
liquidates at the stub mark. -/
theorem not_forall_liquidates_iff :
    ¬ ∀ (checks : U64.OverflowChecks) (verify : PriceObservation → PublisherKey → Bool)
      (bridge : LiveBridge) (node after : OpenHlNode) (block : CommittedBlock)
      (report : TickReport), bridge.liquidationParams = node.scanner.params →
      commitTick checks verify bridge.toBridgeState node block = .ok (after, report) →
      ∀ account, account ∈ liquidatedAccounts report ↔
        HealthFlags checks (pushIndex bridge after block.blockTime) account := by
  intro hsame
  obtain ⟨after, report, htick, hmark, hmem⟩ := longAt200_ticks
  obtain ⟨health, hhealth, -⟩ :=
    (hsame .on _ (longAt200 Book.new) _ after emptyBlock report rfl htick 1).1 hmem
  rw [LiveBridge.marginHealth_of_noMark hmark] at hhealth
  cases hhealth

end OpenHl.Devnet
