import OpenHl.Liquidation.Adl
import OpenHl.Oracle.State
import OpenHl.Vault.State

/-!
# The per-block coordinator

`crates/node`: one tick refreshes the oracle, scans the accounts, deleverages
if the scan left a deficit, marks the vault and settles funding, in this order.
-/

namespace OpenHl.Node

open Machine OpenHl.Clob OpenHl.Funding OpenHl.Liquidation OpenHl.Oracle OpenHl.Vault

structure OpenHlNodeConfig where
  oracleRefreshIntervalSecs : U64
  liquidationParams : LiquidationParams
  oracleParams : OracleParams
  vaultParams : VaultParams
  fundingParams : FundingParams
  runAdlOnUnfilledDeficit : Bool
  deriving DecidableEq

def OpenHlNodeConfig.hyperliquidDefault : OpenHlNodeConfig :=
  { oracleRefreshIntervalSecs := 12
    liquidationParams := .hyperliquidDefault
    oracleParams := .hyperliquidDefault
    vaultParams := .productionDefault
    fundingParams := .hyperliquidDefault
    runAdlOnUnfilledDeficit := true }

structure LiquidationScanner where
  params : LiquidationParams
  fund : InsuranceFund
  deriving DecidableEq

structure OpenHlNode where
  config : OpenHlNodeConfig
  oracle : OracleState
  scanner : LiquidationScanner
  vault : VaultState
  fundingClock : FundingClock
  lastOracleRefreshAt : Option U64

structure TickInput where
  blockHeight : U64
  blockTime : U64
  /-- Top-of-book mark supplied by the bridge. -/
  mark : MarkPrice
  accountSnapshots : List AccountSnapshot
  vaultTotalAssets : I64
  deriving DecidableEq

structure TickReport where
  blockHeight : U64
  blockTime : U64
  /-- `none` when the refresh interval has not elapsed. -/
  oracle : Option (Except AggregationError AggregatedPrice)
  liquidation : ScanReport
  adl : Option AdlReport
  vaultTotalShares : U64
  vaultTotalAssets : I64
  vaultSharePriceBps : Option I64
  funding : Option FundingTick

namespace TickReport

/-- The funding settlements of a report, none without a funding tick. -/
def settlements (report : TickReport) : List Settlement :=
  match report.funding with
  | none => []
  | some tick => tick.settlements

/-- The deleveraging records of a report, none if no deleveraging ran. -/
def adlRecords (report : TickReport) : List AdlRecord :=
  match report.adl with
  | none => []
  | some adl => adl.records

end TickReport

namespace OpenHlNode

def withInsuranceFund (config : OpenHlNodeConfig) (fund : InsuranceFund) :
    OpenHlNode :=
  { config := config
    oracle := .new config.oracleParams
    scanner := { params := config.liquidationParams, fund := fund }
    vault := .new config.vaultParams
    fundingClock := { params := config.fundingParams, lastSettledAt := 0 }
    lastOracleRefreshAt := none }

def new (config : OpenHlNodeConfig) : OpenHlNode :=
  withInsuranceFund config .empty

def ingestSignedObservation (verify : PriceObservation → PublisherKey → Bool)
    (node : OpenHlNode) (observation : PriceObservation) (now : U64) :
    Except ObservationError OpenHlNode :=
  match node.oracle.ingestSigned verify observation now with
  | .error failure => .error failure
  | .ok oracle => .ok { node with oracle := oracle }

def maybeRefreshOracle (node : OpenHlNode) (blockTime : U64) :
    OpenHlNode × Option (Except AggregationError AggregatedPrice) :=
  let shouldRefresh : Bool :=
    match node.lastOracleRefreshAt with
    | none => true
    | some last =>
        node.config.oracleRefreshIntervalSecs ≤ blockTime.saturatingSub last
  if !shouldRefresh then (node, none)
  else
    match node.oracle.refresh blockTime with
    | (oracle, .ok aggregate) =>
        ({ node with oracle := oracle, lastOracleRefreshAt := some blockTime },
          some (.ok aggregate))
    | (oracle, .error failure) => ({ node with oracle := oracle }, some (.error failure))

/-- Mark of the scan: the fresh oracle index, else the bridge's mark. -/
def scanMark (refreshed : OpenHlNode) (input : TickInput) : MarkPrice :=
  (refreshed.oracle.currentPriceFreshAt input.blockTime).getD input.mark

/-- Funding settles against the fresh oracle index, and not without one. -/
def tickFunding (node : OpenHlNode) (input : TickInput) :
    Checked (FundingClock × Option FundingTick) :=
  match node.oracle.currentPriceFreshAt input.blockTime with
  | none => .ok (node.fundingClock, none)
  | some index =>
      node.fundingClock.tick input.blockTime input.mark index
        (input.accountSnapshots.map fun snapshot =>
          { account := snapshot.account, size := snapshot.positionSize })

/-- The auto-deleveraging of a tick, if it runs. -/
def tickAdl (node : OpenHlNode) (input : TickInput) (mark : MarkPrice)
    (scanned : ScanReport) : Option AdlReport :=
  if node.config.runAdlOnUnfilledDeficit && 0 < scanned.unfilledDeficit.val then
    some (executeAdl input.accountSnapshots mark scanned.unfilledDeficit)
  else none

/-- One per-block tick. -/
def tick (node : OpenHlNode) (input : TickInput) :
    Checked (OpenHlNode × TickReport) :=
  let (refreshed, oracleResult) := node.maybeRefreshOracle input.blockTime
  let mark := refreshed.scanMark input
  let scanned := scan node.scanner.params mark node.scanner.fund
    input.accountSnapshots
  let adl := refreshed.tickAdl input mark scanned.report
  let vault := node.vault.markToMarket input.vaultTotalAssets
  match refreshed.tickFunding input with
  | .error fault => .error fault
  | .ok (clock, funding) =>
      .ok ({ refreshed with
              scanner := { node.scanner with fund := scanned.fund }
              vault := vault
              fundingClock := clock },
        { blockHeight := input.blockHeight
          blockTime := input.blockTime
          oracle := oracleResult
          liquidation := scanned.report
          adl := adl
          vaultTotalShares := vault.totalShares
          vaultTotalAssets := vault.totalAssets
          vaultSharePriceBps := vault.sharePriceBps
          funding := funding })

/-! ## What a tick settles and closes -/

/-- The mark at which a tick of the node on the input scans and deleverages. -/
def markFor (node : OpenHlNode) (input : TickInput) : MarkPrice :=
  (node.maybeRefreshOracle input.blockTime).1.scanMark input

/-- The accounts that a tick liquidates. -/
def liquidates (node : OpenHlNode) (input : TickInput)
    (snapshot : AccountSnapshot) : Bool :=
  liquidated node.scanner.params (node.markFor input) snapshot

/-- The deficit that the liquidations leave uncovered. -/
def deficitFor (node : OpenHlNode) (input : TickInput) : I64 :=
  uncoveredDeficit node.scanner.params (node.markFor input) node.scanner.fund 0
    (input.accountSnapshots.filter (node.liquidates input))

/-- The accounts that a tick deleverages: those whose profit is needed once the
profits ranked ahead of it are spent on the deficit. -/
def Deleverages (node : OpenHlNode) (input : TickInput)
    (snapshot : AccountSnapshot) : Prop :=
  node.config.runAdlOnUnfilledDeficit = true ∧
    AdlCloses input.accountSnapshots (node.markFor input)
      (node.deficitFor input).val snapshot

theorem maybeRefreshOracle_config (node : OpenHlNode) (blockTime : U64) :
    (node.maybeRefreshOracle blockTime).1.config = node.config := by
  simp only [maybeRefreshOracle]
  split_ifs
  · rfl
  · split <;> rfl

section Report

variable {node after : OpenHlNode} {input : TickInput} {report : TickReport}

/-- A tick that returns, part by part. -/
theorem tick_eq_ok (htick : node.tick input = .ok (after, report)) :
    let refreshed := (node.maybeRefreshOracle input.blockTime).1
    let scanned := scan node.scanner.params (node.markFor input) node.scanner.fund
      input.accountSnapshots
    let vault := node.vault.markToMarket input.vaultTotalAssets
    ∃ clock funding, refreshed.tickFunding input = .ok (clock, funding) ∧
      after = { refreshed with
        scanner := { node.scanner with fund := scanned.fund }
        vault := vault
        fundingClock := clock } ∧
      report = { blockHeight := input.blockHeight
                 blockTime := input.blockTime
                 oracle := (node.maybeRefreshOracle input.blockTime).2
                 liquidation := scanned.report
                 adl := refreshed.tickAdl input (node.markFor input) scanned.report
                 vaultTotalShares := vault.totalShares
                 vaultTotalAssets := vault.totalAssets
                 vaultSharePriceBps := vault.sharePriceBps
                 funding := funding } := by
  simp only [tick] at htick
  split at htick
  · cases htick
  · next clock funding hfunding =>
      obtain ⟨hafter, hreport⟩ := Prod.mk.inj (Except.ok.inj htick)
      exact ⟨clock, funding, hfunding, hafter.symm, hreport.symm⟩

theorem tick_liquidation (htick : node.tick input = .ok (after, report)) :
    report.liquidation = (scan node.scanner.params (node.markFor input)
      node.scanner.fund input.accountSnapshots).report := by
  obtain ⟨clock, funding, -, -, rfl⟩ := tick_eq_ok htick
  rfl

theorem tick_adl (htick : node.tick input = .ok (after, report)) :
    report.adl = node.tickAdl input (node.markFor input) report.liquidation := by
  obtain ⟨clock, funding, -, -, rfl⟩ := tick_eq_ok htick
  simp only [tickAdl, maybeRefreshOracle_config]

theorem tick_funding (htick : node.tick input = .ok (after, report)) :
    ∃ clock, (node.maybeRefreshOracle input.blockTime).1.tickFunding input =
      .ok (clock, report.funding) := by
  obtain ⟨clock, funding, hfunding, -, rfl⟩ := tick_eq_ok htick
  exact ⟨clock, hfunding⟩

theorem tick_oracle (htick : node.tick input = .ok (after, report)) :
    after.oracle = (node.maybeRefreshOracle input.blockTime).1.oracle := by
  obtain ⟨clock, funding, -, rfl, -⟩ := tick_eq_ok htick
  rfl

/-- The liquidation records of a tick, in the order of the accounts. -/
theorem tick_liquidation_records (htick : node.tick input = .ok (after, report)) :
    report.liquidation.records =
      (input.accountSnapshots.filter (node.liquidates input)).map
        (liquidationRecord node.scanner.params (node.markFor input)) := by
  rw [tick_liquidation htick, scan_records]
  rfl

theorem tick_unfilledDeficit (htick : node.tick input = .ok (after, report)) :
    report.liquidation.unfilledDeficit = node.deficitFor input := by
  rw [tick_liquidation htick, scan, foldl_scanStep_deficit]
  rfl

/-- The deleveraging records are those of the loop, if it is switched on. -/
theorem tick_adlRecords (htick : node.tick input = .ok (after, report)) :
    report.adlRecords =
      if node.config.runAdlOnUnfilledDeficit then
        (executeAdl input.accountSnapshots (node.markFor input)
          (node.deficitFor input)).records
      else [] := by
  rw [TickReport.adlRecords, tick_adl htick, tickAdl, tick_unfilledDeficit htick]
  cases node.config.runAdlOnUnfilledDeficit with
  | false => rfl
  | true =>
      by_cases hdeficit : 0 < (node.deficitFor input).val
      · simp [hdeficit]
      · simp [hdeficit, executeAdl, not_lt.1 hdeficit]

theorem tick_adlRecords_account (htick : node.tick input = .ok (after, report)) :
    ∀ record ∈ report.adlRecords, record.account = record.closeOrder.account := by
  rw [tick_adlRecords htick]
  split_ifs
  · exact executeAdl_account _ _ _
  · simp

theorem mem_tick_closeOrders (htick : node.tick input = .ok (after, report))
    (hdistinct : (input.accountSnapshots.map AccountSnapshot.account).Nodup)
    (order : CloseOrderSpec) :
    order ∈ report.adlRecords.map AdlRecord.closeOrder ↔
      ∃ snapshot ∈ input.accountSnapshots, node.Deleverages input snapshot ∧
        order = closeOrderSpec snapshot := by
  rw [tick_adlRecords htick]
  by_cases hruns : node.config.runAdlOnUnfilledDeficit = true
  · simp only [hruns, if_true, Deleverages, true_and]
    exact mem_executeAdl_closeOrders hdistinct _ order
  · simp [hruns, Deleverages]

theorem tick_adlRecords_distinct (htick : node.tick input = .ok (after, report))
    (hdistinct : (input.accountSnapshots.map AccountSnapshot.account).Nodup) :
    (report.adlRecords.map fun record => record.closeOrder.account).Nodup := by
  rw [tick_adlRecords htick]
  split_ifs
  · exact executeAdl_distinct hdistinct _
  · exact List.nodup_nil

/-- Settlements go to accounts of the input, each in its place. -/
theorem tick_settlements_accounts (htick : node.tick input = .ok (after, report)) :
    (report.settlements.map Settlement.account).Sublist
      (input.accountSnapshots.map AccountSnapshot.account) := by
  obtain ⟨clock, hfunding⟩ := tick_funding htick
  rw [tickFunding] at hfunding
  rw [TickReport.settlements]
  split at hfunding
  · rw [Except.ok.injEq, Prod.mk.injEq] at hfunding
    rw [← hfunding.2]
    exact List.nil_sublist _
  · cases hsettled : report.funding with
    | none => exact List.nil_sublist _
    | some settled =>
        rw [hsettled] at hfunding
        simpa [List.map_map, Function.comp_def] using
          FundingClock.tick_settlements hfunding

end Report

end OpenHlNode

end OpenHl.Node
