import OpenHl.Node.Tick

/-!
# Restarting the coordinator

What `snapshot` keeps of the coordinator and `load_snapshot` restores.  The feed
table is left out by design: observations flow back through the ingestion path
after the restart.

`restarted_reports`: a restarted coordinator reports what the one it replaces
reports, on every sequence of calls in which no oracle refresh relies on an
observation from before the restart.
-/

namespace OpenHl.Node

open Machine OpenHl.Clob OpenHl.Funding OpenHl.Liquidation OpenHl.Oracle OpenHl.Vault

structure CoordinatorSnapshot where
  insuranceFundBalance : I64
  vaultTotalShares : U64
  vaultTotalAssets : I64
  lastOracleRefreshAt : Option U64
  fundingLastSettledAt : U64
  cachedOraclePrice : Option AggregatedPrice
  deriving DecidableEq

namespace OpenHlNode

def registerPublisher (node : OpenHlNode) (feed : FeedId) (key : PublisherKey) :
    OpenHlNode :=
  { node with oracle := node.oracle.registerPublisher feed key }

def ingestObservation (node : OpenHlNode) (observation : PriceObservation) (now : U64) :
    Except ObservationError OpenHlNode :=
  match node.oracle.ingest observation now with
  | .error failure => .error failure
  | .ok oracle => .ok { node with oracle := oracle }

def snapshot (node : OpenHlNode) : CoordinatorSnapshot :=
  { insuranceFundBalance := node.scanner.fund.balance
    vaultTotalShares := node.vault.totalShares
    vaultTotalAssets := node.vault.totalAssets
    lastOracleRefreshAt := node.lastOracleRefreshAt
    fundingLastSettledAt := node.fundingClock.lastSettledAt
    cachedOraclePrice := node.oracle.current }

def loadSnapshot (node : OpenHlNode) (snapshot : CoordinatorSnapshot) : OpenHlNode :=
  { node with
    scanner := { params := node.config.liquidationParams
                 fund := .new snapshot.insuranceFundBalance }
    vault := .restore node.config.vaultParams snapshot.vaultTotalShares
      snapshot.vaultTotalAssets
    fundingClock := { params := node.config.fundingParams
                      lastSettledAt := snapshot.fundingLastSettledAt }
    lastOracleRefreshAt := snapshot.lastOracleRefreshAt
    oracle := match snapshot.cachedOraclePrice with
      | some price => node.oracle.restoreCurrent price
      | none => node.oracle }

/-- A new coordinator that has loaded the snapshot of `node` and registered its
publishers again. -/
def restarted (node : OpenHlNode) : OpenHlNode :=
  node.oracle.publishers.entries.foldl
    (fun restarted entry => restarted.registerPublisher entry.1 entry.2)
    ((OpenHlNode.new node.config).loadSnapshot node.snapshot)

/-! ## Reachable coordinators -/

/-- The states of a coordinator with the given configuration: ticks, and between
them anything that the oracle and the vault can do without changing their
parameters. -/
inductive Reachable (config : OpenHlNodeConfig) : OpenHlNode → Prop
  | start (fund : InsuranceFund) : Reachable config (.withInsuranceFund config fund)
  | oracle {node : OpenHlNode} (oracle : OracleState)
      (hparams : oracle.params = node.oracle.params) :
      Reachable config node → Reachable config { node with oracle := oracle }
  | vault {node : OpenHlNode} (vault : VaultState)
      (hparams : vault.params = node.vault.params) :
      Reachable config node → Reachable config { node with vault := vault }
  | tick {node after : OpenHlNode} {input : TickInput} {report : TickReport}
      (htick : node.tick input = .ok (after, report)) :
      Reachable config node → Reachable config after

/-- Every part of the coordinator has the parameters of its configuration. -/
structure Configured (node : OpenHlNode) : Prop where
  scanner : node.scanner.params = node.config.liquidationParams
  oracle : node.oracle.params = node.config.oracleParams
  vault : node.vault.params = node.config.vaultParams
  clock : node.fundingClock.params = node.config.fundingParams

/-- The coordinator with another feed table. -/
def withFeeds (node : OpenHlNode) (feeds : SortedMap FeedId FeedRecord) : OpenHlNode :=
  { node with oracle := { node.oracle with feeds := feeds } }

/-- The refresh interval has elapsed. -/
def shouldRefresh (node : OpenHlNode) (blockTime : U64) : Bool :=
  match node.lastOracleRefreshAt with
  | none => true
  | some last => node.config.oracleRefreshIntervalSecs ≤ blockTime.saturatingSub last

/-- The coordinator after a refresh that found the index. -/
def refreshedTo (node : OpenHlNode) (aggregate : AggregatedPrice) (blockTime : U64) :
    OpenHlNode :=
  { node with oracle := { node.oracle with current := some aggregate }
              lastOracleRefreshAt := some blockTime }

/-- The aggregate of the fresh feeds. -/
def aggregateAt (node : OpenHlNode) (blockTime : U64) :
    Except AggregationError AggregatedPrice :=
  let fresh := node.oracle.freshPrices blockTime
  (aggregateIndex fresh node.oracle.params).map fun index =>
    { index := index, computedAt := blockTime, feedsUsed := saturateNat 8 fresh.length }

theorem maybeRefreshOracle_eq (node : OpenHlNode) (blockTime : U64) :
    node.maybeRefreshOracle blockTime =
      if node.shouldRefresh blockTime then
        match node.aggregateAt blockTime with
        | .error failure => (node, some (.error failure))
        | .ok aggregate => (node.refreshedTo aggregate blockTime, some (.ok aggregate))
      else (node, none) := by
  rw [maybeRefreshOracle, aggregateAt, OracleState.refresh]
  change (if (!node.shouldRefresh blockTime) = true then (node, none) else _) = _
  cases node.shouldRefresh blockTime with
  | false => rfl
  | true =>
      cases aggregateIndex (node.oracle.freshPrices blockTime) node.oracle.params with
      | error failure => rfl
      | ok index => rfl

/-- A refresh changes nothing, or the cached index and the time of the refresh. -/
theorem maybeRefreshOracle_fst (node : OpenHlNode) (blockTime : U64) :
    (node.maybeRefreshOracle blockTime).1 = node ∨
      ∃ aggregate, (node.maybeRefreshOracle blockTime).1 =
        node.refreshedTo aggregate blockTime := by
  rw [maybeRefreshOracle_eq]
  split_ifs
  · cases node.aggregateAt blockTime with
    | error failure => exact .inl rfl
    | ok aggregate => exact .inr ⟨aggregate, rfl⟩
  · exact .inl rfl

/-- What does not read the cached index or the time of the refresh is kept. -/
theorem maybeRefreshOracle_keeps {β : Type*} (read : OpenHlNode → β)
    (hread : ∀ (node : OpenHlNode) (aggregate : AggregatedPrice) (time : U64),
      read (node.refreshedTo aggregate time) = read node)
    (node : OpenHlNode) (blockTime : U64) :
    read (node.maybeRefreshOracle blockTime).1 = read node := by
  obtain hsame | ⟨aggregate, hrefreshed⟩ := maybeRefreshOracle_fst node blockTime
  · rw [hsame]
  · rw [hrefreshed, hread]

/-! ## The restarted coordinator -/

theorem fund_new_balance (fund : InsuranceFund) :
    InsuranceFund.new fund.balance = fund := by
  obtain ⟨balance, hnonneg⟩ := fund
  rw [InsuranceFund.new]
  split_ifs with hpositive
  · rfl
  · have hzero : balance = 0 := I64.ext (le_antisymm (not_lt.1 hpositive) hnonneg)
    subst hzero
    rfl

theorem foldl_registerPublisher (list : List (FeedId × PublisherKey))
    (node : OpenHlNode) :
    list.foldl (fun node entry => node.registerPublisher entry.1 entry.2) node =
      { node with oracle := { node.oracle with
          publishers := list.foldl (fun map entry => map.insert entry.1 entry.2)
            node.oracle.publishers } } := by
  induction list generalizing node with
  | nil => rfl
  | cons entry rest ih =>
      rw [List.foldl_cons, ih]
      rfl

/-- All that a restart loses is the feed table. -/
theorem restarted_eq {node : OpenHlNode} (hconfigured : node.Configured) :
    node.restarted = node.withFeeds SortedMap.empty := by
  have hpublishers : node.oracle.publishers.entries.foldl
      (fun map entry => map.insert entry.1 entry.2) SortedMap.empty =
        node.oracle.publishers := SortedMap.foldl_insert_entries _
  obtain ⟨config, ⟨oracleParams, feeds, publishers, current⟩, ⟨scannerParams, fund⟩,
    ⟨vaultParams, shares, assets⟩, ⟨clockParams, settled⟩, refreshed⟩ := node
  obtain ⟨hscanner, horacle, hvault, hclock⟩ := hconfigured
  simp only at hscanner horacle hvault hclock hpublishers
  rw [restarted, foldl_registerPublisher]
  cases current with
  | none =>
      simp [loadSnapshot, snapshot, OpenHlNode.new, withInsuranceFund, OracleState.new,
        VaultState.restore, withFeeds, fund_new_balance, hscanner, horacle, hvault,
        hclock, hpublishers]
  | some price =>
      simp [loadSnapshot, snapshot, OpenHlNode.new, withInsuranceFund, OracleState.new,
        OracleState.restoreCurrent, VaultState.restore, withFeeds, fund_new_balance,
        hscanner, horacle, hvault, hclock, hpublishers]

theorem maybeRefreshOracle_configured {node : OpenHlNode} (hconfigured : node.Configured)
    (blockTime : U64) : (node.maybeRefreshOracle blockTime).1.Configured := by
  obtain hsame | ⟨aggregate, hrefreshed⟩ := maybeRefreshOracle_fst node blockTime
  · rw [hsame]
    exact hconfigured
  · rw [hrefreshed]
    exact ⟨hconfigured.scanner, hconfigured.oracle, hconfigured.vault,
      hconfigured.clock⟩

theorem tickFunding_params {node : OpenHlNode} {input : TickInput} {clock : FundingClock}
    {funding : Option FundingTick}
    (hfunding : node.tickFunding input = .ok (clock, funding)) :
    clock.params = node.fundingClock.params := by
  rw [tickFunding] at hfunding
  split at hfunding
  · rw [← (Prod.mk.inj (Except.ok.inj hfunding)).1]
  · obtain ⟨-, rfl⟩ | ⟨settled, -, -, -, -, rfl⟩ := FundingClock.tick_eq_ok hfunding
    · rfl
    · rfl

theorem tick_configured {node after : OpenHlNode} {input : TickInput}
    {report : TickReport} (hconfigured : node.Configured)
    (htick : node.tick input = .ok (after, report)) :
    after.config = node.config ∧ after.Configured := by
  have hrefreshed := maybeRefreshOracle_configured hconfigured input.blockTime
  have hconfig := maybeRefreshOracle_config node input.blockTime
  obtain ⟨clock, funding, hfunding, rfl, -⟩ := tick_eq_ok htick
  refine ⟨hconfig, ?_, hrefreshed.oracle, ?_, ?_⟩
  · exact hconfigured.scanner.trans (congrArg _ hconfig.symm)
  · exact hconfigured.vault.trans (congrArg _ hconfig.symm)
  · exact (tickFunding_params hfunding).trans hrefreshed.clock

theorem Reachable.configured {config : OpenHlNodeConfig} {node : OpenHlNode}
    (hreachable : Reachable config node) : node.config = config ∧ node.Configured := by
  induction hreachable with
  | start fund => exact ⟨rfl, rfl, rfl, rfl, rfl⟩
  | oracle oracle hparams _ ih =>
      exact ⟨ih.1, ih.2.scanner, hparams.trans ih.2.oracle, ih.2.vault, ih.2.clock⟩
  | vault vault hparams _ ih =>
      exact ⟨ih.1, ih.2.scanner, ih.2.oracle, hparams.trans ih.2.vault, ih.2.clock⟩
  | tick htick _ ih =>
      obtain ⟨hconfig, hconfigured⟩ := tick_configured ih.2 htick
      exact ⟨hconfig.trans ih.1, hconfigured⟩

/-! ## Calls on both coordinators -/

/-- What happens to a coordinator after its publishers are registered. -/
inductive Call where
  | ingest (observation : PriceObservation) (now : U64)
  | ingestSigned (observation : PriceObservation) (now : U64)
  | tick (input : TickInput)

variable (verify : PriceObservation → PublisherKey → Bool)

/-- The observation of a call, if the coordinator lets it reach the feed table. -/
def admitted (node : OpenHlNode) : Call → Option (PriceObservation × U64)
  | .ingest observation now => some (observation, now)
  | .ingestSigned observation now =>
      if (node.oracle.publishers.get? observation.feed).any (verify observation) then
        some (observation, now)
      else none
  | .tick _ => none

/-- One call with the report of a tick; a rejected observation changes nothing. -/
def apply (node : OpenHlNode) : Call → Checked (OpenHlNode × Option TickReport)
  | .ingest observation now =>
      match node.ingestObservation observation now with
      | .error _ => .ok (node, none)
      | .ok after => .ok (after, none)
  | .ingestSigned observation now =>
      match node.ingestSignedObservation verify observation now with
      | .error _ => .ok (node, none)
      | .ok after => .ok (after, none)
  | .tick input => (node.tick input).map fun result => (result.1, some result.2)

/-- The reports of a sequence of calls. -/
def reports (node : OpenHlNode) : List Call → Checked (List TickReport)
  | [] => .ok []
  | call :: rest => do
      let (after, report) ← node.apply verify call
      let later ← after.reports rest
      return report.toList ++ later

/-- The feed that a call renews: that of an observation which the table accepts. -/
def renews (node : OpenHlNode) (call : Call) : List FeedId :=
  match node.admitted verify call with
  | none => []
  | some (observation, now) =>
      match node.oracle.validateAndStore observation now with
      | .error _ => []
      | .ok _ => [observation.feed]

/-- Whenever a tick refreshes the oracle, every feed in the table has been renewed
since the restart or is too old to count. -/
def FeedsRenewed : OpenHlNode → List FeedId → List Call → Prop
  | _, _, [] => True
  | node, renewed, call :: rest =>
      (∀ input, call = .tick input → node.shouldRefresh input.blockTime = true →
        ∀ feed record, node.oracle.feeds.get? feed = some record → feed ∈ renewed ∨
          OracleState.isStale record.lastTimestamp input.blockTime
            node.oracle.params.stalenessWindowSecs = true) ∧
      ∀ after report, node.apply verify call = .ok (after, report) →
        after.FeedsRenewed (renewed ++ node.renews verify call) rest

/-! ## The table of the restarted coordinator trails the other one -/

/-- A table trails another one if it differs from it only at feeds that were not
renewed, and has nothing newer there. -/
def Trails (renewed : List FeedId) (trailing feeds : SortedMap FeedId FeedRecord) : Prop :=
  ∀ feed, trailing.get? feed = feeds.get? feed ∨
    feed ∉ renewed ∧ ∃ record, feeds.get? feed = some record ∧
      ∀ older, trailing.get? feed = some older → older.lastTimestamp ≤ record.lastTimestamp

/-- The table after an observation is handed to it. -/
def feedsAfter (oracle : OracleState) (observation : PriceObservation) (now : U64) :
    SortedMap FeedId FeedRecord :=
  match oracle.validateAndStore observation now with
  | .error _ => oracle.feeds
  | .ok after => after.feeds

/-- The observation passes the checks that do not look at the table. -/
def acceptable (params : OracleParams) (observation : PriceObservation) (now : U64) :
    Bool :=
  !(now < observation.timestamp) &&
    !OracleState.isStale observation.timestamp now params.stalenessWindowSecs &&
      !(observation.price = 0)

/-- An older observation of the feed than the one in the table. -/
def replays (feeds : SortedMap FeedId FeedRecord) (observation : PriceObservation) :
    Bool :=
  (feeds.get? observation.feed).any fun prior =>
    observation.timestamp < prior.lastTimestamp

def recordOf (observation : PriceObservation) : FeedRecord :=
  { lastPrice := observation.price, lastTimestamp := observation.timestamp }

section Ingest

variable (oracle : OracleState) (observation : PriceObservation) (now : U64)

/-- An observation is stored, or refused without a change. -/
theorem validateAndStore_cases :
    ((acceptable oracle.params observation now &&
        !replays oracle.feeds observation) = true ∧
      oracle.validateAndStore observation now =
        .ok { oracle with
          feeds := oracle.feeds.insert observation.feed (recordOf observation) }) ∨
    (acceptable oracle.params observation now &&
        !replays oracle.feeds observation) = false ∧
      ∃ failure, oracle.validateAndStore observation now = .error failure := by
  rw [acceptable, replays]
  simp only [OracleState.validateAndStore]
  split_ifs with hfuture hstale hzero hreplay
  · exact .inr ⟨by simp [hfuture], _, rfl⟩
  · exact .inr ⟨by simp [hstale], _, rfl⟩
  · exact .inr ⟨by simp [hzero], _, rfl⟩
  · exact .inr ⟨by simp [hreplay], _, rfl⟩
  · exact .inl ⟨by simp [hfuture, hstale, hzero, hreplay], rfl⟩

theorem feedsAfter_eq :
    feedsAfter oracle observation now =
      if acceptable oracle.params observation now && !replays oracle.feeds observation then
        oracle.feeds.insert observation.feed (recordOf observation)
      else oracle.feeds := by
  rw [feedsAfter]
  obtain ⟨hstored, hok⟩ | ⟨hrefused, failure, herror⟩ :=
    validateAndStore_cases oracle observation now
  · rw [hok, if_pos hstored]
  · rw [herror, if_neg (Bool.eq_false_iff.1 hrefused)]

/-- Whether it is stored or not, an observation changes at most the feeds. -/
theorem validateAndStore_feedsAfter :
    (match oracle.validateAndStore observation now with
      | .error _ => oracle
      | .ok after => after) =
      { oracle with feeds := feedsAfter oracle observation now } := by
  rw [feedsAfter]
  obtain ⟨-, hok⟩ | ⟨-, failure, herror⟩ :=
    validateAndStore_cases oracle observation now
  · rw [hok]
  · rw [herror]

end Ingest

theorem renews_eq (node : OpenHlNode) (call : Call) :
    node.renews verify call =
      match node.admitted verify call with
      | none => []
      | some (observation, now) =>
          if acceptable node.oracle.params observation now &&
              !replays node.oracle.feeds observation then
            [observation.feed]
          else [] := by
  rw [renews]
  cases node.admitted verify call with
  | none => rfl
  | some entry =>
      obtain ⟨observation, now⟩ := entry
      dsimp only
      obtain ⟨hstored, hok⟩ | ⟨hrefused, failure, herror⟩ :=
        validateAndStore_cases node.oracle observation now
      · rw [hok, if_pos hstored]
      · rw [herror, if_neg (Bool.eq_false_iff.1 hrefused)]

theorem replays_eq_false_iff {feeds : SortedMap FeedId FeedRecord}
    {observation : PriceObservation} :
    replays feeds observation = false ↔ ∀ prior,
      feeds.get? observation.feed = some prior →
        prior.lastTimestamp ≤ observation.timestamp := by
  rw [replays]
  cases feeds.get? observation.feed with
  | none => simp
  | some prior => simp

/-- What the table takes the trailing one takes too. -/
theorem Trails.replays_eq_false {renewed : List FeedId}
    {trailing feeds : SortedMap FeedId FeedRecord}
    (htrails : Trails renewed trailing feeds)
    {observation : PriceObservation} (hnew : replays feeds observation = false) :
    replays trailing observation = false := by
  rw [replays_eq_false_iff] at hnew ⊢
  intro older holder
  rcases htrails observation.feed with hsame | ⟨-, record, hrecord, htrailing⟩
  · exact hnew older (hsame ▸ holder)
  · exact (htrailing older holder).trans (hnew record hrecord)

theorem Trails.insert {renewed : List FeedId}
    {trailing feeds : SortedMap FeedId FeedRecord}
    (htrails : Trails renewed trailing feeds)
    (feed : FeedId) (record : FeedRecord) :
    Trails (renewed ++ [feed]) (trailing.insert feed record)
      (feeds.insert feed record) := by
  intro other
  rw [SortedMap.get?_insert, SortedMap.get?_insert]
  by_cases hother : other = feed
  · simp [hother]
  · simpa [hother] using htrails other

/-- A replay that only the trailing table takes leaves it trailing. -/
theorem Trails.insert_replay {renewed : List FeedId}
    {trailing feeds : SortedMap FeedId FeedRecord}
    (htrails : Trails renewed trailing feeds)
    {observation : PriceObservation} (hreplays : replays feeds observation = true)
    (hnew : replays trailing observation = false) :
    Trails renewed (trailing.insert observation.feed (recordOf observation)) feeds := by
  intro other
  rw [SortedMap.get?_insert]
  by_cases hother : other = observation.feed
  · subst hother
    rw [if_pos rfl]
    rcases htrails observation.feed with hsame | ⟨hold, record, hrecord, -⟩
    · rw [replays, ← hsame, ← replays, hnew] at hreplays
      cases hreplays
    · refine .inr ⟨hold, record, hrecord, ?_⟩
      intro older holder
      rw [replays, hrecord] at hreplays
      rw [← Option.some.inj holder]
      exact (decide_eq_true_iff.1 hreplays).le
  · rw [if_neg hother]
    exact htrails other

theorem Trails.feedsAfter {renewed : List FeedId}
    {trailing : SortedMap FeedId FeedRecord} {oracle : OracleState}
    (htrails : Trails renewed trailing oracle.feeds) (observation : PriceObservation)
    (now : U64) :
    Trails
      (renewed ++ if acceptable oracle.params observation now &&
          !replays oracle.feeds observation then [observation.feed] else [])
      (feedsAfter { oracle with feeds := trailing } observation now)
      (feedsAfter oracle observation now) := by
  rw [feedsAfter_eq, feedsAfter_eq]
  cases acceptable oracle.params observation now with
  | false => simpa using htrails
  | true =>
      cases hreplays : replays oracle.feeds observation with
      | false =>
          rw [htrails.replays_eq_false hreplays]
          exact htrails.insert observation.feed (recordOf observation)
      | true =>
          cases hnew : replays trailing observation with
          | false => simpa using htrails.insert_replay hreplays hnew
          | true => simpa using htrails

/-- Tables that differ only at feeds too old to count have the same fresh prices. -/
theorem Trails.freshPrices_eq {renewed : List FeedId}
    {trailing : SortedMap FeedId FeedRecord} {oracle : OracleState}
    (htrails : Trails renewed trailing oracle.feeds) {now : U64}
    (hrenewed : ∀ feed record, oracle.feeds.get? feed = some record → feed ∈ renewed ∨
      OracleState.isStale record.lastTimestamp now
        oracle.params.stalenessWindowSecs = true) :
    ({ oracle with feeds := trailing } : OracleState).freshPrices now =
      oracle.freshPrices now := by
  rw [OracleState.freshPrices, OracleState.freshPrices]
  congr 1
  apply SortedMap.filter_values_congr
  intro feed
  rcases htrails feed with hsame | ⟨hold, record, hrecord, htrailing⟩
  · rw [hsame]
  · have hstale := (hrenewed feed record hrecord).resolve_left hold
    rw [hrecord]
    cases holder : trailing.get? feed with
    | none => simp [Option.filter, hstale]
    | some older =>
        have holderStale : OracleState.isStale older.lastTimestamp now
            oracle.params.stalenessWindowSecs = true := by
          rw [OracleState.isStale, decide_eq_true_iff] at hstale ⊢
          exact lt_of_le_of_lt (htrailing older holder) hstale
        simp [Option.filter, hstale, holderStale]

/-! ## Calls on a coordinator and on one with a trailing table -/

theorem maybeRefreshOracle_withFeeds (node : OpenHlNode)
    (feeds : SortedMap FeedId FeedRecord) (blockTime : U64)
    (hfresh : node.shouldRefresh blockTime = true →
      (node.withFeeds feeds).oracle.freshPrices blockTime =
        node.oracle.freshPrices blockTime) :
    (node.withFeeds feeds).maybeRefreshOracle blockTime =
      ((node.maybeRefreshOracle blockTime).1.withFeeds feeds,
        (node.maybeRefreshOracle blockTime).2) := by
  rw [maybeRefreshOracle_eq, maybeRefreshOracle_eq]
  have hshould : (node.withFeeds feeds).shouldRefresh blockTime =
      node.shouldRefresh blockTime := rfl
  rw [hshould]
  split_ifs with hrefresh
  · have haggregate : (node.withFeeds feeds).aggregateAt blockTime =
        node.aggregateAt blockTime := by
      rw [aggregateAt, aggregateAt, hfresh hrefresh]
      rfl
    rw [haggregate]
    cases node.aggregateAt blockTime with
    | error failure => rfl
    | ok aggregate => rfl
  · rfl

theorem maybeRefreshOracle_feeds (node : OpenHlNode) (blockTime : U64) :
    (node.maybeRefreshOracle blockTime).1.oracle.feeds = node.oracle.feeds :=
  maybeRefreshOracle_keeps (fun node => node.oracle.feeds) (fun _ _ _ => rfl) node blockTime

theorem tick_feeds {node after : OpenHlNode} {input : TickInput} {report : TickReport}
    (htick : node.tick input = .ok (after, report)) :
    after.oracle.feeds = node.oracle.feeds := by
  rw [tick_oracle htick]
  exact maybeRefreshOracle_feeds node input.blockTime

/-- A tick reads the feed table only when it refreshes the oracle. -/
theorem tick_withFeeds (node : OpenHlNode) (feeds : SortedMap FeedId FeedRecord)
    (input : TickInput)
    (hfresh : node.shouldRefresh input.blockTime = true →
      (node.withFeeds feeds).oracle.freshPrices input.blockTime =
        node.oracle.freshPrices input.blockTime) :
    (node.withFeeds feeds).tick input =
      (node.tick input).map fun result => (result.1.withFeeds feeds, result.2) := by
  have hfunding : ((node.maybeRefreshOracle input.blockTime).1.withFeeds feeds).tickFunding
      input = (node.maybeRefreshOracle input.blockTime).1.tickFunding input := rfl
  simp only [tick, maybeRefreshOracle_withFeeds node feeds input.blockTime hfresh,
    hfunding]
  cases (node.maybeRefreshOracle input.blockTime).1.tickFunding input with
  | error fault => rfl
  | ok result => rfl

/-- The feed table after a call. -/
def feedsAfterCall (node : OpenHlNode) (call : Call) : SortedMap FeedId FeedRecord :=
  match node.admitted verify call with
  | none => node.oracle.feeds
  | some (observation, now) => feedsAfter node.oracle observation now

theorem apply_ingest (node : OpenHlNode) (observation : PriceObservation) (now : U64) :
    node.apply verify (.ingest observation now) =
      .ok (node.withFeeds (node.feedsAfterCall verify (.ingest observation now)),
        none) := by
  rw [apply, ingestObservation, OracleState.ingest, feedsAfterCall, admitted]
  dsimp only
  rw [feedsAfter]
  obtain ⟨-, hok⟩ | ⟨-, failure, herror⟩ :=
    validateAndStore_cases node.oracle observation now
  · rw [hok]
    rfl
  · rw [herror]
    rfl

theorem apply_ingestSigned (node : OpenHlNode) (observation : PriceObservation)
    (now : U64) :
    node.apply verify (.ingestSigned observation now) =
      .ok (node.withFeeds (node.feedsAfterCall verify (.ingestSigned observation now)),
        none) := by
  rw [feedsAfterCall, admitted, apply, ingestSignedObservation, OracleState.ingestSigned]
  cases hkey : node.oracle.publishers.get? observation.feed with
  | none => rfl
  | some key =>
      cases hverified : verify observation key with
      | false =>
          simp only [Option.any_some, hverified]
          rfl
      | true =>
          simp only [Option.any_some, hverified]
          exact apply_ingest verify node observation now

theorem admitted_withFeeds (node : OpenHlNode) (feeds : SortedMap FeedId FeedRecord)
    (call : Call) :
    (node.withFeeds feeds).admitted verify call = node.admitted verify call := by
  cases call with
  | ingest observation now => rfl
  | ingestSigned observation now => rfl
  | tick input => rfl

/-- A call that is no tick reports nothing and only moves the feed table. -/
theorem apply_of_not_tick (node : OpenHlNode) {call : Call}
    (hcall : ∀ input, call ≠ .tick input) :
    node.apply verify call =
      .ok (node.withFeeds (node.feedsAfterCall verify call), none) := by
  cases call with
  | ingest observation now => exact apply_ingest verify node observation now
  | ingestSigned observation now => exact apply_ingestSigned verify node observation now
  | tick input => exact absurd rfl (hcall input)

theorem Trails.feedsAfterCall {renewed : List FeedId}
    {trailing : SortedMap FeedId FeedRecord} {node : OpenHlNode}
    (htrails : Trails renewed trailing node.oracle.feeds) (call : Call) :
    Trails (renewed ++ node.renews verify call)
      ((node.withFeeds trailing).feedsAfterCall verify call)
      (node.feedsAfterCall verify call) := by
  rw [renews_eq, OpenHlNode.feedsAfterCall, OpenHlNode.feedsAfterCall,
    admitted_withFeeds]
  cases node.admitted verify call with
  | none =>
      rw [List.append_nil]
      exact htrails
  | some entry => exact htrails.feedsAfter entry.1 entry.2

/-- One call on both coordinators: the same report, and the table still trails. -/
theorem Trails.apply {renewed : List FeedId} {trailing : SortedMap FeedId FeedRecord}
    {node : OpenHlNode} (htrails : Trails renewed trailing node.oracle.feeds) (call : Call)
    (hrenewed : ∀ input, call = .tick input → node.shouldRefresh input.blockTime = true →
      ∀ feed record, node.oracle.feeds.get? feed = some record → feed ∈ renewed ∨
        OracleState.isStale record.lastTimestamp input.blockTime
          node.oracle.params.stalenessWindowSecs = true) :
    ∃ later,
      (node.withFeeds trailing).apply verify call =
        (node.apply verify call).map (fun result => (result.1.withFeeds later, result.2)) ∧
      ∀ after report, node.apply verify call = .ok (after, report) →
        Trails (renewed ++ node.renews verify call) later after.oracle.feeds := by
  by_cases hcall : ∃ input, call = .tick input
  · obtain ⟨input, rfl⟩ := hcall
    refine ⟨trailing, ?_, ?_⟩
    · have hfresh : node.shouldRefresh input.blockTime = true →
          (node.withFeeds trailing).oracle.freshPrices input.blockTime =
            node.oracle.freshPrices input.blockTime := by
        intro hrefresh
        exact htrails.freshPrices_eq (hrenewed input rfl hrefresh)
      rw [OpenHlNode.apply, OpenHlNode.apply, tick_withFeeds node trailing input hfresh]
      cases node.tick input with
      | error fault => rfl
      | ok result => rfl
    · intro after report hafter
      rw [OpenHlNode.apply] at hafter
      cases htick : node.tick input with
      | error fault =>
          rw [htick] at hafter
          cases hafter
      | ok result =>
          rw [htick] at hafter
          have hnone : node.renews verify (.tick input) = [] := rfl
          rw [← (Prod.mk.inj (Except.ok.inj hafter)).1, tick_feeds htick, hnone,
            List.append_nil]
          exact htrails
  · -- Both kinds of ingest only move the two tables.
    have hother : ∀ input, call ≠ .tick input :=
      fun input hinput => hcall ⟨input, hinput⟩
    refine ⟨(node.withFeeds trailing).feedsAfterCall verify call, ?_, ?_⟩
    · rw [apply_of_not_tick verify _ hother, apply_of_not_tick verify _ hother]
      rfl
    · intro after report hafter
      rw [apply_of_not_tick verify _ hother] at hafter
      rw [← (Prod.mk.inj (Except.ok.inj hafter)).1]
      exact htrails.feedsAfterCall verify call

theorem reports_withFeeds {renewed : List FeedId} {trailing : SortedMap FeedId FeedRecord}
    {node : OpenHlNode} (htrails : Trails renewed trailing node.oracle.feeds)
    {calls : List Call} (hcalls : node.FeedsRenewed verify renewed calls) :
    (node.withFeeds trailing).reports verify calls = node.reports verify calls := by
  induction calls generalizing renewed trailing node with
  | nil => rfl
  | cons call rest ih =>
      obtain ⟨later, happly, hlater⟩ := htrails.apply verify call hcalls.1
      rw [reports, reports, happly]
      cases hafter : node.apply verify call with
      | error fault => rfl
      | ok result =>
          obtain ⟨after, report⟩ := result
          have hrest := ih (hlater after report hafter) (hcalls.2 after report hafter)
          change (do
            let later ← (after.withFeeds later).reports verify rest
            return report.toList ++ later) = _
          rw [hrest]
          rfl

/-- A coordinator that restarts after any run reports what it would have reported
without the restart, as long as no refresh relies on an observation from before. -/
theorem restarted_reports {config : OpenHlNodeConfig} {node : OpenHlNode}
    (hreachable : Reachable config node) {calls : List Call}
    (hcalls : node.FeedsRenewed verify [] calls) :
    node.restarted.reports verify calls = node.reports verify calls := by
  rw [restarted_eq hreachable.configured.2]
  apply reports_withFeeds verify _ hcalls
  intro feed
  rw [SortedMap.get?_empty]
  cases node.oracle.feeds.get? feed with
  | none => exact .inl rfl
  | some record =>
      exact .inr ⟨List.not_mem_nil, record, rfl, fun _ holder => by cases holder⟩

/-- An observation of a feed at the price 100. -/
def observedAt (feed : FeedId) (timestamp : U64) : PriceObservation :=
  { feed := feed, price := 100, timestamp := timestamp,
    signature := Vector.replicate 64 0 }

/-- A coordinator with two feeds observed at time zero. -/
def twoFeeds : OpenHlNode :=
  (new .hyperliquidDefault).withFeeds
    ((SortedMap.empty.insert 0 (recordOf (observedAt 0 0))).insert 1
      (recordOf (observedAt 1 0)))

def tickAt (blockTime : U64) : TickInput :=
  { blockHeight := 1, blockTime := blockTime, mark := 100, accountSnapshots := [],
    vaultTotalAssets := 0 }

theorem twoFeeds_reachable : Reachable .hyperliquidDefault twoFeeds :=
  .oracle _ rfl (.start .empty)

/-- Both feeds report again before the first tick after the restart. -/
def renewedCalls : List Call :=
  [.ingest (observedAt 0 1) 1, .ingest (observedAt 1 1) 1, .tick (tickAt 1)]

theorem restarted_reports_renewedCalls :
    twoFeeds.restarted.reports (fun _ _ => false) renewedCalls =
      twoFeeds.reports (fun _ _ => false) renewedCalls := by
  apply restarted_reports _ twoFeeds_reachable
  refine ⟨by simp, ?_⟩
  intro first report hfirst
  cases hfirst
  refine ⟨by simp, ?_⟩
  intro second report hsecond
  cases hsecond
  refine ⟨?_, fun _ _ _ => trivial⟩
  intro input hinput hrefresh feed record hrecord
  left
  have hmem : (feed, record) ∈
      [(0, recordOf (observedAt 0 1)), (1, recordOf (observedAt 1 1))] :=
    (SortedMap.get?_eq_some_iff _).1 hrecord
  change feed ∈ [0, 1]
  exact List.mem_map_of_mem (f := Prod.fst) hmem

theorem not_forall_restarted_reports :
    ¬ ∀ (verify : PriceObservation → PublisherKey → Bool) (config : OpenHlNodeConfig)
      (node : OpenHlNode), Reachable config node → ∀ calls : List Call,
        node.restarted.reports verify calls = node.reports verify calls := by
  intro hsame
  have hreports := hsame (fun _ _ => false) .hyperliquidDefault twoFeeds
    twoFeeds_reachable [.tick (tickAt 0)]
  have hrefreshed := congrArg
    (Except.map fun reports => reports.map fun report =>
      report.oracle.map fun result => result.toOption.isSome) hreports
  exact absurd hrefreshed (by decide)

end OpenHlNode

end OpenHl.Node
