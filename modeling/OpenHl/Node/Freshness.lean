import OpenHl.Node.Snapshot

/-!
# The age of the prices behind an index

An observation is checked against the clock when it is ingested, a record when the
oracle is refreshed, and the cached index when a tick uses it.  A refresh that fails
keeps the index of an earlier one, and a snapshot carries it into the next boot.

`tick_index_fresh`: in every run with non-decreasing times, restarts included, the
records behind the index that a tick uses are no older than the maximal age of an index
and the staleness window together, and none is from the future.  A tick without such an
index scans at the mark of its input and settles no funding.
-/

namespace OpenHl.Node

open Machine OpenHl.Clob OpenHl.Funding OpenHl.Liquidation OpenHl.Oracle OpenHl.Vault

namespace OpenHlNode

theorem maybeRefreshOracle_fundingClock (node : OpenHlNode) (blockTime : U64) :
    (node.maybeRefreshOracle blockTime).1.fundingClock = node.fundingClock :=
  maybeRefreshOracle_keeps OpenHlNode.fundingClock (fun _ _ _ => rfl) node blockTime

end OpenHlNode

/-- The feed records that a refresh at this time aggregates. -/
def freshRecords (oracle : OracleState) (now : U64) : List FeedRecord :=
  oracle.feeds.values.filter fun record =>
    !OracleState.isStale record.lastTimestamp now oracle.params.stalenessWindowSecs

/-- A coordinator in a run, with the records that its cached index was aggregated from
and the latest time of the run. -/
structure Traced where
  node : OpenHlNode
  sources : List FeedRecord
  clock : U64

namespace Traced

/-- The records behind the cached index once a tick has had its chance to refresh. -/
def sourcesAt (traced : Traced) (blockTime : U64) : List FeedRecord :=
  match (traced.node.maybeRefreshOracle blockTime).2 with
  | some (.ok _) => freshRecords traced.node.oracle blockTime
  | _ => traced.sources

/-- The time of a call. -/
def timeOf : OpenHlNode.Call → U64
  | .ingest _ now => now
  | .ingestSigned _ now => now
  | .tick input => input.blockTime

def sourcesAfter (traced : Traced) : OpenHlNode.Call → List FeedRecord
  | .ingest _ _ => traced.sources
  | .ingestSigned _ _ => traced.sources
  | .tick input => traced.sourcesAt input.blockTime

/-- A coordinator that loads the snapshot of another one. -/
def load (target source : Traced) : Traced :=
  { node := target.node.loadSnapshot source.node.snapshot
    sources := if source.node.oracle.current.isSome then source.sources
      else target.sources
    clock := max target.clock source.clock }

variable (verify : PriceObservation → PublisherKey → Bool) (params : OracleParams)

/-- The runs of coordinators with these oracle parameters: from a new one, publishers
are registered, observations ingested and blocks ticked at non-decreasing times, and
the snapshot of one run is loaded into another. -/
inductive Run : Traced → Prop
  | start (config : OpenHlNodeConfig) (fund : InsuranceFund)
      (hparams : config.oracleParams = params) :
      Run { node := .withInsuranceFund config fund, sources := [], clock := 0 }
  | register {traced : Traced} (feed : FeedId) (key : PublisherKey) (hrun : Run traced) :
      Run { traced with node := traced.node.registerPublisher feed key }
  | call {traced : Traced} {after : OpenHlNode} {report : Option TickReport}
      (hrun : Run traced) (call : OpenHlNode.Call) (hclock : traced.clock ≤ timeOf call)
      (hcall : traced.node.apply verify call = .ok (after, report)) :
      Run { node := after, sources := traced.sourcesAfter call, clock := timeOf call }
  | load {target source : Traced} (htarget : Run target) (hsource : Run source) :
      Run (target.load source)

/-- The index was aggregated from these records, all of them fresh then, and not after
the given time. -/
structure AggregatedFrom (sources : List FeedRecord) (clock : U64)
    (aggregate : AggregatedPrice) : Prop where
  computed : aggregate.computedAt ≤ clock
  index : aggregateIndex (sources.map FeedRecord.lastPrice) params = .ok aggregate.index
  fresh : ∀ record ∈ sources,
    aggregate.computedAt.saturatingSub params.stalenessWindowSecs ≤
        record.lastTimestamp ∧
      record.lastTimestamp ≤ aggregate.computedAt

structure Inv (traced : Traced) : Prop where
  configured : traced.node.oracle.params = params
  feeds : traced.node.oracle.feeds.All fun _ record =>
    record.lastTimestamp ≤ traced.clock
  current : ∀ aggregate, traced.node.oracle.current = some aggregate →
    AggregatedFrom params traced.sources traced.clock aggregate

variable {verify params} {traced : Traced}

theorem mem_freshRecords {oracle : OracleState} {now : U64} {record : FeedRecord}
    (hrecord : record ∈ freshRecords oracle now) :
    (∃ feed, oracle.feeds.get? feed = some record) ∧
      now.saturatingSub oracle.params.stalenessWindowSecs ≤ record.lastTimestamp := by
  obtain ⟨hvalue, hfresh⟩ := List.mem_filter.1 hrecord
  obtain ⟨⟨feed, stored⟩, hentry, rfl⟩ := List.mem_map.1 hvalue
  refine ⟨⟨feed, (SortedMap.get?_eq_some_iff _).2 hentry⟩, ?_⟩
  simpa [OracleState.isStale] using hfresh

theorem AggregatedFrom.later {sources : List FeedRecord} {clock later : U64}
    {aggregate : AggregatedPrice} (hfrom : AggregatedFrom params sources clock aggregate)
    (hlater : clock ≤ later) : AggregatedFrom params sources later aggregate :=
  ⟨hfrom.computed.trans hlater, hfrom.index, hfrom.fresh⟩

/-- Waiting keeps the invariant. -/
theorem Inv.later (hinv : traced.Inv params) {later : U64}
    (hlater : traced.clock ≤ later) : Inv params { traced with clock := later } where
  configured := hinv.configured
  feeds feed record hrecord := (hinv.feeds feed record hrecord).trans hlater
  current aggregate haggregate := (hinv.current aggregate haggregate).later hlater

theorem aggregatedFrom_freshRecords (hinv : traced.Inv params) {blockTime : U64}
    (hclock : traced.clock ≤ blockTime) {aggregate : AggregatedPrice}
    (haggregate : traced.node.aggregateAt blockTime = .ok aggregate) :
    AggregatedFrom params (freshRecords traced.node.oracle blockTime) blockTime
      aggregate := by
  rw [OpenHlNode.aggregateAt] at haggregate
  cases hindex : aggregateIndex (traced.node.oracle.freshPrices blockTime)
      traced.node.oracle.params with
  | error failure => simp [hindex, Except.map] at haggregate
  | ok index =>
      simp only [hindex, Except.map, Except.ok.injEq] at haggregate
      subst haggregate
      refine ⟨le_refl _, ?_, ?_⟩
      · rw [← hinv.configured]
        exact hindex
      · intro record hrecord
        obtain ⟨⟨feed, hfeed⟩, hfresh⟩ := mem_freshRecords hrecord
        rw [hinv.configured] at hfresh
        exact ⟨hfresh, (hinv.feeds feed record hfeed).trans hclock⟩

/-- A refresh keeps the old index, or aggregates the fresh records. -/
theorem Inv.refresh (hinv : traced.Inv params) {blockTime : U64}
    (hclock : traced.clock ≤ blockTime) :
    Inv params
      { node := (traced.node.maybeRefreshOracle blockTime).1
        sources := traced.sourcesAt blockTime
        clock := blockTime } := by
  have hlater := hinv.later hclock
  rw [sourcesAt, OpenHlNode.maybeRefreshOracle_eq]
  split_ifs with hshould
  · cases hresult : traced.node.aggregateAt blockTime with
    | error failure => exact hlater
    | ok aggregate =>
        refine ⟨hinv.configured, hlater.feeds, ?_⟩
        intro cached hcached
        cases Option.some.inj hcached
        exact aggregatedFrom_freshRecords hinv hclock hresult
  · exact hlater

/-- The invariant is about the oracle alone. -/
theorem Inv.of_oracle {node other : OpenHlNode} {sources : List FeedRecord} {clock : U64}
    (hinv : Inv params { node := node, sources := sources, clock := clock })
    (horacle : other.oracle = node.oracle) :
    Inv params { node := other, sources := sources, clock := clock } := by
  obtain ⟨hconfigured, hfeeds, hcurrent⟩ := hinv
  simp only [← horacle] at hconfigured hfeeds hcurrent
  exact ⟨hconfigured, hfeeds, hcurrent⟩

theorem timestamp_le_of_acceptable {observation : PriceObservation} {now : U64}
    (hacceptable : OpenHlNode.acceptable params observation now = true) :
    observation.timestamp ≤ now := by
  simp only [OpenHlNode.acceptable, Bool.and_eq_true, Bool.not_eq_true',
    decide_eq_false_iff_not, not_lt] at hacceptable
  exact hacceptable.1.1

/-- An ingested observation is not newer than the time of its call. -/
theorem Inv.ingest (hinv : traced.Inv params) {observation : PriceObservation}
    {now : U64} (hclock : traced.clock ≤ now) :
    Inv params
      { traced with
        node := traced.node.withFeeds
          (OpenHlNode.feedsAfter traced.node.oracle observation now)
        clock := now } := by
  have hlater := hinv.later hclock
  refine ⟨hinv.configured, ?_, hlater.current⟩
  change (OpenHlNode.feedsAfter traced.node.oracle observation now).All _
  rw [OpenHlNode.feedsAfter_eq]
  split_ifs with hstored
  · rw [Bool.and_eq_true] at hstored
    exact hlater.feeds.insert (timestamp_le_of_acceptable hstored.1)
  · exact hlater.feeds

theorem Inv.call (hinv : traced.Inv params) {call : OpenHlNode.Call} {after : OpenHlNode}
    {report : Option TickReport} (hclock : traced.clock ≤ timeOf call)
    (hcall : traced.node.apply verify call = .ok (after, report)) :
    Inv params
      { node := after, sources := traced.sourcesAfter call, clock := timeOf call } := by
  cases call with
  | ingest observation now =>
      rw [OpenHlNode.apply_ingest] at hcall
      rw [← (Prod.mk.inj (Except.ok.inj hcall)).1]
      exact hinv.ingest hclock
  | ingestSigned observation now =>
      rw [OpenHlNode.apply_ingestSigned, OpenHlNode.feedsAfterCall,
        OpenHlNode.admitted] at hcall
      rw [← (Prod.mk.inj (Except.ok.inj hcall)).1]
      split_ifs with hverified
      · exact hinv.ingest hclock
      · exact hinv.later hclock
  | tick input =>
      rw [OpenHlNode.apply] at hcall
      cases htick : traced.node.tick input with
      | error fault =>
          rw [htick] at hcall
          cases hcall
      | ok result =>
          rw [htick] at hcall
          rw [← (Prod.mk.inj (Except.ok.inj hcall)).1]
          exact (hinv.refresh hclock).of_oracle (OpenHlNode.tick_oracle htick)

theorem Inv.load {target source : Traced} (htarget : target.Inv params)
    (hsource : source.Inv params) : (target.load source).Inv params := by
  have hlater := htarget.later (le_max_left target.clock source.clock)
  rw [Traced.load]
  cases hcached : source.node.oracle.current with
  | none =>
      apply hlater.of_oracle
      simp [OpenHlNode.loadSnapshot, OpenHlNode.snapshot, hcached]
  | some price =>
      have horacle : (target.node.loadSnapshot source.node.snapshot).oracle =
          { target.node.oracle with current := some price } := by
        simp [OpenHlNode.loadSnapshot, OpenHlNode.snapshot, hcached,
          OracleState.restoreCurrent]
      refine ⟨?_, ?_, ?_⟩
      · simp only [horacle]
        exact htarget.configured
      · simp only [horacle]
        exact hlater.feeds
      · intro aggregate haggregate
        simp only [horacle, Option.some.injEq] at haggregate
        subst haggregate
        exact (hsource.current price hcached).later (le_max_right _ _)

theorem Run.inv (hrun : Run verify params traced) : traced.Inv params := by
  induction hrun with
  | start config fund hparams =>
      exact ⟨hparams, SortedMap.All.empty, fun aggregate hcurrent => by cases hcurrent⟩
  | register feed key _ ih => exact ⟨ih.configured, ih.feeds, ih.current⟩
  | call _ call hclock hcall ih => exact ih.call hclock hcall
  | load _ _ htarget hsource => exact htarget.load hsource

/-- The cached index, when it may still be used. -/
theorem currentPriceFreshAt_eq_some {oracle : OracleState} {now : U64}
    {index : IndexPrice} (hindex : oracle.currentPriceFreshAt now = some index) :
    ∃ aggregate, oracle.current = some aggregate ∧ aggregate.index = index ∧
      now.saturatingSub aggregate.computedAt ≤ oracle.params.aggregateMaxAgeSecs := by
  rw [OracleState.currentPriceFreshAt] at hindex
  cases hcurrent : oracle.current with
  | none => simp [hcurrent] at hindex
  | some aggregate =>
      simp only [hcurrent] at hindex
      split_ifs at hindex with hage
      exact ⟨aggregate, rfl, Option.some.inj hindex, hage⟩

/-- The two ages add up. -/
theorem AggregatedFrom.age {sources : List FeedRecord} {blockTime : U64}
    {aggregate : AggregatedPrice}
    (hfrom : AggregatedFrom params sources blockTime aggregate)
    (hage : blockTime.saturatingSub aggregate.computedAt ≤ params.aggregateMaxAgeSecs) :
    ∀ record ∈ sources,
      (blockTime.saturatingSub params.aggregateMaxAgeSecs).saturatingSub
          params.stalenessWindowSecs ≤ record.lastTimestamp ∧
        record.lastTimestamp ≤ blockTime := by
  intro record hrecord
  obtain ⟨hfresh, hpast⟩ := hfrom.fresh record hrecord
  refine ⟨?_, hpast.trans hfrom.computed⟩
  rw [Fin.le_def] at hage hfresh ⊢
  simp only [U64.saturatingSub] at hage hfresh ⊢
  omega

end Traced

/-- In every run, a tick that has an index to use scans at it and settles funding
against it, and every record the index was aggregated from is at most as old as the
maximal age of an index and the staleness window allow together; a tick without one
scans at the mark of its input and settles no funding. -/
theorem tick_index_fresh (verify : PriceObservation → PublisherKey → Bool)
    (params : OracleParams) (traced : Traced) (hrun : traced.Run verify params)
    (input : TickInput) (hclock : traced.clock ≤ input.blockTime) (after : OpenHlNode)
    (report : TickReport) (htick : traced.node.tick input = .ok (after, report)) :
    let scanned := fun mark => (scan traced.node.scanner.params mark
      traced.node.scanner.fund input.accountSnapshots).report
    match (traced.node.maybeRefreshOracle input.blockTime).1.oracle.currentPriceFreshAt
      input.blockTime with
    | some index =>
        report.liquidation = scanned index ∧
        (∃ clock, traced.node.fundingClock.tick input.blockTime input.mark index
          (input.accountSnapshots.map fun snapshot =>
            { account := snapshot.account, size := snapshot.positionSize }) =
          .ok (clock, report.funding)) ∧
        aggregateIndex ((traced.sourcesAt input.blockTime).map FeedRecord.lastPrice)
          params = .ok index ∧
        ∀ record ∈ traced.sourcesAt input.blockTime,
          (input.blockTime.saturatingSub params.aggregateMaxAgeSecs).saturatingSub
              params.stalenessWindowSecs ≤ record.lastTimestamp ∧
            record.lastTimestamp ≤ input.blockTime
    | none => report.liquidation = scanned input.mark ∧ report.funding = none := by
  have hinv := hrun.inv.refresh hclock
  have hscan := OpenHlNode.tick_liquidation htick
  obtain ⟨clock, hfunding⟩ := OpenHlNode.tick_funding htick
  rw [OpenHlNode.markFor, OpenHlNode.scanMark] at hscan
  rw [OpenHlNode.tickFunding] at hfunding
  cases hindex : (traced.node.maybeRefreshOracle
      input.blockTime).1.oracle.currentPriceFreshAt input.blockTime with
  | none =>
      rw [hindex] at hscan
      simp only [hindex, Except.ok.injEq, Prod.mk.injEq] at hfunding
      exact ⟨hscan, hfunding.2.symm⟩
  | some index =>
      rw [hindex] at hscan
      simp only [hindex] at hfunding
      obtain ⟨aggregate, hcurrent, rfl, hage⟩ := Traced.currentPriceFreshAt_eq_some hindex
      have hfrom := hinv.current aggregate hcurrent
      rw [hinv.configured] at hage
      rw [OpenHlNode.maybeRefreshOracle_fundingClock] at hfunding
      exact ⟨hscan, ⟨clock, hfunding⟩, hfrom.index, hfrom.age hage⟩

/-- The coordinator of a run with two feeds observed at time 0. -/
def twoFeedsRun : Traced :=
  { node := OpenHlNode.twoFeeds, sources := [], clock := 0 }

theorem twoFeedsRun_run : twoFeedsRun.Run (fun _ _ => false) .hyperliquidDefault := by
  have hstart : Traced.Run (fun _ _ => false) .hyperliquidDefault
      { node := .new .hyperliquidDefault, sources := [], clock := 0 } :=
    .start .hyperliquidDefault .empty rfl
  have hfirst := hstart.call (.ingest (OpenHlNode.observedAt 0 0) 0) (by decide) rfl
  exact hfirst.call (.ingest (OpenHlNode.observedAt 1 0) 0) (by decide) rfl

/-- A coordinator that boots with the index of time 0 has no feeds at time 50, and
still uses it. -/
theorem tick_index_fresh_restarted :
    ∃ (traced : Traced) (after : OpenHlNode) (report : TickReport),
      traced.node.tick (OpenHlNode.tickAt 50) = .ok (after, report) ∧
      traced.sourcesAt 50 = [OpenHlNode.recordOf (OpenHlNode.observedAt 0 0),
        OpenHlNode.recordOf (OpenHlNode.observedAt 1 0)] ∧
      ∀ record ∈ traced.sourcesAt 50, 0 ≤ record.lastTimestamp ∧
        record.lastTimestamp ≤ 50 := by
  have hticked := twoFeedsRun_run.call (.tick (OpenHlNode.tickAt 0)) (by decide) rfl
  have hbooted := Traced.Run.load (.start .hyperliquidDefault .empty rfl) hticked
  have hfresh := tick_index_fresh _ _ _ hbooted (OpenHlNode.tickAt 50) (by decide) _ _ rfl
  exact ⟨_, _, _, rfl, rfl, hfresh.2.2.2⟩

end OpenHl.Node
