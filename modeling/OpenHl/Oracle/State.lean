import OpenHl.Core.SortedMap
import OpenHl.Funding.Clock
import Mathlib.Data.List.Sort

/-!
# The oracle

`crates/oracle`: the latest observation per feed, and the index price that is
aggregated from the fresh ones.  Signature verification is outside the
repository and is a parameter of `ingestSigned`.
-/

namespace OpenHl.Oracle

open Machine OpenHl.Funding

abbrev FeedId := U32
abbrev PublisherKey := Vector U8 33
abbrev Signature := Vector U8 64

def deviationScale : ℕ := 10000

structure OracleParams where
  stalenessWindowSecs : U64
  minFeedsRequired : U8
  maxDeviationBps : U32
  aggregateMaxAgeSecs : U64
  deriving DecidableEq

def OracleParams.hyperliquidDefault : OracleParams :=
  { stalenessWindowSecs := 60, minFeedsRequired := 2, maxDeviationBps := 100,
    aggregateMaxAgeSecs := 60 }

structure PriceObservation where
  feed : FeedId
  price : IndexPrice
  timestamp : U64
  signature : Signature
  deriving DecidableEq

structure AggregatedPrice where
  index : IndexPrice
  computedAt : U64
  feedsUsed : U8
  deriving DecidableEq

inductive ObservationError where
  | stale (observationTs now window : U64)
  | fromFuture (observationTs now : U64)
  | zeroPrice
  | unknownFeed (feed : FeedId)
  | invalidSignature (feed : FeedId)
  deriving DecidableEq

inductive AggregationError where
  | tooFewFreshFeeds (fresh required : U8)
  | tooFewAfterDeviationFilter (remaining required : U8)
  deriving DecidableEq

/-! ## Aggregation -/

def midpoint (low high : U64) : U64 := ⟨(low.val + high.val) / 2, by omega⟩

def computeMedian (prices : List IndexPrice) : Option IndexPrice :=
  if prices.isEmpty then none
  else
    let sorted := prices.insertionSort (· ≤ ·)
    let count := sorted.length
    if count % 2 = 1 then some (sorted.getD (count / 2) 0)
    else some (midpoint (sorted.getD (count / 2 - 1) 0) (sorted.getD (count / 2) 0))

/-- The largest value of an unsigned type where a count does not fit. -/
def saturateNat (bits : ℕ) (value : ℕ) : Fin (2 ^ bits) :=
  ⟨min value (2 ^ bits - 1), by
    have hpos := Nat.two_pow_pos bits
    omega⟩

def deviationBps (price reference : IndexPrice) : U32 :=
  if reference = 0 then saturateNat 32 (2 ^ 32)
  else
    let diff := (price.val - reference.val) + (reference.val - price.val)
    saturateNat 32 (diff * deviationScale / reference.val)

def filterByDeviation (prices : List IndexPrice) (reference : IndexPrice)
    (maxDeviationBps : U32) : List IndexPrice :=
  prices.filter fun price => deviationBps price reference ≤ maxDeviationBps

/-- Median, deviation filter around it, and the median of what is left. -/
def aggregateIndex (fresh : List IndexPrice) (params : OracleParams) :
    Except AggregationError IndexPrice :=
  let required := params.minFeedsRequired
  let freshCount : U8 := saturateNat 8 fresh.length
  if freshCount < required then .error (.tooFewFreshFeeds freshCount required)
  else
    match computeMedian fresh with
    | none => .error (.tooFewFreshFeeds 0 required)
    | some initial =>
        let filtered := filterByDeviation fresh initial params.maxDeviationBps
        let filteredCount : U8 := saturateNat 8 filtered.length
        if filteredCount < required then
          .error (.tooFewAfterDeviationFilter filteredCount required)
        else
          match computeMedian filtered with
          | none => .error (.tooFewAfterDeviationFilter 0 required)
          | some index => .ok index

/-! ## State -/

structure FeedRecord where
  lastPrice : IndexPrice
  lastTimestamp : U64
  deriving DecidableEq

structure OracleState where
  params : OracleParams
  feeds : SortedMap FeedId FeedRecord
  publishers : SortedMap FeedId PublisherKey
  current : Option AggregatedPrice

namespace OracleState

def new (params : OracleParams) : OracleState :=
  { params := params, feeds := SortedMap.empty, publishers := SortedMap.empty,
    current := none }

def isStale (observationTs now window : U64) : Bool :=
  observationTs < now.saturatingSub window

def validateAndStore (oracle : OracleState) (observation : PriceObservation)
    (now : U64) : Except ObservationError OracleState :=
  let window := oracle.params.stalenessWindowSecs
  if now < observation.timestamp then
    .error (.fromFuture observation.timestamp now)
  else if isStale observation.timestamp now window then
    .error (.stale observation.timestamp now window)
  else if observation.price = 0 then .error .zeroPrice
  else if (oracle.feeds.get? observation.feed).any
      fun prior => observation.timestamp < prior.lastTimestamp then
    .error (.stale observation.timestamp now window)
  else
    .ok { oracle with
      feeds := oracle.feeds.insert observation.feed
        { lastPrice := observation.price, lastTimestamp := observation.timestamp } }

/-- The trusted path, which ignores the signature. -/
def ingest (oracle : OracleState) (observation : PriceObservation) (now : U64) :
    Except ObservationError OracleState :=
  oracle.validateAndStore observation now

/-- Register the key of a feed, replacing an earlier one. -/
def registerPublisher (oracle : OracleState) (feed : FeedId) (key : PublisherKey) :
    OracleState :=
  { oracle with publishers := oracle.publishers.insert feed key }

/-- Remove the key of a feed; what it published stays in the table. -/
def revokePublisher (oracle : OracleState) (feed : FeedId) : OracleState :=
  { oracle with publishers := oracle.publishers.erase feed }

def ingestSigned (verify : PriceObservation → PublisherKey → Bool)
    (oracle : OracleState) (observation : PriceObservation) (now : U64) :
    Except ObservationError OracleState :=
  match oracle.publishers.get? observation.feed with
  | none => .error (.unknownFeed observation.feed)
  | some key =>
      if !verify observation key then .error (.invalidSignature observation.feed)
      else oracle.validateAndStore observation now

/-- The cached index, unless it is older than the maximal age. -/
def currentPriceFreshAt (oracle : OracleState) (now : U64) : Option IndexPrice :=
  match oracle.current with
  | none => none
  | some aggregate =>
      if now.saturatingSub aggregate.computedAt ≤ oracle.params.aggregateMaxAgeSecs then
        some aggregate.index
      else none

def restoreCurrent (oracle : OracleState) (price : AggregatedPrice) : OracleState :=
  { oracle with current := some price }

/-- Prices of the feeds that are not stale, in feed order. -/
def freshPrices (oracle : OracleState) (now : U64) : List IndexPrice :=
  (oracle.feeds.values.filter fun record =>
    !isStale record.lastTimestamp now oracle.params.stalenessWindowSecs).map
      FeedRecord.lastPrice

def refresh (oracle : OracleState) (now : U64) :
    OracleState × Except AggregationError AggregatedPrice :=
  let fresh := oracle.freshPrices now
  match aggregateIndex fresh oracle.params with
  | .error failure => (oracle, .error failure)
  | .ok index =>
      let aggregate : AggregatedPrice :=
        { index := index, computedAt := now, feedsUsed := saturateNat 8 fresh.length }
      ({ oracle with current := some aggregate }, .ok aggregate)

end OracleState

end OpenHl.Oracle
