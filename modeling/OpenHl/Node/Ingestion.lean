import OpenHl.Core.LatestWins
import OpenHl.Node.Snapshot

/-!
# The order of observations

Validators receive the observations of a block in different orders, and the oracle
refuses an observation that is older than what it has of the feed.

`ingestAll_perm`: the oracle after some observations does not depend on their order,
nor does anything the coordinator reports from then on, although the single calls
succeed in one order and fail in another.
-/

namespace OpenHl.Node

open Machine OpenHl.Clob OpenHl.Funding OpenHl.Liquidation OpenHl.Oracle OpenHl.Vault

/-- The two ways of an observation into the feed table. -/
inductive IngestPath where
  | unsigned
  | signed
  deriving DecidableEq

namespace OpenHlNode

variable (verify : PriceObservation → PublisherKey → Bool)

def ingestBy (oracle : OracleState) (path : IngestPath) (observation : PriceObservation)
    (now : U64) : Except ObservationError OracleState :=
  match path with
  | .unsigned => oracle.ingest observation now
  | .signed => oracle.ingestSigned verify observation now

/-- The oracle after an observation, which it may have refused. -/
def ingestOne (now : U64) (oracle : OracleState)
    (entry : IngestPath × PriceObservation) : OracleState :=
  match ingestBy verify oracle entry.1 entry.2 now with
  | .error _ => oracle
  | .ok after => after

def ingestAll (now : U64) (oracle : OracleState)
    (observations : List (IngestPath × PriceObservation)) : OracleState :=
  observations.foldl (ingestOne verify now) oracle

/-- An observation that passes all checks but the comparison with the table. -/
def eligible (publishers : SortedMap FeedId PublisherKey) (params : OracleParams)
    (now : U64) (entry : IngestPath × PriceObservation) : Bool :=
  (match entry.1 with
    | .unsigned => true
    | .signed => (publishers.get? entry.2.feed).any (verify entry.2)) &&
  acceptable params entry.2 now

theorem feedsAfter_eq_store (oracle : OracleState) (observation : PriceObservation)
    (now : U64) :
    feedsAfter oracle observation now =
      if acceptable oracle.params observation now then
        LatestWins.store FeedRecord.lastTimestamp oracle.feeds observation.feed
          (recordOf observation)
      else oracle.feeds := by
  rw [feedsAfter_eq]
  cases acceptable oracle.params observation now with
  | false => rfl
  | true =>
      cases hreplays : replays oracle.feeds observation with
      | false => exact (if_neg (Bool.eq_false_iff.1 hreplays)).symm
      | true => exact (if_pos hreplays).symm

theorem ingestOne_eq (now : U64) (oracle : OracleState)
    (entry : IngestPath × PriceObservation) :
    ingestOne verify now oracle entry =
      { oracle with
        feeds :=
          if eligible verify oracle.publishers oracle.params now entry then
            LatestWins.store FeedRecord.lastTimestamp oracle.feeds entry.2.feed
              (recordOf entry.2)
          else oracle.feeds } := by
  obtain ⟨path, observation⟩ := entry
  cases path with
  | unsigned =>
      rw [ingestOne, eligible, Bool.true_and, ← feedsAfter_eq_store]
      exact validateAndStore_feedsAfter oracle observation now
  | signed =>
      rw [ingestOne, ingestBy, OracleState.ingestSigned]
      obtain hkey | ⟨key, hkey⟩ :=
        Option.eq_none_or_eq_some (oracle.publishers.get? observation.feed)
      · simp [eligible, hkey]
      · cases hverified : verify observation key with
        | false => simp [eligible, hkey, hverified]
        | true =>
            simp only [eligible, hkey, hverified, Option.any_some, Bool.true_and,
              ← feedsAfter_eq_store]
            exact validateAndStore_feedsAfter oracle observation now

/-- Ingesting stores the records of the eligible observations. -/
theorem ingestAll_eq (now : U64) (oracle : OracleState)
    (observations : List (IngestPath × PriceObservation)) :
    ingestAll verify now oracle observations =
      { oracle with
        feeds := ((observations.filter
            (eligible verify oracle.publishers oracle.params now)).map
              fun entry => (entry.2.feed, recordOf entry.2)).foldl
          (fun table entry =>
            LatestWins.store FeedRecord.lastTimestamp table entry.1 entry.2)
          oracle.feeds } := by
  induction observations generalizing oracle with
  | nil => rfl
  | cons entry rest ih =>
      rw [ingestAll, List.foldl_cons, ← ingestAll, ih, ingestOne_eq, List.filter_cons]
      split_ifs with heligible
      · rfl
      · rfl

variable {verify}

theorem ingestAll_eq_of_perm (oracle : OracleState) (now : U64)
    {left right : List (IngestPath × PriceObservation)} (hperm : left.Perm right)
    (hdistinct : (left.map fun entry => (entry.2.feed, entry.2.timestamp)).Nodup) :
    ingestAll verify now oracle left = ingestAll verify now oracle right := by
  rw [ingestAll_eq, ingestAll_eq]
  have hstored : ((left.filter (eligible verify oracle.publishers oracle.params now)).map
      fun entry => (entry.2.feed, (recordOf entry.2).lastTimestamp)).Nodup :=
    hdistinct.sublist (List.filter_sublist.map _)
  congr 1
  apply LatestWins.foldl_store_perm ((hperm.filter _).map _)
  rw [List.map_map]
  exact hstored

end OpenHlNode

open OpenHlNode

/-- The oracle after some observations, no two of the same feed and time, is the same
for every order of them, and so is every later refresh and every report of a
coordinator that uses it.  Yet an observation may be accepted in one order and refused
in another. -/
theorem ingestAll_perm :
    (∀ (verify : PriceObservation → PublisherKey → Bool) (oracle : OracleState)
      (now : U64) (left right : List (IngestPath × PriceObservation)),
      left.Perm right →
      (left.map fun entry => (entry.2.feed, entry.2.timestamp)).Nodup →
      (ingestAll verify now oracle left).feeds =
        (ingestAll verify now oracle right).feeds ∧
      (∀ later, (ingestAll verify now oracle left).refresh later =
        (ingestAll verify now oracle right).refresh later) ∧
      ∀ (node : OpenHlNode) (calls : List OpenHlNode.Call),
        { node with oracle := ingestAll verify now oracle left }.reports verify calls =
          { node with oracle := ingestAll verify now oracle right }.reports verify
            calls) ∧
    ∃ (oracle : OracleState) (now : U64) (first second : PriceObservation),
      (first.feed, first.timestamp) ≠ (second.feed, second.timestamp) ∧
      (∃ after, oracle.ingest first now = .ok after) ∧
      ∃ after, oracle.ingest second now = .ok after ∧
        ∃ failure, after.ingest first now = .error failure := by
  constructor
  · intro verify oracle now left right hperm hdistinct
    have hsame : ingestAll verify now oracle left = ingestAll verify now oracle right :=
      ingestAll_eq_of_perm oracle now hperm hdistinct
    rw [hsame]
    exact ⟨rfl, fun _ => rfl, fun _ _ => rfl⟩
  · refine ⟨.new .hyperliquidDefault, 2, observedAt 0 1, observedAt 0 2, by decide,
      ⟨_, rfl⟩, _, rfl, .stale 1 2 60, ?_⟩
    rfl

/-- Two observations of one feed, of which the second order refuses one. -/
theorem ingestAll_perm_sameFeed :
    (ingestAll (fun _ _ => false) 2 (.new .hyperliquidDefault)
        [(.unsigned, observedAt 0 1), (.unsigned, observedAt 0 2)]).feeds =
      (ingestAll (fun _ _ => false) 2 (.new .hyperliquidDefault)
        [(.unsigned, observedAt 0 2), (.unsigned, observedAt 0 1)]).feeds :=
  (ingestAll_perm.1 (fun _ _ => false) (.new .hyperliquidDefault) 2 _ _
    (.swap _ _ []) (by decide)).1

end OpenHl.Node
