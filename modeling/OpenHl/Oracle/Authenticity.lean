import OpenHl.Core.Framing
import OpenHl.Core.Journal
import OpenHl.Oracle.State

/-!
# Where the records of the feed table come from

A publisher signs twenty bytes, the feed, the price and the time of an observation, and
the oracle checks the signature with the key that is registered for the feed when the
observation arrives.  Keys are replaced and revoked at any time; a record stays.

`feedRecords_authentic`: whatever the order of registrations, revocations, observations
and refreshes, a record of the table was signed with the key of its feed at the time, its
timestamp never decreases, and the signed bytes belong to no other observation, so that to
reuse a signature takes one that verifies over two messages.
-/

namespace OpenHl.Oracle

open Machine

/-- The bytes a publisher signs: feed, price and timestamp, big-endian. -/
def PriceObservation.signedBytes (observation : PriceObservation) : List U8 :=
  BigEndian.toBytes 4 observation.feed.val ++
    (BigEndian.toBytes 8 observation.price.val ++
      BigEndian.toBytes 8 observation.timestamp.val)

theorem signedBytes_length (observation : PriceObservation) :
    observation.signedBytes.length = 20 := by
  simp [PriceObservation.signedBytes]

theorem signedBytes_inj {left right : PriceObservation}
    (heq : left.signedBytes = right.signedBytes) :
    left.feed = right.feed ∧ left.price = right.price ∧
      left.timestamp = right.timestamp := by
  have hword := Framing.prefixFree_bigEndian (by norm_num : 2 ^ 64 = 256 ^ 8)
  have hfields := (Framing.prefixFree_bigEndian (by norm_num : 2 ^ 32 = 256 ^ 4)).pair
    (hword.pair hword)
  have hsame : (left.feed, left.price, left.timestamp) =
      (right.feed, right.price, right.timestamp) := hfields.injective heq
  simpa using hsame

/-- The signature library: keys and signatures are parsed from their bytes, and either
may be malformed. -/
structure Ecdsa (VerifyingKey Parsed : Type*) where
  fromSec1Bytes : PublisherKey → Option VerifyingKey
  fromSlice : Signature → Option Parsed
  verify : VerifyingKey → List U8 → Parsed → Bool

variable {VerifyingKey Parsed : Type*} (ecdsa : Ecdsa VerifyingKey Parsed)

/-- Whether the signature is one of the key over the message. -/
def Ecdsa.accepts (key : PublisherKey) (message : List U8) (signature : Signature) : Bool :=
  match ecdsa.fromSec1Bytes key with
  | none => false
  | some verifyingKey =>
      match ecdsa.fromSlice signature with
      | none => false
      | some parsed => ecdsa.verify verifyingKey message parsed

def verifyObservation (observation : PriceObservation) (pubkey : PublisherKey) : Bool :=
  ecdsa.accepts pubkey observation.signedBytes observation.signature

/-! ## Calls -/

inductive OracleCall where
  | registerPublisher (feed : FeedId) (key : PublisherKey)
  | revokePublisher (feed : FeedId)
  | ingestSigned (observation : PriceObservation) (now : U64)
  | refresh (now : U64)
  deriving DecidableEq

inductive OracleReply where
  | done
  | ingested
  | refused (failure : ObservationError)
  | refreshed (result : Except AggregationError AggregatedPrice)

namespace OracleState

def call (oracle : OracleState) : OracleCall → OracleState × OracleReply
  | .registerPublisher feed key => (oracle.registerPublisher feed key, .done)
  | .revokePublisher feed => (oracle.revokePublisher feed, .done)
  | .ingestSigned observation now =>
      match oracle.ingestSigned (verifyObservation ecdsa) observation now with
      | .ok after => (after, .ingested)
      | .error failure => (oracle, .refused failure)
  | .refresh now => ((oracle.refresh now).1, .refreshed (oracle.refresh now).2)

/-- The oracle after any calls. -/
def run (oracle : OracleState) (calls : List OracleCall) : OracleState :=
  Journal.run (call ecdsa) oracle calls

end OracleState

/-! ## One call -/

def FeedRecord.of (observation : PriceObservation) : FeedRecord :=
  { lastPrice := observation.price, lastTimestamp := observation.timestamp }

/-- The oracle takes the observation, which the key registered for its feed signed. -/
structure Takes (oracle : OracleState) (observation : PriceObservation) (now : U64)
    (key : PublisherKey) : Prop where
  registered : oracle.publishers.get? observation.feed = some key
  accepted : (oracle.ingestSigned (verifyObservation ecdsa) observation now).isOk = true
  verified : ecdsa.accepts key observation.signedBytes observation.signature = true

theorem validateAndStore_eq_ok {oracle after : OracleState}
    {observation : PriceObservation} {now : U64}
    (hstore : oracle.validateAndStore observation now = .ok after) :
    (∀ prior, oracle.feeds.get? observation.feed = some prior →
      prior.lastTimestamp ≤ observation.timestamp) ∧
    after.feeds = oracle.feeds.insert observation.feed (.of observation) := by
  simp only [OracleState.validateAndStore] at hstore
  split_ifs at hstore with hfuture hstale hzero hreplay
  obtain rfl := Except.ok.inj hstore
  refine ⟨fun prior hprior => ?_, rfl⟩
  simpa [hprior] using hreplay

/-- What taking an observation found and did. -/
theorem ingestSigned_eq_ok {oracle after : OracleState} {observation : PriceObservation}
    {now : U64}
    (hingest : oracle.ingestSigned (verifyObservation ecdsa) observation now = .ok after) :
    (∃ key, Takes ecdsa oracle observation now key) ∧
    (∀ prior, oracle.feeds.get? observation.feed = some prior →
      prior.lastTimestamp ≤ observation.timestamp) ∧
    after.feeds = oracle.feeds.insert observation.feed (.of observation) := by
  have haccepted : (oracle.ingestSigned (verifyObservation ecdsa) observation now).isOk =
      true := by rw [hingest]; rfl
  rw [OracleState.ingestSigned] at hingest
  cases hkey : oracle.publishers.get? observation.feed with
  | none => simp [hkey] at hingest
  | some key =>
      simp only [hkey] at hingest
      split_ifs at hingest with hverify
      have hverified : verifyObservation ecdsa observation key = true := by
        simpa using hverify
      exact ⟨⟨key, hkey, haccepted, hverified⟩, validateAndStore_eq_ok hingest⟩

/-- A call changes the table by an observation it takes, or not at all. -/
theorem call_feeds_cases (oracle : OracleState) (next : OracleCall) :
    (oracle.call ecdsa next).1.feeds = oracle.feeds ∨
    ∃ observation now key, next = .ingestSigned observation now ∧
      Takes ecdsa oracle observation now key ∧
      (∀ prior, oracle.feeds.get? observation.feed = some prior →
        prior.lastTimestamp ≤ observation.timestamp) ∧
      (oracle.call ecdsa next).1.feeds =
        oracle.feeds.insert observation.feed (.of observation) := by
  cases next with
  | registerPublisher feed key => exact .inl rfl
  | revokePublisher feed => exact .inl rfl
  | ingestSigned observation now =>
      rw [OracleState.call]
      cases hingest : oracle.ingestSigned (verifyObservation ecdsa) observation now with
      | error failure => exact .inl rfl
      | ok after =>
          obtain ⟨⟨key, htakes⟩, hnewer, hfeeds⟩ := ingestSigned_eq_ok ecdsa hingest
          exact .inr ⟨observation, now, key, rfl, htakes, hnewer, hfeeds⟩
  | refresh now =>
      refine .inl ?_
      simp only [OracleState.call, OracleState.refresh]
      cases aggregateIndex (oracle.freshPrices now) oracle.params with
      | error failure => rfl
      | ok index => rfl

/-! ## Whole runs -/

/-- The feeds of the first oracle are in the second with no earlier timestamp. -/
def FeedsLe (earlier later : OracleState) : Prop :=
  ∀ feed record, earlier.feeds.get? feed = some record →
    ∃ newer, later.feeds.get? feed = some newer ∧
      record.lastTimestamp ≤ newer.lastTimestamp

theorem FeedsLe.refl (oracle : OracleState) : FeedsLe oracle oracle :=
  fun _ record hrecord => ⟨record, hrecord, le_rfl⟩

theorem FeedsLe.trans {first second third : OracleState} (hfirst : FeedsLe first second)
    (hsecond : FeedsLe second third) : FeedsLe first third := by
  intro feed record hrecord
  obtain ⟨middle, hmiddle, hle⟩ := hfirst feed record hrecord
  obtain ⟨last, hlast, hnext⟩ := hsecond feed middle hmiddle
  exact ⟨last, hlast, hle.trans hnext⟩

theorem feedsLe_call (oracle : OracleState) (next : OracleCall) :
    FeedsLe oracle (oracle.call ecdsa next).1 := by
  intro feed record hrecord
  obtain hsame | ⟨observation, now, key, -, -, hnewer, hfeeds⟩ :=
    call_feeds_cases ecdsa oracle next
  · exact ⟨record, by rw [hsame, hrecord], le_rfl⟩
  · rw [hfeeds, SortedMap.get?_insert]
    split_ifs with hfeed
    · subst hfeed
      exact ⟨.of observation, rfl, hnewer record hrecord⟩
    · exact ⟨record, hrecord, le_rfl⟩

theorem feedsLe_run (oracle : OracleState) (calls : List OracleCall) :
    FeedsLe oracle (oracle.run ecdsa calls) :=
  Journal.run_le FeedsLe.refl (fun _ _ _ => FeedsLe.trans) (feedsLe_call ecdsa) calls

def HoldsRecord (oracle : OracleState) (entry : FeedId × FeedRecord) : Prop :=
  oracle.feeds.get? entry.1 = some entry.2

/-- The call takes an observation of just this record. -/
def Introduces (oracle : OracleState) (next : OracleCall)
    (entry : FeedId × FeedRecord) : Prop :=
  ∃ observation now key, next = .ingestSigned observation now ∧
    Takes ecdsa oracle observation now key ∧ observation.feed = entry.1 ∧
    observation.price = entry.2.lastPrice ∧ observation.timestamp = entry.2.lastTimestamp

theorem introduces_of_call (oracle : OracleState) (next : OracleCall)
    (entry : FeedId × FeedRecord)
    (hentry : HoldsRecord (oracle.call ecdsa next).1 entry) :
    HoldsRecord oracle entry ∨ Introduces ecdsa oracle next entry := by
  rw [HoldsRecord] at hentry ⊢
  obtain hsame | ⟨observation, now, key, hnext, htakes, -, hfeeds⟩ :=
    call_feeds_cases ecdsa oracle next
  · exact .inl (hsame ▸ hentry)
  · rw [hfeeds, SortedMap.get?_insert] at hentry
    split_ifs at hentry with hfeed
    · have hrecord : FeedRecord.of observation = entry.2 := Option.some.inj hentry
      refine .inr ⟨observation, now, key, hnext, htakes, hfeed.symm, ?_, ?_⟩
      · rw [← hrecord]
        rfl
      · rw [← hrecord]
        rfl
    · exact .inl hentry

/-- Whoever has a signature taken for two observations has one that verifies, under the keys
of their feeds, over two different messages. -/
theorem Takes.reused {oracle other : OracleState} {observation reused : PriceObservation}
    {now again : U64} {key otherKey : PublisherKey}
    (htakes : Takes ecdsa oracle observation now key)
    (hreused : Takes ecdsa other reused again otherKey)
    (hsignature : reused.signature = observation.signature)
    (hdiffer : ¬ (reused.feed = observation.feed ∧ reused.price = observation.price ∧
      reused.timestamp = observation.timestamp)) :
    reused.signedBytes ≠ observation.signedBytes ∧
      ecdsa.accepts key observation.signedBytes observation.signature = true ∧
      ecdsa.accepts otherKey reused.signedBytes observation.signature = true := by
  have hverified := hreused.verified
  rw [hsignature] at hverified
  exact ⟨fun hbytes => hdiffer (signedBytes_inj hbytes), htakes.verified, hverified⟩

/-- In every run of a new oracle with registrations, revocations, signed observations and
refreshes:

every record of the table came with an observation of the same feed, price and timestamp
that the oracle took, whose signature verified under the key registered for the feed
then; a feed keeps its record or gets one with no earlier timestamp; two observations
have the same signed bytes only if they agree in feed, price and timestamp, so that
one signature taken for two observations that do not, under whatever keys, has verified
over two different messages. -/
theorem feedRecords_authentic (params : OracleParams) (calls : List OracleCall) :
    (∀ feed record,
      ((OracleState.new params).run ecdsa calls).feeds.get? feed = some record →
      ∃ before observation now key, before ++ [.ingestSigned observation now] <+: calls ∧
        Takes ecdsa ((OracleState.new params).run ecdsa before) observation now key ∧
        observation.feed = feed ∧ observation.price = record.lastPrice ∧
        observation.timestamp = record.lastTimestamp) ∧
    (∀ before segment, before ++ segment <+: calls → ∀ feed record,
      ((OracleState.new params).run ecdsa before).feeds.get? feed = some record →
      ∃ newer, ((OracleState.new params).run ecdsa (before ++ segment)).feeds.get? feed =
          some newer ∧
        record.lastTimestamp ≤ newer.lastTimestamp) ∧
    (∀ left right : PriceObservation, left.signedBytes = right.signedBytes ↔
      left.feed = right.feed ∧ left.price = right.price ∧
        left.timestamp = right.timestamp) ∧
    ∀ oracle observation now key other reused again otherKey,
      Takes ecdsa oracle observation now key → Takes ecdsa other reused again otherKey →
      reused.signature = observation.signature →
      ¬ (reused.feed = observation.feed ∧ reused.price = observation.price ∧
        reused.timestamp = observation.timestamp) →
      reused.signedBytes ≠ observation.signedBytes ∧
        ecdsa.accepts key observation.signedBytes observation.signature = true ∧
        ecdsa.accepts otherKey reused.signedBytes observation.signature = true := by
  refine ⟨?_, ?_, ?_, ?_⟩
  · intro feed record hrecord
    obtain hstart | ⟨before, next, hbefore, observation, now, key, rfl, htakes, hsame⟩ :=
      Journal.run_origin (introduces_of_call ecdsa) calls (feed, record) hrecord
    · cases hstart
    · exact ⟨before, observation, now, key, hbefore, htakes, hsame⟩
  · intro before segment _
    rw [OracleState.run, OracleState.run, Journal.run_append]
    exact feedsLe_run ecdsa _ segment
  · intro left right
    refine ⟨signedBytes_inj, ?_⟩
    rintro ⟨hfeed, hprice, htimestamp⟩
    rw [PriceObservation.signedBytes, hfeed, hprice, htimestamp]
    rfl
  · intro oracle observation now key other reused again otherKey htakes hreused
    exact htakes.reused ecdsa hreused

/-- Signatures that repeat the message and the key. -/
def transparentEcdsa : Ecdsa PublisherKey Signature where
  fromSec1Bytes := some
  fromSlice := some
  verify key message signature :=
    signature.toList = message ++ (List.replicate 11 0 ++ key.toList)

/-- Such a signature verifies over one message of that length only. -/
theorem transparentEcdsa_message {key otherKey : PublisherKey} {message other : List U8}
    {signature : Signature} (hlength : message.length = other.length)
    (hmessage : transparentEcdsa.accepts key message signature = true)
    (hother : transparentEcdsa.accepts otherKey other signature = true) :
    message = other := by
  have hread : signature.toList = message ++ _ := of_decide_eq_true hmessage
  have hagain : signature.toList = other ++ _ := of_decide_eq_true hother
  exact (List.append_inj (hread.symm.trans hagain) hlength).1

def keyOf (byte : U8) : PublisherKey := Vector.replicate 33 byte

/-- An observation of feed 1 below 256, signed with the key of the given byte. -/
def signedPrice (price timestamp : U8) (byte : U8) : PriceObservation :=
  { feed := 1, price := Fin.ofNat _ price.val, timestamp := Fin.ofNat _ timestamp.val
    signature := Vector.ofFn fun index =>
      ([0, 0, 0, 1, 0, 0, 0, 0, 0, 0, 0, price, 0, 0, 0, 0, 0, 0, 0, timestamp] ++
        (List.replicate 11 0 ++ List.replicate 33 byte)).getD index 0 }

/-- Feed 1 with a key that is replaced: the observation under the old key is refused then. -/
def rotatedKey : List OracleCall :=
  [.registerPublisher 1 (keyOf 2), .ingestSigned (signedPrice 100 10 2) 10,
    .registerPublisher 1 (keyOf 3), .ingestSigned (signedPrice 110 20 3) 20,
    .ingestSigned (signedPrice 120 30 2) 30]

/-- The record of the last observation taken, and nothing else is taken with its signature
anywhere. -/
theorem feedRecords_authentic_rotatedKey :
    ∃ before observation now key, before ++ [.ingestSigned observation now] <+: rotatedKey ∧
      Takes transparentEcdsa ((OracleState.new .hyperliquidDefault).run transparentEcdsa
        before) observation now key ∧
      observation.feed = 1 ∧ observation.price = 110 ∧ observation.timestamp = 20 ∧
      ∀ other reused again otherKey, Takes transparentEcdsa other reused again otherKey →
        reused.signature = observation.signature →
          reused.feed = 1 ∧ reused.price = 110 ∧ reused.timestamp = 20 := by
  have hauthentic := feedRecords_authentic transparentEcdsa .hyperliquidDefault rotatedKey
  obtain ⟨before, observation, now, key, hbefore, htakes, hfeed, hprice, htime⟩ :=
    hauthentic.1 1 { lastPrice := 110, lastTimestamp := 20 } (by decide +kernel)
  refine ⟨before, observation, now, key, hbefore, htakes, hfeed, hprice, htime, ?_⟩
  intro other reused again otherKey hreused hsignature
  dsimp only at hprice htime
  by_contra hdiffer
  rw [← hfeed, ← hprice, ← htime] at hdiffer
  obtain ⟨hbytes, hverified, hagain⟩ := hauthentic.2.2.2 _ observation now key other reused
    again otherKey htakes hreused hsignature hdiffer
  have hlength := (signedBytes_length reused).trans (signedBytes_length observation).symm
  exact hbytes (transparentEcdsa_message hlength hagain hverified)

end OpenHl.Oracle
