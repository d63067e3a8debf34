import OpenHl.Consensus.Signing
import OpenHl.Core.Codec
import Mathlib.Tactic.DeriveEncodable

/-!
# The codec of the consensus messages

Messages travel as JSON.  Those of the engine carry no derivation of their own and are
packed into raw twins field by field, and unpacked again after reading.

`openHlCodec_roundTrips`: if `serde_json` reads back what it writes, and the bytes of peer
and stream ids tell the id, then every message of every family is read back as it was sent.
-/

namespace OpenHl.Consensus.OpenHlCodec

open Machine OpenHl.Evm

/- The signatures, certificate types, peer and stream ids of the engine, and the errors of
`serde_json`. -/
variable {Signature CertType PeerId StreamId JsonError : Type}

/-! ## Messages -/

structure SignedMessage (M Signature : Type) where
  message : M
  signature : Signature
  deriving DecidableEq

inductive SignedConsensusMsg (Signature : Type) where
  | vote (vote : SignedMessage OpenHlVote Signature)
  | proposal (proposal : SignedMessage OpenHlProposal Signature)
  deriving DecidableEq

structure PolkaSignature (Signature : Type) where
  address : Address
  signature : Signature
  deriving DecidableEq

structure PolkaCertificate (Signature : Type) where
  height : OpenHlHeight
  round : Round
  valueId : BlockHash
  polkaSignatures : List (PolkaSignature Signature)
  deriving DecidableEq

structure RoundSignature (Signature : Type) where
  voteType : VoteType
  valueId : NilOrVal BlockHash
  address : Address
  signature : Signature
  deriving DecidableEq

structure RoundCertificate (Signature CertType : Type) where
  height : OpenHlHeight
  round : Round
  certType : CertType
  roundSignatures : List (RoundSignature Signature)
  deriving DecidableEq

inductive LivenessMsg (Signature CertType : Type) where
  | vote (vote : SignedMessage OpenHlVote Signature)
  | polkaCertificate (certificate : PolkaCertificate Signature)
  | skipRoundCertificate (certificate : RoundCertificate Signature CertType)
  deriving DecidableEq

structure StreamMessage (StreamId : Type) where
  streamId : StreamId
  sequence : U64
  content : StreamContent
  deriving DecidableEq

inductive Validity where
  | valid
  | invalid
  deriving DecidableEq

/-- A proposed value as it is written to the log, with its validity. -/
structure ProposedValue where
  height : OpenHlHeight
  round : Round
  validRound : Round
  proposer : Address
  value : BlockHash
  validity : Validity
  deriving DecidableEq

structure Status (PeerId : Type) where
  peerId : PeerId
  tipHeight : OpenHlHeight
  historyMinHeight : OpenHlHeight
  deriving DecidableEq

structure ValueRequest where
  height : OpenHlHeight
  deriving DecidableEq

inductive Request where
  | valueRequest (request : ValueRequest)
  deriving DecidableEq

structure CommitSignature (Signature : Type) where
  address : Address
  signature : Signature
  deriving DecidableEq

structure CommitCertificate (Signature : Type) where
  height : OpenHlHeight
  round : Round
  valueId : BlockHash
  commitSignatures : List (CommitSignature Signature)
  deriving DecidableEq

structure RawDecidedValue (Signature : Type) where
  valueBytes : List U8
  certificate : CommitCertificate Signature
  deriving DecidableEq

structure ValueResponse (Signature : Type) where
  height : OpenHlHeight
  value : Option (RawDecidedValue Signature)
  deriving DecidableEq

inductive Response (Signature : Type) where
  | valueResponse (response : ValueResponse Signature)
  deriving DecidableEq

/-! ## Signed votes and proposals -/

structure RawSignedVote (Signature : Type) where
  message : OpenHlVote
  signature : Signature
  deriving DecidableEq

structure RawSignedProposal (Signature : Type) where
  message : OpenHlProposal
  signature : Signature
  deriving DecidableEq

inductive RawSignedConsensusMsg (Signature : Type) where
  | vote (vote : RawSignedVote Signature)
  | proposal (proposal : RawSignedProposal Signature)
  deriving DecidableEq

def RawSignedConsensusMsg.fromMsg :
    SignedConsensusMsg Signature → RawSignedConsensusMsg Signature
  | .vote v => .vote { message := v.message, signature := v.signature }
  | .proposal p => .proposal { message := p.message, signature := p.signature }

def RawSignedConsensusMsg.intoMsg :
    RawSignedConsensusMsg Signature → SignedConsensusMsg Signature
  | .vote v => .vote { message := v.message, signature := v.signature }
  | .proposal p => .proposal { message := p.message, signature := p.signature }

/-! ## Liveness messages -/

structure RawPolkaSignature (Signature : Type) where
  address : Address
  signature : Signature
  deriving DecidableEq

structure RawPolkaCertificate (Signature : Type) where
  height : OpenHlHeight
  round : Round
  valueId : BlockHash
  polkaSignatures : List (RawPolkaSignature Signature)
  deriving DecidableEq

structure RawRoundSignature (Signature : Type) where
  voteType : VoteType
  valueId : NilOrVal BlockHash
  address : Address
  signature : Signature
  deriving DecidableEq

structure RawRoundCertificate (Signature CertType : Type) where
  height : OpenHlHeight
  round : Round
  certType : CertType
  roundSignatures : List (RawRoundSignature Signature)
  deriving DecidableEq

inductive RawLivenessMsg (Signature CertType : Type) where
  | vote (vote : RawSignedVote Signature)
  | polkaCertificate (certificate : RawPolkaCertificate Signature)
  | skipRoundCertificate (certificate : RawRoundCertificate Signature CertType)
  deriving DecidableEq

def RawLivenessMsg.fromMsg :
    LivenessMsg Signature CertType → RawLivenessMsg Signature CertType
  | .vote v => .vote { message := v.message, signature := v.signature }
  | .polkaCertificate c => .polkaCertificate
      { height := c.height
        round := c.round
        valueId := c.valueId
        polkaSignatures := c.polkaSignatures.map fun s =>
          { address := s.address, signature := s.signature } }
  | .skipRoundCertificate c => .skipRoundCertificate
      { height := c.height
        round := c.round
        certType := c.certType
        roundSignatures := c.roundSignatures.map fun s =>
          { voteType := s.voteType
            valueId := s.valueId
            address := s.address
            signature := s.signature } }

def RawLivenessMsg.intoMsg :
    RawLivenessMsg Signature CertType → LivenessMsg Signature CertType
  | .vote v => .vote { message := v.message, signature := v.signature }
  | .polkaCertificate c => .polkaCertificate
      { height := c.height
        round := c.round
        valueId := c.valueId
        polkaSignatures := c.polkaSignatures.map fun s =>
          { address := s.address, signature := s.signature } }
  | .skipRoundCertificate c => .skipRoundCertificate
      { height := c.height
        round := c.round
        certType := c.certType
        roundSignatures := c.roundSignatures.map fun s =>
          { voteType := s.voteType
            valueId := s.valueId
            address := s.address
            signature := s.signature } }

/-! ## Streamed parts and proposed values -/

/-- The bytes of peer ids and stream ids; an error carries its text. -/
structure IdBytes (PeerId StreamId : Type) where
  peerToBytes : PeerId → List U8
  peerFromBytes : List U8 → Except String PeerId
  streamToBytes : StreamId → List U8
  streamNew : List U8 → StreamId

inductive RawStreamContent where
  | data (part : OpenHlProposalPart)
  | fin
  deriving DecidableEq

structure RawStreamMessage where
  streamId : List U8
  sequence : U64
  content : RawStreamContent
  deriving DecidableEq

def RawStreamMessage.fromMsg (ids : IdBytes PeerId StreamId)
    (msg : StreamMessage StreamId) : RawStreamMessage :=
  { streamId := ids.streamToBytes msg.streamId
    sequence := msg.sequence
    content :=
      match msg.content with
      | .data part => .data part
      | .fin => .fin }

def RawStreamMessage.intoMsg (ids : IdBytes PeerId StreamId)
    (raw : RawStreamMessage) : StreamMessage StreamId :=
  { streamId := ids.streamNew raw.streamId
    sequence := raw.sequence
    content :=
      match raw.content with
      | .data part => .data part
      | .fin => .fin }

inductive RawValidity where
  | valid
  | invalid
  deriving DecidableEq

def RawValidity.fromValidity : Validity → RawValidity
  | .valid => .valid
  | .invalid => .invalid

def RawValidity.intoValidity : RawValidity → Validity
  | .valid => .valid
  | .invalid => .invalid

structure RawProposedValue where
  height : OpenHlHeight
  round : Round
  validRound : Round
  proposer : Address
  value : BlockHash
  validity : RawValidity
  deriving DecidableEq

def RawProposedValue.fromMsg (v : ProposedValue) : RawProposedValue :=
  { height := v.height
    round := v.round
    validRound := v.validRound
    proposer := v.proposer
    value := v.value
    validity := .fromValidity v.validity }

def RawProposedValue.intoMsg (r : RawProposedValue) : ProposedValue :=
  { height := r.height
    round := r.round
    validRound := r.validRound
    proposer := r.proposer
    value := r.value
    validity := r.validity.intoValidity }

/-! ## Synchronisation -/

inductive CodecError (JsonError : Type) where
  | json (error : JsonError)
  | peerId (text : String)
  deriving DecidableEq

structure RawStatus where
  peerId : List U8
  tipHeight : OpenHlHeight
  historyMinHeight : OpenHlHeight
  deriving DecidableEq

def RawStatus.fromMsg (ids : IdBytes PeerId StreamId) (s : Status PeerId) : RawStatus :=
  { peerId := ids.peerToBytes s.peerId
    tipHeight := s.tipHeight
    historyMinHeight := s.historyMinHeight }

def RawStatus.tryIntoMsg (ids : IdBytes PeerId StreamId) (r : RawStatus) :
    Except (CodecError JsonError) (Status PeerId) := do
  let peerId ← (ids.peerFromBytes r.peerId).mapError .peerId
  return {
    peerId := peerId
    tipHeight := r.tipHeight
    historyMinHeight := r.historyMinHeight }

structure RawValueRequest where
  height : OpenHlHeight
  deriving DecidableEq

inductive RawRequest where
  | valueRequest (request : RawValueRequest)
  deriving DecidableEq

def RawRequest.fromMsg : Request → RawRequest
  | .valueRequest vr => .valueRequest { height := vr.height }

def RawRequest.intoMsg : RawRequest → Request
  | .valueRequest vr => .valueRequest { height := vr.height }

structure RawCommitSignature (Signature : Type) where
  address : Address
  signature : Signature
  deriving DecidableEq

structure RawCommitCertificate (Signature : Type) where
  height : OpenHlHeight
  round : Round
  valueId : BlockHash
  commitSignatures : List (RawCommitSignature Signature)
  deriving DecidableEq

structure RawDecided (Signature : Type) where
  valueBytes : List U8
  certificate : RawCommitCertificate Signature
  deriving DecidableEq

structure RawValueResponse (Signature : Type) where
  height : OpenHlHeight
  value : Option (RawDecided Signature)
  deriving DecidableEq

inductive RawResponse (Signature : Type) where
  | valueResponse (response : RawValueResponse Signature)
  deriving DecidableEq

def RawResponse.fromMsg : Response Signature → RawResponse Signature
  | .valueResponse vr => .valueResponse
      { height := vr.height
        value := vr.value.map fun d =>
          { valueBytes := d.valueBytes
            certificate :=
              { height := d.certificate.height
                round := d.certificate.round
                valueId := d.certificate.valueId
                commitSignatures := d.certificate.commitSignatures.map fun s =>
                  { address := s.address, signature := s.signature } } } }

def RawResponse.intoMsg : RawResponse Signature → Response Signature
  | .valueResponse vr => .valueResponse
      { height := vr.height
        value := vr.value.map fun d =>
          { valueBytes := d.valueBytes
            certificate :=
              { height := d.certificate.height
                round := d.certificate.round
                valueId := d.certificate.valueId
                commitSignatures := d.certificate.commitSignatures.map fun s =>
                  { address := s.address, signature := s.signature } } } }

/-! ## The eight families -/

/-- `serde_json` at the types the codec writes and reads. -/
structure SerdeJson (Signature CertType JsonError : Type) where
  proposalPart : Codec (List U8) JsonError OpenHlProposalPart
  signedConsensusMsg : Codec (List U8) JsonError (RawSignedConsensusMsg Signature)
  livenessMsg : Codec (List U8) JsonError (RawLivenessMsg Signature CertType)
  streamMessage : Codec (List U8) JsonError RawStreamMessage
  proposedValue : Codec (List U8) JsonError RawProposedValue
  status : Codec (List U8) JsonError RawStatus
  request : Codec (List U8) JsonError RawRequest
  response : Codec (List U8) JsonError (RawResponse Signature)

/-- `serde_json` reads back what it writes. -/
structure SerdeJson.ReadsBack (serde : SerdeJson Signature CertType JsonError) :
    Prop where
  proposalPart : serde.proposalPart.RoundTrips
  signedConsensusMsg : serde.signedConsensusMsg.RoundTrips
  livenessMsg : serde.livenessMsg.RoundTrips
  streamMessage : serde.streamMessage.RoundTrips
  proposedValue : serde.proposedValue.RoundTrips
  status : serde.status.RoundTrips
  request : serde.request.RoundTrips
  response : serde.response.RoundTrips

/-- The bytes of an id tell the id. -/
structure IdBytes.ReadsBack (ids : IdBytes PeerId StreamId) : Prop where
  peer : ∀ id, ids.peerFromBytes (ids.peerToBytes id) = .ok id
  stream : Function.LeftInverse ids.streamNew ids.streamToBytes

section Families

variable (serde : SerdeJson Signature CertType JsonError) (ids : IdBytes PeerId StreamId)

def proposalPartCodec : Codec (List U8) (CodecError JsonError) OpenHlProposalPart :=
  serde.proposalPart.mapError .json

def signedConsensusMsgCodec :
    Codec (List U8) (CodecError JsonError) (SignedConsensusMsg Signature) :=
  (serde.signedConsensusMsg.mapError .json).via RawSignedConsensusMsg.fromMsg
    RawSignedConsensusMsg.intoMsg

def livenessMsgCodec :
    Codec (List U8) (CodecError JsonError) (LivenessMsg Signature CertType) :=
  (serde.livenessMsg.mapError .json).via RawLivenessMsg.fromMsg RawLivenessMsg.intoMsg

def streamMessageCodec :
    Codec (List U8) (CodecError JsonError) (StreamMessage StreamId) :=
  (serde.streamMessage.mapError .json).via (RawStreamMessage.fromMsg ids)
    (RawStreamMessage.intoMsg ids)

def proposedValueCodec : Codec (List U8) (CodecError JsonError) ProposedValue :=
  (serde.proposedValue.mapError .json).via RawProposedValue.fromMsg
    RawProposedValue.intoMsg

def statusCodec : Codec (List U8) (CodecError JsonError) (Status PeerId) :=
  (serde.status.mapError .json).tryVia (RawStatus.fromMsg ids) (RawStatus.tryIntoMsg ids)

def requestCodec : Codec (List U8) (CodecError JsonError) Request :=
  (serde.request.mapError .json).via RawRequest.fromMsg RawRequest.intoMsg

def responseCodec : Codec (List U8) (CodecError JsonError) (Response Signature) :=
  (serde.response.mapError .json).via RawResponse.fromMsg RawResponse.intoMsg

end Families

/-! ## Unpacking undoes packing -/

open Function (LeftInverse)

theorem RawSignedConsensusMsg.intoMsg_fromMsg :
    LeftInverse (@intoMsg Signature) fromMsg := by
  intro msg
  cases msg with
  | vote vote => rfl
  | proposal proposal => rfl

theorem RawLivenessMsg.intoMsg_fromMsg :
    LeftInverse (@intoMsg Signature CertType) fromMsg := by
  intro msg
  cases msg with
  | vote vote => rfl
  | polkaCertificate certificate =>
      rw [fromMsg, intoMsg, List.map_map]
      exact congrArg (fun signatures => LivenessMsg.polkaCertificate
        { certificate with polkaSignatures := signatures }) (List.map_id _)
  | skipRoundCertificate certificate =>
      rw [fromMsg, intoMsg, List.map_map]
      exact congrArg (fun signatures => LivenessMsg.skipRoundCertificate
        { certificate with roundSignatures := signatures }) (List.map_id _)

theorem RawStreamMessage.intoMsg_fromMsg {ids : IdBytes PeerId StreamId}
    (hstream : LeftInverse ids.streamNew ids.streamToBytes) :
    LeftInverse (intoMsg ids) (fromMsg ids) := by
  intro msg
  rw [intoMsg, fromMsg, hstream]
  cases msg with
  | mk streamId sequence content =>
      cases content with
      | data part => rfl
      | fin => rfl

theorem RawValidity.intoValidity_fromValidity :
    LeftInverse intoValidity fromValidity := by
  intro validity
  cases validity with
  | valid => rfl
  | invalid => rfl

theorem RawProposedValue.intoMsg_fromMsg : LeftInverse intoMsg fromMsg := by
  intro msg
  rw [intoMsg, fromMsg, RawValidity.intoValidity_fromValidity]

theorem RawStatus.tryIntoMsg_fromMsg {ids : IdBytes PeerId StreamId}
    (hpeer : ∀ id, ids.peerFromBytes (ids.peerToBytes id) = .ok id) (msg : Status PeerId) :
    tryIntoMsg ids (fromMsg ids msg) = (.ok msg : Except (CodecError JsonError) _) := by
  rw [tryIntoMsg, fromMsg, hpeer]
  rfl

theorem RawRequest.intoMsg_fromMsg : LeftInverse intoMsg fromMsg := by
  intro msg
  cases msg with
  | valueRequest request => rfl

theorem RawResponse.intoMsg_fromMsg :
    LeftInverse (@intoMsg Signature) fromMsg := by
  intro msg
  cases msg with
  | valueResponse response =>
      rcases response with ⟨height, _ | decided⟩
      · rfl
      · rw [fromMsg, intoMsg, Option.map_some, Option.map_some, List.map_map]
        exact congrArg (fun signatures => Response.valueResponse
          { height := height
            value := some
              { decided with
                certificate :=
                  { decided.certificate with commitSignatures := signatures } } })
          (List.map_id _)

/-- Every message of the eight families is decoded as it was before encoding, with every
field and every list in its order. -/
theorem openHlCodec_roundTrips {serde : SerdeJson Signature CertType JsonError}
    {ids : IdBytes PeerId StreamId} (hserde : serde.ReadsBack) (hids : ids.ReadsBack) :
    (proposalPartCodec serde).RoundTrips ∧
    (signedConsensusMsgCodec serde).RoundTrips ∧
    (livenessMsgCodec serde).RoundTrips ∧
    (streamMessageCodec serde ids).RoundTrips ∧
    (proposedValueCodec serde).RoundTrips ∧
    (statusCodec serde ids).RoundTrips ∧
    (requestCodec serde).RoundTrips ∧
    (responseCodec serde).RoundTrips := by
  have hpart := hserde.proposalPart.mapError CodecError.json
  have hsigned := hserde.signedConsensusMsg.mapError CodecError.json
  have hliveness := hserde.livenessMsg.mapError CodecError.json
  have hstream := hserde.streamMessage.mapError CodecError.json
  have hproposed := hserde.proposedValue.mapError CodecError.json
  have hstatus := hserde.status.mapError CodecError.json
  have hrequest := hserde.request.mapError CodecError.json
  have hresponse := hserde.response.mapError CodecError.json
  exact ⟨hpart,
    hsigned.via RawSignedConsensusMsg.intoMsg_fromMsg,
    hliveness.via RawLivenessMsg.intoMsg_fromMsg,
    hstream.via (RawStreamMessage.intoMsg_fromMsg hids.stream),
    hproposed.via RawProposedValue.intoMsg_fromMsg,
    hstatus.tryVia (RawStatus.tryIntoMsg_fromMsg hids.peer),
    hrequest.via RawRequest.intoMsg_fromMsg,
    hresponse.via RawResponse.intoMsg_fromMsg⟩

/-! ## Samples -/

deriving instance Encodable for VoteType, OpenHlVote, OpenHlProposal, OpenHlProposalPart,
  RawSignedVote, RawSignedProposal, RawSignedConsensusMsg, RawPolkaSignature,
  RawPolkaCertificate, RawRoundSignature, RawRoundCertificate, RawLivenessMsg,
  RawStreamContent, RawStreamMessage, RawValidity, RawProposedValue, RawStatus,
  RawValueRequest, RawRequest, RawCommitSignature, RawCommitCertificate, RawDecided,
  RawValueResponse, RawResponse

/-- The sample is written as the text, any other value as the text and its number in zero
bytes. -/
def sampleCodec {α : Type} [DecidableEq α] [Encodable α] (sample : α) (text : String) :
    Codec (List U8) String α where
  encode value := .ok (bytesOf text ++
    if value = sample then [] else List.replicate (Encodable.encode value + 1) 0)
  decode bytes :=
    if bytes = bytesOf text then .ok sample
    else
      match Encodable.decode (bytes.length - (bytesOf text).length - 1) with
      | some value => .ok value
      | none => .error "expected value"

theorem sampleCodec_roundTrips {α : Type} [DecidableEq α] [Encodable α] (sample : α)
    (text : String) : (sampleCodec sample text).RoundTrips := by
  intro value
  rw [sampleCodec]
  change (if _ = _ then _ else _) = _
  by_cases hsample : value = sample
  · rw [if_pos hsample, List.append_nil, if_pos rfl, hsample]
  · rw [if_neg hsample, if_neg (by simp [List.replicate_succ])]
    simp [Encodable.encodek]

/-- The JSON text of an array of zero bytes. -/
def zeroArray (count : ℕ) : String :=
  "[" ++ String.intercalate "," (List.replicate count "0") ++ "]"

/-- One message of each family as `serde_json` writes it, with signatures of one byte. -/
def sampleSerde : SerdeJson (List U8) Unit String where
  proposalPart := sampleCodec
    { height := 11, round := none, polRound := none, proposer := 0, blockBytes := [222, 173] }
    ("\x7b\"height\":11,\"round\":\"Nil\",\"pol_round\":\"Nil\",\"proposer\":" ++
      zeroArray 20 ++ ",\"block_bytes\":[222,173]\x7d")
  signedConsensusMsg := sampleCodec
    (.vote
      { message :=
          { height := 7, round := none, valueId := none, voteType := .prevote, address := 0 }
        signature := [7] })
    ("\x7b\"Vote\":\x7b\"message\":\x7b\"height\":7,\"round\":\"Nil\",\"value_id\":" ++
      "\"Nil\",\"vote_type\":\"Prevote\",\"address\":" ++ zeroArray 20 ++
      "\x7d,\"signature\":[7]\x7d\x7d")
  livenessMsg := sampleCodec
    (.polkaCertificate
      { height := 7, round := none, valueId := 0
        polkaSignatures := [{ address := 0, signature := [7] }] })
    ("\x7b\"PolkaCertificate\":\x7b\"height\":7,\"round\":\"Nil\",\"value_id\":" ++
      zeroArray 32 ++ ",\"polka_signatures\":[\x7b\"address\":" ++ zeroArray 20 ++
      ",\"signature\":[7]\x7d]\x7d\x7d")
  streamMessage := sampleCodec { streamId := [42], sequence := 11, content := .fin }
    "\x7b\"stream_id\":[42],\"sequence\":11,\"content\":\"Fin\"\x7d"
  proposedValue := sampleCodec
    { height := 9, round := none, validRound := none, proposer := 0, value := 0
      validity := .valid }
    ("\x7b\"height\":9,\"round\":\"Nil\",\"valid_round\":\"Nil\",\"proposer\":" ++
      zeroArray 20 ++ ",\"value\":" ++ zeroArray 32 ++ ",\"validity\":\"Valid\"\x7d")
  status := sampleCodec { peerId := [0, 1, 7], tipHeight := 7, historyMinHeight := 1 }
    "\x7b\"peer_id\":[0,1,7],\"tip_height\":7,\"history_min_height\":1\x7d"
  request := sampleCodec (.valueRequest { height := 5 })
    "\x7b\"ValueRequest\":\x7b\"height\":5\x7d\x7d"
  response := sampleCodec (.valueResponse { height := 5, value := none })
    "\x7b\"ValueResponse\":\x7b\"height\":5,\"value\":null\x7d\x7d"

theorem sampleSerde_readsBack : sampleSerde.ReadsBack where
  proposalPart := sampleCodec_roundTrips _ _
  signedConsensusMsg := sampleCodec_roundTrips _ _
  livenessMsg := sampleCodec_roundTrips _ _
  streamMessage := sampleCodec_roundTrips _ _
  proposedValue := sampleCodec_roundTrips _ _
  status := sampleCodec_roundTrips _ _
  request := sampleCodec_roundTrips _ _
  response := sampleCodec_roundTrips _ _

/-- Ids that are their own bytes. -/
def plainIds : IdBytes (List U8) (List U8) :=
  { peerToBytes := id
    peerFromBytes := .ok
    streamToBytes := id
    streamNew := id }

theorem openHlCodec_roundTrips_samples :
    (proposalPartCodec sampleSerde).RoundTrips ∧
    (signedConsensusMsgCodec sampleSerde).RoundTrips ∧
    (livenessMsgCodec sampleSerde).RoundTrips ∧
    (streamMessageCodec sampleSerde plainIds).RoundTrips ∧
    (proposedValueCodec sampleSerde).RoundTrips ∧
    (statusCodec sampleSerde plainIds).RoundTrips ∧
    (requestCodec sampleSerde).RoundTrips ∧
    (responseCodec sampleSerde).RoundTrips :=
  openHlCodec_roundTrips sampleSerde_readsBack ⟨fun _ => rfl, fun _ => rfl⟩

end OpenHl.Consensus.OpenHlCodec
