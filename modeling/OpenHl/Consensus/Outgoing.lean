import OpenHl.Consensus.Streams
import OpenHl.Consensus.Validators

/-!
# What a proposer sends

For a value that consensus asks for, the engine application answers with the hash of the
payload it built and publishes the encoded block under a fresh stream id, the block in one
message and the end of the stream in a second.
-/

namespace OpenHl.Consensus

open Machine OpenHl.Evm

abbrev StreamId := List U8

structure StreamMessage where
  streamId : StreamId
  sequence : U64
  content : StreamContent
  deriving DecidableEq

/-- The answer to a request for a value. -/
structure LocallyProposedValue where
  height : OpenHlHeight
  round : Round
  value : BlockHash
  deriving DecidableEq

/-! ## Stream ids -/

def streamIdBytes (height : OpenHlHeight) (round : Round) (counter : U64) : StreamId :=
  BigEndian.toBytes 8 height.val ++
    (BigEndian.toBytes 8 (BigEndian.bitsOf (Round.asI64 round)).val ++
      BigEndian.toBytes 8 counter.val)

/-- The id of the next stream and the counter after it. -/
def makeStreamId (checks : U64.OverflowChecks) (height : OpenHlHeight) (round : Round)
    (counter : U64) : Checked (StreamId × U64) := do
  let next ← U64.add checks counter 1
  return (streamIdBytes height round counter, next)

theorem wordBytes_prefixFree :
    Framing.PrefixFree fun word : U64 => BigEndian.toBytes 8 word.val :=
  Framing.prefixFree_bigEndian (by norm_num)

theorem streamIdBytes_inj {height height' : OpenHlHeight} {round round' : Round}
    {counter counter' : U64}
    (heq : streamIdBytes height round counter = streamIdBytes height' round' counter') :
    height = height' ∧ round = round' ∧ counter = counter' := by
  have hround : Framing.PrefixFree fun round : Round =>
      BigEndian.toBytes 8 (BigEndian.bitsOf (Round.asI64 round)).val :=
    wordBytes_prefixFree.comp (bitsOf_injective.comp asI64_injective)
  have hsame : (height, round, counter) = (height', round', counter') :=
    (wordBytes_prefixFree.pair (hround.pair wordBytes_prefixFree)).injective heq
  simpa using hsame

/-- Short of the largest word the counter goes up by one in either build. -/
theorem makeStreamId_eq_ok {checks : U64.OverflowChecks} {height : OpenHlHeight}
    {round : Round} {counter next : U64} {streamId : StreamId}
    (hmake : makeStreamId checks height round counter = .ok (streamId, next)) :
    streamId = streamIdBytes height round counter ∧ next = counter + 1 := by
  rw [makeStreamId] at hmake
  obtain ⟨value, hadd, hmake⟩ := bind_eq_ok.1 hmake
  obtain ⟨rfl, rfl⟩ := Prod.mk.inj (Except.ok.inj hmake)
  refine ⟨rfl, ?_⟩
  cases checks with
  | on =>
      rw [U64.add] at hadd
      split_ifs at hadd
      exact (Except.ok.inj hadd).symm
  | off => exact (Except.ok.inj hadd).symm

/-! ## The `GetValue` arm -/

/-- How the application's loop can end without its decisions. -/
inductive AppFailure where
  | bridge (error : BridgeError)
  | overflow
  /-- The assertion that there are validators. -/
  | noValidators
  /-- A decision for which neither way of storing a block has run. -/
  | noTimestamp (hash : BlockHash)
  | hook (message : String)
  | closed (decisions wanted : ℕ)
  deriving DecidableEq

section Propose

variable {K E PublicKey : Type} [LinearOrder K]

/-- What one request for a value leaves behind. -/
structure Announced (K E : Type) [LinearOrder K] where
  state : AppState K E
  nextStreamId : U64
  reply : LocallyProposedValue
  messages : List StreamMessage

/-- Answer with the payload that the bridge built and stream it; its id is the one under
which the bridge has stored it. -/
def announce (encode : ProposedBlockWire E → Except String (List U8))
    (validatorSet : OpenHlValidatorSet PublicKey) (checks : U64.OverflowChecks)
    (state : AppState K E) (nextStreamId : U64) (height : OpenHlHeight) (round : Round)
    (built : PendingPayload E) : Except AppFailure (Announced K E) :=
  let after := getValue state built
  match encodeProposedBlock encode after.bridge state.bridge.nextPayloadId with
  | .error failure => .error (.bridge failure)
  | .ok blockBytes =>
      match selectProposerAddress validatorSet height round with
      | none => .error .noValidators
      | some proposer =>
          match makeStreamId checks height round nextStreamId with
          | .error .overflow => .error .overflow
          | .ok (streamId, next) =>
              let part : OpenHlProposalPart :=
                { height := height, round := round, polRound := none
                  proposer := proposer, blockBytes := blockBytes }
              .ok { state := after, nextStreamId := next
                    reply := { height := height, round := round, value := built.hash }
                    messages :=
                      [{ streamId := streamId, sequence := 0, content := .data part },
                        { streamId := streamId, sequence := 1, content := .fin }] }

/-- The part announces the payload at this height and round, in the name of the validator
whose turn it is. -/
structure OpenHlProposalPart.Announces (layer : ExecutionLayer E)
    (validatorSet : OpenHlValidatorSet PublicKey) (part : OpenHlProposalPart)
    (height : OpenHlHeight) (round : Round) (payload : PendingPayload E) : Prop where
  proposer : selectProposerAddress validatorSet height round = some part.proposer
  height : part.height = height
  round : part.round = round
  polRound : part.polRound = none
  decodes : layer.decode part.blockBytes = .ok (proposedWire payload)

variable {encode : ProposedBlockWire E → Except String (List U8)}
  {validatorSet : OpenHlValidatorSet PublicKey} {checks : U64.OverflowChecks}
  {state : AppState K E} {nextStreamId : U64} {height : OpenHlHeight} {round : Round}
  {built : PendingPayload E} {announced : Announced K E}

/-- An announcement stores the payload and sends its wire between two messages of a
stream with a new id. -/
theorem announce_eq_ok
    (hannounce : announce encode validatorSet checks state nextStreamId height round
      built = .ok announced) :
    ∃ part, announced.state = getValue state built ∧
      announced.nextStreamId = nextStreamId + 1 ∧
      announced.reply = { height := height, round := round, value := built.hash } ∧
      announced.messages =
        [{ streamId := streamIdBytes height round nextStreamId, sequence := 0
           content := .data part },
          { streamId := streamIdBytes height round nextStreamId, sequence := 1
            content := .fin }] ∧
      encode (proposedWire built) = .ok part.blockBytes ∧ part.height = height ∧
      part.round = round ∧ part.polRound = none ∧
      selectProposerAddress validatorSet height round = some part.proposer := by
  have hpending : (getValue state built).bridge.pending.get? state.bridge.nextPayloadId =
      some built := state.bridge.get?_insertPending_self built
  rw [announce, encodeProposedBlock, hpending] at hannounce
  cases hencode : encode (proposedWire built) with
  | error reason => simp [hencode] at hannounce
  | ok blockBytes =>
      cases hproposer : selectProposerAddress validatorSet height round with
      | none => simp [hencode, hproposer] at hannounce
      | some proposer =>
          cases hmake : makeStreamId checks height round nextStreamId with
          | error fault =>
              cases fault
              simp [hencode, hproposer, hmake] at hannounce
          | ok made =>
              obtain ⟨streamId, next⟩ := made
              obtain ⟨rfl, rfl⟩ := makeStreamId_eq_ok hmake
              simp only [hencode, hproposer, hmake, Except.ok.injEq] at hannounce
              subst hannounce
              exact ⟨_, rfl, rfl, rfl, rfl, rfl, rfl, rfl, rfl, rfl⟩

end Propose

end OpenHl.Consensus
