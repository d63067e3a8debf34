import OpenHl.Consensus.Chain
import OpenHl.Consensus.Outgoing
import OpenHl.Core.ReplicatedLog

/-!
# A cluster of validators

Validators that run the engine application over their live bridges, and a network that
delivers what they publish to anyone, in any order, any number of times or never.  The
consensus engine is not part of the repository; what it promises is the guard of each
step: it works at the height that the application gave it last, it decides a height once
and everywhere alike, and it decides only values that were proposed for that height.

What any validator has stored, and what is under way between them, comes from the
proposals that the validators made (`ClusterStep.provenance`).
-/

namespace OpenHl.Consensus

open Machine OpenHl.Evm ReplicatedLog

section Cluster

variable {P E PublicKey : Type} [LinearOrder P]

/-- Streams are told apart by their sender and their id, in the order of a map of
pairs. -/
abbrev StreamKey (P : Type) := P ×ₗ StreamId

structure Validator (P E : Type) [LinearOrder P] where
  progress : Progress (StreamKey P) E
  nextStreamId : U64

/-- A payload that a validator has proposed, with the stream in which it sent it. -/
structure Proposal (P E : Type) where
  proposer : P
  height : OpenHlHeight
  round : Round
  payload : PendingPayload E
  streamId : StreamId

def Proposal.value (proposal : Proposal P E) : LocallyProposedValue :=
  { height := proposal.height, round := proposal.round, value := proposal.payload.hash }

structure Cluster (P E : Type) [LinearOrder P] where
  validators : P → Validator P E
  proposals : List (Proposal P E)
  network : List (P × StreamMessage)

/-- What the validators share, and the node that each of them runs. -/
structure Deployment (P E PublicKey : Type) where
  layer : ExecutionLayer E
  encode : ProposedBlockWire E → Except String (List U8)
  reth : P → RethNode E
  validatorSet : OpenHlValidatorSet PublicKey
  checks : U64.OverflowChecks

namespace Cluster

def initial (bridges : P → ChainState E) (parent : BlockHash) (height : OpenHlHeight) :
    Cluster P E :=
  { validators := fun party =>
      { progress := .initial (bridges party) parent height, nextStreamId := 0 }
    proposals := [], network := [] }

/-- The blocks that a validator has handed to `on_committed`. -/
def committed (cluster : Cluster P E) (party : P) : List (Committed E) :=
  (cluster.validators party).progress.committed

def appState (cluster : Cluster P E) (party : P) : AppState (StreamKey P) E :=
  (cluster.validators party).progress.state

/-- One validator takes a step of its loop. -/
def advance (cluster : Cluster P E) (party : P) (after : AppState (StreamKey P) E)
    (block : Option (Committed E)) : Cluster P E :=
  { cluster with
    validators := Function.update cluster.validators party
      { cluster.validators party with
        progress := (cluster.validators party).progress.advance after block } }

/-- One validator proposes and publishes. -/
def propose (cluster : Cluster P E) (party : P)
    (announced : Announced (StreamKey P) E) (proposal : Proposal P E) : Cluster P E :=
  { validators := Function.update cluster.validators party
      { progress := (cluster.validators party).progress.advance announced.state none
        nextStreamId := announced.nextStreamId }
    proposals := cluster.proposals ++ [proposal]
    network := cluster.network ++ announced.messages.map fun message => (party, message) }

/-- The engine of a validator works at a height that the application gave it and that it
has not decided. -/
def Works (cluster : Cluster P E) (party : P) (height : OpenHlHeight) : Prop :=
  height = (cluster.appState party).currentHeight ∧
    ∀ block ∈ cluster.committed party, block.height ≠ height

/-- A decision that consensus may take: a value proposed for the height, and the one
decided wherever the height is decided already. -/
structure MayDecide (cluster : Cluster P E) (height : OpenHlHeight) (hash : BlockHash) :
    Prop where
  proposed : ∃ proposal ∈ cluster.proposals, proposal.height = height ∧
    proposal.payload.hash = hash
  agreed : ∀ party, ∀ block ∈ cluster.committed party, block.height = height →
    block.hash = hash

/-- No two proposed blocks share a hash. -/
def CollisionFree (cluster : Cluster P E) : Prop :=
  ∀ proposal ∈ cluster.proposals, ∀ other ∈ cluster.proposals,
    proposal.payload.hash = other.payload.hash →
      proposal.payload.header = other.payload.header

end Cluster

variable (deployment : Deployment P E PublicKey)

/-- Every validator's node can count on from genesis and from each proposed block. -/
def Cluster.Continuable (deployment : Deployment P E PublicKey) (genesis : ChainLink)
    (cluster : Cluster P E) : Prop :=
  ∀ party header, (header = genesis.header ∨
      ∃ proposal ∈ cluster.proposals, proposal.payload.header = header) →
    (deployment.reth party).Continues deployment.checks deployment.layer header

inductive ClusterStep : Cluster P E → Cluster P E → Prop
  | startedRound {cluster : Cluster P E} {party : P} {height : OpenHlHeight}
      (hworks : cluster.Works party height) :
      ClusterStep cluster (cluster.advance party
        { cluster.appState party with currentHeight := height } none)
  | getValue {cluster : Cluster P E} {party : P} {height : OpenHlHeight} {round : Round}
      {fills : List Clob.Fill} {built : PendingPayload E}
      {announced : Announced (StreamKey P) E} (hworks : cluster.Works party height)
      (hbuild : buildPayload deployment.checks deployment.layer (deployment.reth party)
        (cluster.appState party).bridge fills (cluster.appState party).currentParent
        defaultAttrs = .ok built)
      (hannounce : announce deployment.encode deployment.validatorSet deployment.checks
        (cluster.appState party) (cluster.validators party).nextStreamId height round
        built = .ok announced) :
      ClusterStep cluster (cluster.propose party announced
        { proposer := party, height := height, round := round, payload := built
          streamId := streamIdBytes height round
            (cluster.validators party).nextStreamId })
  | part {cluster : Cluster P E} {party sender : P} {message : StreamMessage}
      {after : AppState (StreamKey P) E} {reply : Option ProposedValue}
      (hnetwork : (sender, message) ∈ cluster.network)
      (hpart : receivedProposalPart deployment.layer (cluster.appState party)
        (toLex (sender, message.streamId)) message.content = .ok (after, reply)) :
      ClusterStep cluster (cluster.advance party after none)
  | decided {cluster : Cluster P E} {party : P} {height : OpenHlHeight} {blockTime : U64}
      {id : ℕ} {payload : PendingPayload E} (hworks : cluster.Works party height)
      (hdecide : cluster.MayDecide height payload.hash)
      (htime : (cluster.appState party).blockTimes.get? payload.hash = some blockTime)
      (hpending : (cluster.appState party).bridge.pending.get? id = some payload) :
      ClusterStep cluster (cluster.advance party
        (decided (cluster.appState party) height payload)
        (some { hash := payload.hash, height := height, blockTime := blockTime
                payload := payload }))

theorem ClusterStep.proposals_prefix {deployment : Deployment P E PublicKey}
    {before after : Cluster P E} (hstep : ClusterStep deployment before after) :
    before.proposals <+: after.proposals := by
  cases hstep with
  | startedRound hworks => exact List.prefix_refl _
  | getValue hworks hbuild hannounce => exact List.prefix_append _ _
  | part hnetwork hpart => exact List.prefix_refl _
  | decided hworks hdecide htime hpending => exact List.prefix_refl _

/-! ## Where the data comes from -/

/-- The payload is the block of the proposal, whatever fills are stored with it. -/
structure Proposal.Carries (proposal : Proposal P E) (payload : PendingPayload E) :
    Prop where
  hash : payload.hash = proposal.payload.hash
  header : payload.header = proposal.payload.header
  executionData : payload.executionData = proposal.payload.executionData

/-- The proposal was sent in the stream as this part. -/
structure Proposal.SentAs (deployment : Deployment P E PublicKey)
    (proposal : Proposal P E) (key : StreamKey P) (part : OpenHlProposalPart) :
    Prop where
  key : key = toLex (proposal.proposer, proposal.streamId)
  part : part.Announces deployment.layer deployment.validatorSet proposal.height
    proposal.round proposal.payload

/-- The codec reads back what it has written. -/
def Deployment.RoundTrips (deployment : Deployment P E PublicKey) : Prop :=
  ∀ wire bytes, deployment.encode wire = .ok bytes →
    deployment.layer.decode bytes = .ok wire

/-- All that an application has stored comes from proposals. -/
structure Traced (deployment : Deployment P E PublicKey) (proposals : List (Proposal P E))
    (state : AppState (StreamKey P) E) : Prop where
  pending : state.bridge.pending.All fun _ payload =>
    ∃ proposal ∈ proposals, proposal.Carries payload
  times : state.blockTimes.All fun hash time => ∃ proposal ∈ proposals,
    proposal.payload.hash = hash ∧ proposal.payload.header.timestamp = time
  streams : state.streams.All fun key stream => ∀ part, stream.data = some part →
    ∃ proposal ∈ proposals, proposal.SentAs deployment key part

/-- So does all that is under way between the validators. -/
def NetworkTraced (deployment : Deployment P E PublicKey) (cluster : Cluster P E) :
    Prop :=
  ∀ sender message, (sender, message) ∈ cluster.network →
    ∀ part, message.content = .data part → ∃ proposal ∈ cluster.proposals,
      proposal.SentAs deployment (toLex (sender, message.streamId)) part

variable {deployment} {proposals : List (Proposal P E)}
  {state : AppState (StreamKey P) E}

theorem Traced.append (htraced : Traced deployment proposals state)
    (more : List (Proposal P E)) : Traced deployment (proposals ++ more) state where
  pending id payload hpending := by
    obtain ⟨proposal, hmem, hcarries⟩ := htraced.pending id payload hpending
    exact ⟨proposal, List.mem_append_left _ hmem, hcarries⟩
  times hash time htime := by
    obtain ⟨proposal, hmem, hproposal⟩ := htraced.times hash time htime
    exact ⟨proposal, List.mem_append_left _ hmem, hproposal⟩
  streams key stream hstream part hpart := by
    obtain ⟨proposal, hmem, hsent⟩ := htraced.streams key stream hstream part hpart
    exact ⟨proposal, List.mem_append_left _ hmem, hsent⟩

theorem Traced.startedRound (htraced : Traced deployment proposals state)
    (height : OpenHlHeight) :
    Traced deployment proposals { state with currentHeight := height } :=
  ⟨htraced.pending, htraced.times, htraced.streams⟩

theorem Traced.getValue (htraced : Traced deployment proposals state)
    {proposal : Proposal P E} (hmem : proposal ∈ proposals) :
    Traced deployment proposals (getValue state proposal.payload) where
  pending := htraced.pending.insert ⟨proposal, hmem, rfl, rfl, rfl⟩
  times := htraced.times.insert ⟨proposal, hmem, rfl, rfl⟩
  streams := htraced.streams

/-- The part in a stream after a message comes from a proposal if the message does. -/
theorem Traced.receive (htraced : Traced deployment proposals state) {key : StreamKey P}
    {content : StreamContent}
    (hcontent : ∀ part, content = .data part →
      ∃ proposal ∈ proposals, proposal.SentAs deployment key part)
    {part : OpenHlProposalPart}
    (hpart : (((state.streams.get? key).getD .default).receive content).data =
      some part) : ∃ proposal ∈ proposals, proposal.SentAs deployment key part := by
  cases content with
  | data received =>
      rw [InProgressStream.receive, Option.some.injEq] at hpart
      exact hcontent part (congrArg StreamContent.data hpart)
  | fin =>
      rw [InProgressStream.receive] at hpart
      cases hstream : state.streams.get? key with
      | none => simp [hstream, InProgressStream.default] at hpart
      | some stream =>
          rw [hstream] at hpart
          exact htraced.streams key stream hstream part hpart

theorem Traced.part (htraced : Traced deployment proposals state) {key : StreamKey P}
    {content : StreamContent}
    (hcontent : ∀ part, content = .data part →
      ∃ proposal ∈ proposals, proposal.SentAs deployment key part)
    {after : AppState (StreamKey P) E} {reply : Option ProposedValue}
    (hpart : receivedProposalPart deployment.layer state key content = .ok (after, reply)) :
    Traced deployment proposals after := by
  obtain ⟨-, -, rfl⟩ | ⟨part, wire, hcompleted, hdecode, -, rfl, -⟩ :=
    receivedProposalPart_eq_ok hpart
  · exact ⟨htraced.pending, htraced.times, htraced.streams.insert
      fun part hdata => htraced.receive hcontent hdata⟩
  · obtain ⟨proposal, hmem, hsent⟩ :=
      htraced.receive hcontent (completedPart_eq_some hcompleted)
    rw [hsent.part.decodes, Except.ok.injEq] at hdecode
    subst hdecode
    exact ⟨htraced.pending.insert ⟨proposal, hmem, rfl, rfl, rfl⟩,
      htraced.times.insert ⟨proposal, hmem, rfl, rfl⟩, htraced.streams.erase key⟩

theorem Traced.decided (htraced : Traced deployment proposals state) (height : OpenHlHeight)
    (payload : PendingPayload E) :
    Traced deployment proposals (decided state height payload) :=
  ⟨htraced.pending, htraced.times.erase _, htraced.streams⟩

/-! ## What a step changes -/

namespace Cluster

variable (cluster : Cluster P E) (party other : P) (after : AppState (StreamKey P) E)
  (block : Option (Committed E)) (announced : Announced (StreamKey P) E)
  (proposal : Proposal P E)

theorem validators_advance :
    (cluster.advance party after block).validators other =
      if other = party then
        { progress := (cluster.validators party).progress.advance after block
          nextStreamId := (cluster.validators party).nextStreamId }
      else cluster.validators other :=
  Function.update_apply _ _ _ _

theorem validators_propose :
    (cluster.propose party announced proposal).validators other =
      if other = party then
        { progress := (cluster.validators party).progress.advance announced.state none
          nextStreamId := announced.nextStreamId }
      else cluster.validators other :=
  Function.update_apply _ _ _ _

theorem appState_advance :
    (cluster.advance party after block).appState other =
      if other = party then after else cluster.appState other := by
  rw [appState, validators_advance]
  split_ifs
  · cases block with
    | none => rfl
    | some block => rfl
  · rfl

theorem committed_advance :
    (cluster.advance party after block).committed other =
      if other = party then cluster.committed party ++ block.toList
      else cluster.committed other := by
  rw [committed, validators_advance]
  split_ifs
  · cases block with
    | none => exact (List.append_nil _).symm
    | some block => rfl
  · rfl

theorem appState_propose :
    (cluster.propose party announced proposal).appState other =
      if other = party then announced.state else cluster.appState other := by
  rw [appState, validators_propose]
  split_ifs
  · rfl
  · rfl

theorem committed_propose :
    (cluster.propose party announced proposal).committed other =
      cluster.committed other := by
  rw [committed, validators_propose]
  split_ifs with hother
  · rw [hother]
    rfl
  · rfl

end Cluster

/-- Everything stored and everything under way comes from proposals. -/
structure Provenance (deployment : Deployment P E PublicKey) (cluster : Cluster P E) :
    Prop where
  states : ∀ party, Traced deployment cluster.proposals (cluster.appState party)
  network : NetworkTraced deployment cluster

theorem Provenance.advance {cluster : Cluster P E} (hfrom : Provenance deployment cluster)
    {party : P} {after : AppState (StreamKey P) E}
    (hafter : Traced deployment cluster.proposals after) (block : Option (Committed E)) :
    Provenance deployment (cluster.advance party after block) where
  states other := by
    rw [Cluster.appState_advance]
    split_ifs
    · exact hafter
    · exact hfrom.states other
  network := hfrom.network

theorem Provenance.propose (hcodec : deployment.RoundTrips) {cluster : Cluster P E}
    (hfrom : Provenance deployment cluster) {party : P} {height : OpenHlHeight}
    {round : Round} {built : PendingPayload E} {announced : Announced (StreamKey P) E}
    (hannounce : announce deployment.encode deployment.validatorSet deployment.checks
      (cluster.appState party) (cluster.validators party).nextStreamId height round
      built = .ok announced) {proposal : Proposal P E}
    (hproposal : proposal = { proposer := party, height := height, round := round
                              payload := built
                              streamId := streamIdBytes height round
                                (cluster.validators party).nextStreamId }) :
    Provenance deployment (cluster.propose party announced proposal) := by
  have hlast : proposal ∈ cluster.proposals ++ [proposal] :=
    List.mem_append_right _ (List.mem_singleton_self _)
  obtain ⟨sentPart, hstate, -, -, hmessages, hencode, hheight, hround, hpol, hproposer⟩ :=
    announce_eq_ok hannounce
  constructor
  · intro other
    rw [Cluster.appState_propose]
    split_ifs with hother
    · rw [hstate]
      have hvalue := ((hfrom.states party).append [proposal]).getValue hlast
      rw [hproposal] at hvalue ⊢
      exact hvalue
    · exact (hfrom.states other).append [proposal]
  · intro sender message hnetwork part hpart
    rcases List.mem_append.1 hnetwork with hold | hnew
    · obtain ⟨earlier, hmem, hsent⟩ := hfrom.network sender message hold part hpart
      exact ⟨earlier, List.mem_append_left _ hmem, hsent⟩
    · rw [hmessages] at hnew
      simp only [List.map_cons, List.map_nil, List.mem_cons, Prod.mk.injEq,
        List.not_mem_nil, or_false] at hnew
      refine ⟨proposal, hlast, ?_⟩
      rcases hnew with ⟨rfl, rfl⟩ | ⟨rfl, rfl⟩
      · obtain rfl := StreamContent.data.inj hpart
        subst hproposal
        exact ⟨rfl, hproposer, hheight, hround, hpol, hcodec _ _ hencode⟩
      · cases hpart

theorem ClusterStep.provenance (hcodec : deployment.RoundTrips)
    {before after : Cluster P E} (hstep : ClusterStep deployment before after)
    (hfrom : Provenance deployment before) :
    Provenance deployment after := by
  cases hstep with
  | startedRound hworks => exact hfrom.advance ((hfrom.states _).startedRound _) none
  | getValue hworks hbuild hannounce => exact hfrom.propose hcodec hannounce rfl
  | part hnetwork hpart =>
      exact hfrom.advance ((hfrom.states _).part (hfrom.network _ _ hnetwork) hpart) none
  | decided hworks hdecide htime hpending =>
      exact hfrom.advance ((hfrom.states _).decided _ _) _

theorem provenance_initial {bridges : P → ChainState E} (parent : BlockHash)
    (height : OpenHlHeight) (hempty : ∀ party, (bridges party).pending = SortedMap.empty) :
    Provenance deployment (Cluster.initial bridges parent height) where
  states party := by
    refine ⟨?_, SortedMap.All.empty, SortedMap.All.empty⟩
    change (bridges party).pending.All _
    rw [hempty]
    exact SortedMap.All.empty
  network sender message hnetwork := by cases hnetwork

end Cluster

end OpenHl.Consensus
