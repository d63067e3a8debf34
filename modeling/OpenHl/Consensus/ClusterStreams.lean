import OpenHl.Consensus.ClusterSafety

/-!
# Streams between validators

`cluster_parts`: whatever has been published, any validator can receive it at any time
without leaving its loop; the value that it then reports is the one that was proposed in
that very stream, and it can commit it if consensus decides it.
-/

namespace OpenHl.Consensus

open Machine OpenHl.Evm

section Streams

variable {P E PublicKey : Type} [LinearOrder P]

/-- Every stream has an id of its own, and everything can be registered under its
hash. -/
structure Streaming (deployment : Deployment P E PublicKey) (cluster : Cluster P E) :
    Prop where
  provenance : Provenance deployment cluster
  hashes : ∀ proposal ∈ cluster.proposals,
    deployment.layer.hashSlow proposal.payload.header = proposal.payload.hash
  chains : ∀ party, (cluster.appState party).bridge.chain.All fun hash header =>
    deployment.layer.hashSlow header = hash
  sources : ∀ sender message, (sender, message) ∈ cluster.network →
    ∃ proposal ∈ cluster.proposals, proposal.proposer = sender ∧
      proposal.streamId = message.streamId
  counters : ∀ proposal ∈ cluster.proposals, ∃ counter : U64,
    counter.val < (cluster.validators proposal.proposer).nextStreamId.val ∧
      proposal.streamId = streamIdBytes proposal.height proposal.round counter
  counted : ∀ party, (cluster.validators party).nextStreamId.val ≤ cluster.proposals.length
  distinct : cluster.proposals.Pairwise fun proposal other =>
    proposal.proposer = other.proposer → proposal.streamId ≠ other.streamId

variable {deployment : Deployment P E PublicKey} {cluster : Cluster P E}

/-- A step that proposes nothing keeps the streams apart. -/
theorem Streaming.advance (hstreaming : Streaming deployment cluster) {party : P}
    {after : AppState (StreamKey P) E} {block : Option (Committed E)}
    (hchain : after.bridge.chain.All fun hash header =>
      deployment.layer.hashSlow header = hash)
    (hfrom : Provenance deployment (cluster.advance party after block)) :
    Streaming deployment (cluster.advance party after block) := by
  have hcounter : ∀ other, ((cluster.advance party after block).validators
      other).nextStreamId = (cluster.validators other).nextStreamId := by
    intro other
    rw [Cluster.validators_advance]
    split_ifs with hother
    · rw [hother]
    · rfl
  refine ⟨hfrom, hstreaming.hashes, ?_, hstreaming.sources, ?_, ?_, hstreaming.distinct⟩
  · intro other
    rw [Cluster.appState_advance]
    split_ifs
    · exact hchain
    · exact hstreaming.chains other
  · intro proposal hmem
    rw [hcounter]
    exact hstreaming.counters proposal hmem
  · intro other
    rw [hcounter]
    exact hstreaming.counted other

theorem Streaming.propose (hstreaming : Streaming deployment cluster) {party : P}
    {height : OpenHlHeight} {round : Round} {built : PendingPayload E}
    {announced : Announced (StreamKey P) E}
    (hannounce : announce deployment.encode deployment.validatorSet deployment.checks
      (cluster.appState party) (cluster.validators party).nextStreamId height round
      built = .ok announced)
    (hhash : deployment.layer.hashSlow built.header = built.hash) {proposal : Proposal P E}
    (hproposal : proposal = { proposer := party, height := height, round := round
                              payload := built
                              streamId := streamIdBytes height round
                                (cluster.validators party).nextStreamId })
    (hcount : (cluster.propose party announced proposal).proposals.length < 2 ^ 64)
    (hfrom : Provenance deployment (cluster.propose party announced proposal)) :
    Streaming deployment (cluster.propose party announced proposal) := by
  obtain ⟨part, hstate, hnext, -, hmessages, -⟩ := announce_eq_ok hannounce
  have hlength : (cluster.propose party announced proposal).proposals.length =
      cluster.proposals.length + 1 := List.length_append
  have hcounted := hstreaming.counted party
  have hnextVal : announced.nextStreamId.val =
      (cluster.validators party).nextStreamId.val + 1 := by
    rw [hnext]
    exact Fin.val_add_eq_of_add_lt (by
      change (cluster.validators party).nextStreamId.val + 1 < 2 ^ 64
      omega)
  have hcounter : ∀ other, (cluster.validators other).nextStreamId.val ≤
      ((cluster.propose party announced proposal).validators other).nextStreamId.val := by
    intro other
    rw [Cluster.validators_propose]
    split_ifs with hother
    · rw [hother, hnextVal]
      exact Nat.le_succ _
    · exact le_refl _
  refine ⟨hfrom, ?_, ?_, ?_, ?_, ?_, ?_⟩
  · intro other hmem
    rcases List.mem_append.1 hmem with hold | hnew
    · exact hstreaming.hashes other hold
    · rw [List.mem_singleton.1 hnew, hproposal]
      exact hhash
  · intro other
    rw [Cluster.appState_propose]
    split_ifs
    · rw [hstate]
      exact hstreaming.chains party
    · exact hstreaming.chains other
  · intro sender message hnetwork
    rcases List.mem_append.1 hnetwork with hold | hnew
    · obtain ⟨earlier, hmem, hsource⟩ := hstreaming.sources sender message hold
      exact ⟨earlier, List.mem_append_left _ hmem, hsource⟩
    · refine ⟨proposal, List.mem_append_right _ (List.mem_singleton_self _), ?_⟩
      rw [hmessages] at hnew
      simp only [List.map_cons, List.map_nil, List.mem_cons, Prod.mk.injEq,
        List.not_mem_nil, or_false] at hnew
      rcases hnew with ⟨rfl, rfl⟩ | ⟨rfl, rfl⟩
      · rw [hproposal]
        exact ⟨rfl, rfl⟩
      · rw [hproposal]
        exact ⟨rfl, rfl⟩
  · intro other hmem
    rcases List.mem_append.1 hmem with hold | hnew
    · obtain ⟨counter, hlt, hid⟩ := hstreaming.counters other hold
      exact ⟨counter, lt_of_lt_of_le hlt (hcounter _), hid⟩
    · rw [List.mem_singleton.1 hnew, Cluster.validators_propose, hproposal, if_pos rfl,
        hnextVal]
      exact ⟨_, Nat.lt_succ_self _, rfl⟩
  · intro other
    rw [Cluster.validators_propose, hlength]
    split_ifs
    · rw [hnextVal]
      exact Nat.succ_le_succ hcounted
    · exact Nat.le_succ_of_le (hstreaming.counted other)
  · refine List.pairwise_append.2 ⟨hstreaming.distinct, List.pairwise_singleton _ _, ?_⟩
    intro earlier hmem other hother hsender hsame
    obtain ⟨counter, hlt, hid⟩ := hstreaming.counters earlier hmem
    rw [List.mem_singleton.1 hother, hproposal] at hsender hsame
    -- equal ids have equal counters, and the counter has gone up since
    rw [hid] at hsame
    rw [(streamIdBytes_inj hsame).2.2, hsender] at hlt
    exact lt_irrefl _ hlt

theorem ClusterStep.streaming (hcodec : deployment.RoundTrips)
    (hlawful : ∀ party, (deployment.reth party).Lawful deployment.layer)
    {before after : Cluster P E} (hstep : ClusterStep deployment before after)
    (hcount : after.proposals.length < 2 ^ 64)
    (hstreaming : Streaming deployment before) : Streaming deployment after := by
  have hfrom := hstep.provenance hcodec hstreaming.provenance
  cases hstep with
  | startedRound hworks => exact hstreaming.advance (hstreaming.chains _) hfrom
  | getValue hworks hbuild hannounce =>
      obtain ⟨hhash, -⟩ := buildPayload_attrs (hlawful _) hbuild
      exact hstreaming.propose hannounce hhash rfl hcount hfrom
  | part hnetwork hpart =>
      refine hstreaming.advance ?_ hfrom
      rw [(receivedProposalPart_chain hpart).1]
      exact hstreaming.chains _
  | decided hworks hdecide htime hpending =>
      obtain ⟨proposal, hmem, hcarries⟩ :=
        (hstreaming.provenance.states _).pending _ _ hpending
      refine hstreaming.advance ((hstreaming.chains _).insert ?_) hfrom
      rw [hcarries.header, hcarries.hash]
      exact hstreaming.hashes proposal hmem

theorem streaming_of_reaches (hcodec : deployment.RoundTrips)
    (hlawful : ∀ party, (deployment.reth party).Lawful deployment.layer)
    {first last : Cluster P E}
    (hreaches : Relation.ReflTransGen (ClusterStep deployment) first last)
    (hcount : last.proposals.length < 2 ^ 64) (hstreaming : Streaming deployment first) :
    Streaming deployment last := by
  induction hreaches with
  | refl => exact hstreaming
  | tail _ hstep ih =>
      exact hstep.streaming hcodec hlawful hcount
        (ih (lt_of_le_of_lt hstep.proposals_prefix.length_le hcount))

theorem streaming_initial {bridges : P → ChainState E} (parent : BlockHash)
    (height : OpenHlHeight)
    (hempty : ∀ party, (bridges party).pending = SortedMap.empty)
    (hchain : ∀ party, (bridges party).chain.All fun hash header =>
      deployment.layer.hashSlow header = hash) :
    Streaming deployment (Cluster.initial bridges parent height) where
  provenance := provenance_initial parent height hempty
  hashes proposal hmem := by cases hmem
  chains party := hchain party
  sources sender message hnetwork := by cases hnetwork
  counters proposal hmem := by cases hmem
  counted party := Nat.zero_le _
  distinct := List.Pairwise.nil

/-- The proposal is the only one that its validator sent in a stream of that id. -/
theorem Streaming.eq_of_stream (hstreaming : Streaming deployment cluster)
    {proposal other : Proposal P E} (hmem : proposal ∈ cluster.proposals)
    (hother : other ∈ cluster.proposals) (hsender : proposal.proposer = other.proposer)
    (hid : proposal.streamId = other.streamId) : proposal = other := by
  by_contra hne
  have hsymm : Std.Symm fun left right : Proposal P E =>
      left.proposer = right.proposer → left.streamId ≠ right.streamId :=
    ⟨fun left right hdistinct hsame heq => hdistinct hsame.symm heq.symm⟩
  exact hstreaming.distinct.forall hmem hother hne hsender hid

/-! ## Receiving a part -/

/-- The application can commit the block if it is decided. -/
def CanCommit (state : AppState (StreamKey P) E) (payload : PendingPayload E) : Prop :=
  state.blockTimes.get? payload.hash = some payload.header.timestamp ∧
    ∃ id stored, state.bridge.pending.get? id = some stored ∧
      stored.hash = payload.hash ∧ stored.header = payload.header ∧
      stored.executionData = payload.executionData

/-- What a message of a proposal's stream is answered with. -/
def AnswersFor (deployment : Deployment P E PublicKey) (state : AppState (StreamKey P) E)
    (sender : P) (message : StreamMessage) (proposal : Proposal P E) : Prop :=
  ∃ after, (receivedProposalPart deployment.layer state
      (toLex (sender, message.streamId)) message.content = .ok (after, none) ∧
      completedPart state (toLex (sender, message.streamId)) message.content = none) ∨
    ∃ proposer, receivedProposalPart deployment.layer state
        (toLex (sender, message.streamId)) message.content =
          .ok (after, some { height := proposal.height, round := proposal.round
                             validRound := none, proposer := proposer
                             value := proposal.payload.hash }) ∧
      selectProposerAddress deployment.validatorSet proposal.height proposal.round =
        some proposer ∧ CanCommit after proposal.payload

theorem Streaming.answersFor (hstreaming : Streaming deployment cluster) {sender : P}
    {message : StreamMessage} (hnetwork : (sender, message) ∈ cluster.network)
    {proposal : Proposal P E} (hmem : proposal ∈ cluster.proposals)
    (hsender : proposal.proposer = sender) (hid : proposal.streamId = message.streamId)
    (party : P) :
    AnswersFor deployment (cluster.appState party) sender message proposal := by
  cases hcompleted : completedPart (cluster.appState party)
      (toLex (sender, message.streamId)) message.content with
  | none => exact ⟨_, .inl ⟨receivedProposalPart_of_not_completed hcompleted, hcompleted⟩⟩
  | some part =>
      obtain ⟨sent, hsentMem, hsent⟩ := (hstreaming.provenance.states party).receive
        (hstreaming.provenance.network sender message hnetwork)
        (completedPart_eq_some hcompleted)
      have hkey := Prod.mk.inj (toLex.injective hsent.key)
      obtain rfl := hstreaming.eq_of_stream hmem hsentMem (hsender.trans hkey.1)
        (hid.trans hkey.2)
      have haccept := registerProposedBlock_proposedWire (hstreaming.hashes proposal hmem)
        hsent.part.decodes (cluster.appState party).bridge
      have hreceived := @receivedProposalPart_of_completedPart _ _ _ deployment.layer _ _ _
        _ hcompleted
      rw [haccept, hsent.part.height, hsent.part.round, hsent.part.polRound] at hreceived
      refine ⟨_, .inr ⟨_, hreceived, hsent.part.proposer, ?_, ?_⟩⟩
      · rw [SortedMap.get?_insert]
        exact if_pos rfl
      · exact ⟨_, _, ChainState.get?_insertPending_self _ _, rfl, rfl, rfl⟩

end Streams

/-- In any run with fewer than `2 ^ 64` proposals, every published message belongs to the
stream of exactly one proposal, and whichever validator receives it, at whatever point, and
however often, stays in its loop.  Its answer is nothing as long as the stream lacks a
half, and else the value of that proposal, in the name of the validator whose turn it is;
then it can commit the proposed block if consensus decides it. -/
theorem cluster_parts {P E PublicKey : Type} [LinearOrder P]
    (deployment : Deployment P E PublicKey) (hcodec : deployment.RoundTrips)
    (hlawful : ∀ party, (deployment.reth party).Lawful deployment.layer)
    (bridges : P → ChainState E) (parent : BlockHash) (height : OpenHlHeight)
    (hempty : ∀ party, (bridges party).pending = SortedMap.empty)
    (hchain : ∀ party, (bridges party).chain.All fun hash header =>
      deployment.layer.hashSlow header = hash)
    (cluster : Cluster P E)
    (hrun : Relation.ReflTransGen (ClusterStep deployment)
      (Cluster.initial bridges parent height) cluster)
    (hcount : cluster.proposals.length < 2 ^ 64) (sender : P) (message : StreamMessage)
    (hnetwork : (sender, message) ∈ cluster.network) :
    ∃! proposal, (proposal ∈ cluster.proposals ∧ proposal.proposer = sender ∧
        proposal.streamId = message.streamId) ∧
      ∀ party, AnswersFor deployment (cluster.appState party) sender message proposal := by
  have hstreaming := streaming_of_reaches hcodec hlawful hrun hcount
    (streaming_initial parent height hempty hchain)
  obtain ⟨proposal, hmem, hsender, hid⟩ := hstreaming.sources sender message hnetwork
  refine ⟨proposal, ⟨⟨hmem, hsender, hid⟩,
    hstreaming.answersFor hnetwork hmem hsender hid⟩, ?_⟩
  rintro other ⟨⟨hother, hotherSender, hotherId⟩, -⟩
  exact hstreaming.eq_of_stream hother hmem (hotherSender.trans hsender.symm)
    (hotherId.trans hid.symm)

/-- The stream in which one of two validators sends the block on genesis. -/
theorem cluster_parts_pair :
    ∃! proposal, (proposal ∈ [childProposal] ∧ proposal.proposer = 0 ∧
        proposal.streamId = childStream) ∧
      ∀ party, AnswersFor pairDeployment
        ((pairStart.propose 0 childAnnounced childProposal).appState party) 0
        { streamId := childStream, sequence := 1, content := .fin } proposal := by
  have hstep : ClusterStep pairDeployment pairStart
      (pairStart.propose 0 childAnnounced childProposal) :=
    .getValue ⟨rfl, fun block hblock => by cases hblock⟩ childPayload_built announce_child
  exact cluster_parts pairDeployment pairDeployment_roundTrips
    (fun _ => genesisNode_lawful rfl) (fun _ => emptyChain) defaultHash 1 (fun _ => rfl)
    (fun _ => SortedMap.All.empty) _ (.single hstep) (by decide) 0 _
    (List.mem_cons_of_mem _ List.mem_cons_self)

end OpenHl.Consensus
