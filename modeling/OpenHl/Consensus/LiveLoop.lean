import OpenHl.Consensus.EngineLoop

/-!
# The loop over the live bridge

The loop of the engine application, run over the bridge of the node, takes the steps of
the transition system in which the committed chain is studied, and no others
(`liveLoop_refines`).  So what holds of every run of that system holds of the loop.
-/

namespace OpenHl.Consensus

open Machine OpenHl.Evm

section LiveLoop

variable {K E H PublicKey : Type} [LinearOrder K]

/-- The configuration of a validator of the network. -/
structure LiveConfig (E H PublicKey : Type) where
  node : LiveNode E
  validatorSet : OpenHlValidatorSet PublicKey
  initialParent : BlockHash
  initialHeight : OpenHlHeight
  stopAfterDecisions : ℕ
  onCommitted : H → BlockHash → OpenHlHeight → U64 → H × Except String Unit

def LiveConfig.engine (config : LiveConfig E H PublicKey) :
    EngineConfig (LiveRethEvmBridge E) H PublicKey :=
  { bridge := LiveRethEvmBridge.bridge config.node, validatorSet := config.validatorSet
    checks := config.node.checks, initialParent := config.initialParent
    initialHeight := config.initialHeight
    stopAfterDecisions := config.stopAfterDecisions, onCommitted := config.onCommitted }

/-- What the transition system sees of the loop. -/
def LoopState.app (state : LoopState K (LiveRethEvmBridge E) H) : AppState K E :=
  { bridge := state.bridge.state, streams := state.streams
    blockTimes := state.blockTimes, decided := state.decided
    currentParent := state.currentParent, currentHeight := state.currentHeight }

/-- A block as it was handed on, without its payload. -/
def Committed.handedOn (block : Committed E) : HandedOn :=
  { hash := block.hash, height := block.height, blockTime := block.blockTime }

/-- The loop stays where it is, or takes a step of the system that hands on the same
blocks. -/
def Follows (checks : U64.OverflowChecks) (layer : ExecutionLayer E) (reth : RethNode E)
    (before after : AppState K E) (handed : List HandedOn) : Prop :=
  (after = before ∧ handed = []) ∨
    ∃ msg committed, EngineStep checks layer reth before msg after committed ∧
      handed = committed.toList.map Committed.handedOn

variable {config : LiveConfig E H PublicKey}
  {state : LoopState K (LiveRethEvmBridge E) H}

/-- The bridge has the chain that it had before, and nothing has been handed on. -/
structure Handled.KeepsChain (before : LiveRethEvmBridge E)
    (handled : Handled K (LiveRethEvmBridge E) H) : Prop where
  chain : handled.state.bridge.state.chain = before.state.chain
  head : handled.state.bridge.state.head = before.state.head
  idle : handedOn handled.effects = []

theorem handlePart_keepsChain (key : K) (content : StreamContent) :
    (handlePart config.engine state key content).KeepsChain state.bridge := by
  rw [handlePart]
  dsimp only
  split
  · next part hdata hfin =>
    simp only [LiveConfig.engine, LiveRethEvmBridge.bridge,
      LiveRethEvmBridge.registerProposedBlock]
    cases hregister : registerProposedBlock config.node.layer state.bridge.state
        part.blockBytes with
    | error failure => exact ⟨rfl, rfl, rfl⟩
    | ok registered =>
        obtain ⟨block, after⟩ := registered
        obtain ⟨wire, -, -, -, rfl⟩ := registerProposedBlock_eq_ok hregister
        exact ⟨rfl, rfl, rfl⟩
  · exact ⟨rfl, rfl, rfl⟩

theorem handleGetValue_keepsChain (height : OpenHlHeight) (round : Round) :
    (handleGetValue config.engine state height round).KeepsChain state.bridge := by
  have hbridge : config.engine.bridge.buildPayload state.bridge state.currentParent
      defaultAttrs = LiveRethEvmBridge.buildPayload config.node state.bridge
        state.currentParent defaultAttrs := rfl
  rw [handleGetValue, hbridge, LiveRethEvmBridge.buildPayload]
  cases buildPayload config.node.checks config.node.layer config.node.reth
      state.bridge.state state.bridge.pendingFills state.currentParent defaultAttrs with
  | error failure =>
      cases failure with
      | bridge failure => exact ⟨rfl, rfl, rfl⟩
      | overflow => exact ⟨rfl, rfl, rfl⟩
  | ok built =>
      rw [ok_bind]
      simp only [pure, Except.pure]
      split
      · exact ⟨rfl, rfl, rfl⟩
      · next block hready =>
        obtain ⟨counter, result, hstream, hpublished⟩ := streamProposal_cases config.engine
          { state with
            bridge := { state.bridge with
              state := state.bridge.state.insertPending built, pendingFills := [] }
            blockTimes := state.blockTimes.insert block.hash block.timestamp }
          state.bridge.state.nextPayloadId height round
        rw [hstream]
        cases result with
        | error failure => exact ⟨rfl, rfl, rfl⟩
        | ok published =>
            refine ⟨rfl, rfl, List.filterMap_eq_nil_iff.2 fun effect heffect => ?_⟩
            rcases List.mem_cons.1 heffect with rfl | heffect
            · rfl
            · obtain ⟨message, rfl⟩ := hpublished published rfl effect heffect
              rfl

theorem handlePart_goes (key : K) (content : StreamContent)
    (hgoes : (handlePart config.engine state key content).outcome = .ok .continue) :
    ∃ reply, receivedProposalPart config.node.layer state.app key content =
      .ok ((handlePart config.engine state key content).state.app, reply) := by
  rw [handlePart] at hgoes ⊢
  dsimp only at hgoes ⊢
  split at hgoes
  · next part hdata hfin =>
    simp only [LiveConfig.engine, LiveRethEvmBridge.bridge,
      LiveRethEvmBridge.registerProposedBlock] at hgoes ⊢
    cases hregister : registerProposedBlock config.node.layer state.bridge.state
        part.blockBytes with
    | error failure =>
        simp only [hregister] at hgoes
        cases hgoes
    | ok registered =>
        rw [receivedProposalPart]
        simp only [LoopState.app, hdata, hfin, hregister]
        exact ⟨_, rfl⟩
  · next hopen =>
    rw [receivedProposalPart]
    split
    · next part hdata hfin => exact (hopen part hdata hfin).elim
    · exact ⟨none, rfl⟩

theorem handleGetValue_goes (height : OpenHlHeight) (round : Round)
    (hgoes : (handleGetValue config.engine state height round).outcome = .ok .continue) :
    ∃ built, buildPayload config.node.checks config.node.layer config.node.reth
        state.bridge.state state.bridge.pendingFills state.currentParent
        defaultAttrs = .ok built ∧
      (handleGetValue config.engine state height round).state.app =
        getValue state.app built := by
  have hbridge : config.engine.bridge.buildPayload state.bridge state.currentParent
      defaultAttrs = LiveRethEvmBridge.buildPayload config.node state.bridge
        state.currentParent defaultAttrs := rfl
  rw [handleGetValue, hbridge, LiveRethEvmBridge.buildPayload] at hgoes ⊢
  cases hbuild : buildPayload config.node.checks config.node.layer config.node.reth
      state.bridge.state state.bridge.pendingFills state.currentParent defaultAttrs with
  | error failure =>
      rw [hbuild] at hgoes
      cases failure with
      | bridge failure => cases hgoes
      | overflow => cases hgoes
  | ok built =>
      have hready : config.engine.bridge.payloadReady
          { state.bridge with
            state := state.bridge.state.insertPending built, pendingFills := [] }
          state.bridge.state.nextPayloadId =
            .ok (executedBlock built.hash built.header) := by
        change payloadReady (state.bridge.state.insertPending built) _ = _
        rw [payloadReady, ChainState.get?_insertPending_self]
      rw [hbuild] at hgoes
      rw [ok_bind] at hgoes ⊢
      simp only [pure, Except.pure, hready] at hgoes ⊢
      obtain ⟨counter, result, hstream, hpublished⟩ := streamProposal_cases config.engine
        { state with
          bridge := { state.bridge with
            state := state.bridge.state.insertPending built, pendingFills := [] }
          blockTimes := state.blockTimes.insert built.hash built.header.timestamp }
        state.bridge.state.nextPayloadId height round
      simp only [executedBlock] at hgoes ⊢
      rw [hstream] at hgoes ⊢
      cases result with
      | error failure => cases hgoes
      | ok published => exact ⟨built, rfl, rfl⟩

/-- A decision commits a pending block, or ends the loop and leaves the bridge as it
is. -/
theorem handleDecided_cases (hash : BlockHash) (height : OpenHlHeight) :
    ((handleDecided config.engine state hash height).outcome ≠ .ok .continue ∧
      (handleDecided config.engine state hash height).state.bridge = state.bridge ∧
      handedOn (handleDecided config.engine state hash height).effects = []) ∨
    ∃ id payload blockTime, payload.hash = hash ∧
      state.blockTimes.get? hash = some blockTime ∧
      state.bridge.state.pending.get? id = some payload ∧
      ((config.node.iteration.order state.bridge.state.pending).find? fun entry =>
        entry.hash = hash) = some payload ∧
      handedOn (handleDecided config.engine state hash height).effects =
        [{ hash := hash, height := height, blockTime := blockTime }] ∧
      (handleDecided config.engine state hash height).state.bridge.state =
        state.bridge.state.commit payload ∧
      ((handleDecided config.engine state hash height).outcome = .ok .continue →
        (handleDecided config.engine state hash height).state.app =
          decided state.app height payload) := by
  have hbridge : config.engine.bridge.commit state.bridge hash =
      LiveRethEvmBridge.commit config.node state.bridge hash := rfl
  rw [handleDecided, hbridge, LiveRethEvmBridge.commit]
  cases htime : state.blockTimes.get? hash with
  | none => exact .inl ⟨(fun hgoes => by cases hgoes), rfl, rfl⟩
  | some blockTime =>
      cases hfind : (config.node.iteration.order state.bridge.state.pending).find?
          fun entry => entry.hash = hash with
      | none => exact .inl ⟨(fun hgoes => by cases hgoes), rfl, rfl⟩
      | some payload =>
          have hhash := List.find?_some hfind
          obtain rfl := of_decide_eq_true hhash
          obtain ⟨id, hpending⟩ := Numbered.mem_values_iff.1
            ((config.node.iteration.perm _).mem_iff.1 (List.mem_of_find?_eq_some hfind))
          refine .inr ⟨id, payload, blockTime, rfl, rfl, hpending, rfl, ?_⟩
          dsimp only
          obtain ⟨hook, message | ⟨⟩⟩ :=
            config.engine.onCommitted state.hook payload.hash height blockTime
          · exact ⟨rfl, rfl, fun hgoes => by cases hgoes⟩
          · dsimp only
            split_ifs
            · exact ⟨rfl, rfl, fun hgoes => by cases hgoes⟩
            · exact ⟨rfl, rfl, fun _ => rfl⟩

/-- Whatever becomes of a message, the chain of the bridge grows by what is handed on. -/
theorem handle_chain (msg : EngineMsg K) :
    (handle config.engine state msg).KeepsChain state.bridge ∨
    ∃ id payload height blockTime, msg = .decided payload.hash height ∧
      state.blockTimes.get? payload.hash = some blockTime ∧
      state.bridge.state.pending.get? id = some payload ∧
      ((config.node.iteration.order state.bridge.state.pending).find? fun entry =>
        entry.hash = payload.hash) = some payload ∧
      handedOn (handle config.engine state msg).effects =
        [{ hash := payload.hash, height := height, blockTime := blockTime }] ∧
      (handle config.engine state msg).state.bridge.state =
        state.bridge.state.commit payload ∧
      ((handle config.engine state msg).outcome = .ok .continue →
        (handle config.engine state msg).state.app = decided state.app height payload) := by
  cases msg with
  | consensusReady => exact .inl ⟨rfl, rfl, rfl⟩
  | startedRound height => exact .inl ⟨rfl, rfl, rfl⟩
  | getValue height round => exact .inl (handleGetValue_keepsChain height round)
  | extendVote => exact .inl ⟨rfl, rfl, rfl⟩
  | verifyVoteExtension => exact .inl ⟨rfl, rfl, rfl⟩
  | restreamProposal => exact .inl ⟨rfl, rfl, rfl⟩
  | getHistoryMinHeight => exact .inl ⟨rfl, rfl, rfl⟩
  | receivedProposalPart key content => exact .inl (handlePart_keepsChain key content)
  | getValidatorSet => exact .inl ⟨rfl, rfl, rfl⟩
  | decided hash height =>
      obtain ⟨-, hbridge, hidle⟩ | ⟨id, payload, blockTime, rfl, hcommits⟩ :=
        @handleDecided_cases _ _ _ _ _ config state hash height
      · exact .inl ⟨congrArg (fun bridge => bridge.state.chain) hbridge,
          congrArg (fun bridge => bridge.state.head) hbridge, hidle⟩
      · exact .inr ⟨id, payload, height, blockTime, rfl, hcommits⟩
  | getDecidedValue => exact .inl ⟨rfl, rfl, rfl⟩
  | processSyncedValue => exact .inl ⟨rfl, rfl, rfl⟩

/-- A message that the loop survives. -/
theorem handle_follows (msg : EngineMsg K)
    (hgoes : (handle config.engine state msg).outcome = .ok .continue) :
    Follows config.node.checks config.node.layer config.node.reth state.app
      (handle config.engine state msg).state.app
      (handedOn (handle config.engine state msg).effects) := by
  cases msg with
  | consensusReady => exact .inl ⟨rfl, rfl⟩
  | startedRound height =>
      exact .inr ⟨_, none, ⟨.startedRound state.app height,
        fun built hbuilt => by cases hbuilt⟩, rfl⟩
  | getValue height round =>
      obtain ⟨built, hbuild, hafter⟩ := handleGetValue_goes height round hgoes
      refine .inr ⟨.getValue built, none, ⟨?_, ?_⟩,
        (handleGetValue_keepsChain height round).idle⟩
      · rw [handle, hafter]
        exact .getValue state.app built
      · rintro other hother
        obtain rfl := AppMsg.getValue.inj hother
        exact ⟨_, hbuild⟩
  | extendVote => exact .inl ⟨rfl, rfl⟩
  | verifyVoteExtension => exact .inl ⟨rfl, rfl⟩
  | restreamProposal => exact .inl ⟨rfl, rfl⟩
  | getHistoryMinHeight => exact .inl ⟨rfl, rfl⟩
  | receivedProposalPart key content =>
      obtain ⟨reply, hreceived⟩ := handlePart_goes key content hgoes
      exact .inr ⟨_, none, ⟨.part hreceived, fun built hbuilt => by cases hbuilt⟩,
        (handlePart_keepsChain key content).idle⟩
  | getValidatorSet => exact .inl ⟨rfl, rfl⟩
  | decided hash height =>
      obtain ⟨hstops, -⟩ | ⟨id, payload, blockTime, rfl, htime, hpending, -, hhanded, -,
        hafter⟩ := @handleDecided_cases _ _ _ _ _ config state hash height
      · exact absurd hgoes hstops
      refine .inr ⟨.decided payload.hash height,
        some { hash := payload.hash, height := height, blockTime := blockTime
               payload := payload }, ⟨?_, ?_⟩, hhanded⟩
      · rw [handle, hafter hgoes]
        exact .decided htime hpending
      · rintro built hbuilt
        cases hbuilt
  | getDecidedValue => exact .inl ⟨rfl, rfl⟩
  | processSyncedValue => exact .inl ⟨rfl, rfl⟩

/-- One more message is at most one more step. -/
theorem Follows.advances {checks : U64.OverflowChecks} {layer : ExecutionLayer E}
    {reth : RethNode E}
    {progress : Progress K E} {after : AppState K E} {handed : List HandedOn}
    (hfollows : Follows checks layer reth progress.state after handed) :
    ∃ next, Relation.ReflTransGen (Advances checks layer reth) progress next ∧
      next.state = after ∧
      next.committed.map Committed.handedOn =
        progress.committed.map Committed.handedOn ++ handed := by
  obtain ⟨rfl, rfl⟩ | ⟨msg, committed, hstep, rfl⟩ := hfollows
  · exact ⟨progress, .refl, rfl, (List.append_nil _).symm⟩
  · refine ⟨progress.advance after committed, .single ⟨msg, after, committed, hstep, rfl⟩, ?_⟩
    cases committed with
    | none => exact ⟨rfl, (List.append_nil _).symm⟩
    | some block => exact ⟨rfl, List.map_append⟩

end LiveLoop

/-- At any point of any run of the loop over the live bridge, the application is in a state
that the transition system reaches from the same start while it commits the blocks that the
loop has handed on, at the same heights and with the same times. -/
theorem liveLoop_refines {K E H PublicKey : Type} [LinearOrder K]
    (config : LiveConfig E H PublicKey) (bridge : LiveRethEvmBridge E) (hook : H)
    (effects : List Effect) (state : LoopState K (LiveRethEvmBridge E) H)
    (hrun : Survives config.engine (config.engine.initial bridge hook) effects state) :
    ∃ progress, Relation.ReflTransGen
        (Advances config.node.checks config.node.layer config.node.reth)
        (Progress.initial bridge.state config.initialParent config.initialHeight)
        progress ∧
      progress.state = state.app ∧
      progress.committed.map Committed.handedOn = handedOn effects := by
  induction hrun with
  | start => exact ⟨_, .refl, rfl, rfl⟩
  | message hbefore hgoes ih =>
      obtain ⟨progress, hreaches, hstate, hcommitted⟩ := ih
      have hfollows := handle_follows _ hgoes
      rw [← hstate] at hfollows
      obtain ⟨next, hnext, hafter, hhanded⟩ := hfollows.advances
      refine ⟨next, hreaches.trans hnext, hafter, ?_⟩
      rw [hhanded, hcommitted, handedOn_append]

/-- The validator of genesis as a validator of the network. -/
def childLiveConfig : LiveConfig Unit ℕ U8 :=
  { node := childNode, validatorSet := childConfig.validatorSet
    initialParent := defaultHash, initialHeight := 1, stopAfterDecisions := 0
    onCommitted := fun count _ _ _ => (count + 1, .ok ()) }

/-- The block on genesis is built. -/
theorem liveLoop_refines_child :
    ∃ progress : Progress ℕ Unit,
      Relation.ReflTransGen (Advances .on childLayer genesisNode)
        (Progress.initial emptyChain defaultHash 1) progress ∧
      progress.state.blockTimes.get? childHash = some 1 := by
  have hbuilds : (handle childLiveConfig.engine
      (childLiveConfig.engine.initial .new 0 : LoopState ℕ _ ℕ)
      (.getValue 1 (some 0))).outcome = .ok .continue := rfl
  obtain ⟨progress, hreaches, hstate, -⟩ :=
    liveLoop_refines childLiveConfig .new 0 _ _ (Survives.start.message hbuilds)
  refine ⟨progress, hreaches, ?_⟩
  rw [hstate]
  rfl

end OpenHl.Consensus
