import OpenHl.Evm.Bridges

/-!
# The loop of the engine application

`run_engine_app` over any bridge: one message after the other, until enough blocks have
been decided, the channel closes, or something fails.

`runEngineApp_decisions`: over any bridge that keeps the contract, every block that is
committed is handed on right away, and the loop returns what it handed on, as many blocks
as were asked for, and one if none were asked for.  `decided_outcome`: a decision ends the
loop early only if the application has never seen the block or the coordinator fails.
-/

namespace OpenHl.Consensus

open Machine OpenHl.Evm

inductive EngineMsg (K : Type) where
  | consensusReady
  | startedRound (height : OpenHlHeight)
  | getValue (height : OpenHlHeight) (round : Round)
  | extendVote
  | verifyVoteExtension
  | restreamProposal
  | getHistoryMinHeight
  | receivedProposalPart (key : K) (content : StreamContent)
  | getValidatorSet
  | decided (hash : BlockHash) (height : OpenHlHeight)
  | getDecidedValue
  | processSyncedValue

/-- What is sent back to consensus; the validator set goes along where it is asked for. -/
inductive Reply where
  | ready (height : OpenHlHeight)
  | undecidedValues (values : List ProposedValue)
  | value (value : LocallyProposedValue)
  | voteExtension (extension : Option Unit)
  | verified
  | historyMinHeight (height : OpenHlHeight)
  | proposed (value : Option ProposedValue)
  | validatorSet
  | start (height : OpenHlHeight)
  | decidedValue (value : Option BlockHash)
  | syncedValue (value : Option ProposedValue)
  deriving DecidableEq

/-- What the loop does to the outside, in order. -/
inductive Effect where
  | answer (reply : Reply)
  | publish (message : StreamMessage)
  | commit (hash : BlockHash)
  | onCommitted (hash : BlockHash) (height : OpenHlHeight) (blockTime : U64)
  deriving DecidableEq

inductive Next where
  | continue
  | done
  deriving DecidableEq

section Loop

variable {K B H PublicKey : Type} [LinearOrder K]

structure EngineConfig (B H PublicKey : Type) where
  bridge : ConsensusBridge B
  validatorSet : OpenHlValidatorSet PublicKey
  checks : U64.OverflowChecks
  initialParent : BlockHash
  initialHeight : OpenHlHeight
  stopAfterDecisions : ℕ
  onCommitted : H → BlockHash → OpenHlHeight → U64 → H × Except String Unit

structure LoopState (K B H : Type) [LinearOrder K] where
  bridge : B
  hook : H
  decided : List BlockHash
  currentParent : BlockHash
  currentHeight : OpenHlHeight
  blockTimes : SortedMap BlockHash U64
  streams : SortedMap K InProgressStream
  nextStreamId : U64

structure Handled (K B H : Type) [LinearOrder K] where
  state : LoopState K B H
  effects : List Effect
  outcome : Except AppFailure Next

def EngineConfig.initial (config : EngineConfig B H PublicKey) (bridge : B) (hook : H) :
    LoopState K B H :=
  { bridge := bridge, hook := hook, decided := [], currentParent := config.initialParent
    currentHeight := config.initialHeight, blockTimes := SortedMap.empty
    streams := SortedMap.empty, nextStreamId := 0 }

def answer (state : LoopState K B H) (reply : Reply) : Handled K B H :=
  { state := state, effects := [.answer reply], outcome := .ok .continue }

variable (config : EngineConfig B H PublicKey)

/-- The second half of the `GetValue` arm: stream the block of the given id. -/
def streamProposal (state : LoopState K B H) (id : PayloadId) (height : OpenHlHeight)
    (round : Round) : LoopState K B H × Except AppFailure (List Effect) :=
  match config.bridge.encodeProposedBlock state.bridge id with
  | .error failure => (state, .error (.bridge failure))
  | .ok blockBytes =>
      match selectProposerAddress config.validatorSet height round with
      | none => (state, .error .noValidators)
      | some proposer =>
          match makeStreamId config.checks height round state.nextStreamId with
          | .error .overflow => (state, .error .overflow)
          | .ok (streamId, next) =>
              let part : OpenHlProposalPart :=
                { height := height, round := round, polRound := none
                  proposer := proposer, blockBytes := blockBytes }
              ({ state with nextStreamId := next },
                .ok [.publish { streamId := streamId, sequence := 0
                                content := .data part },
                  .publish { streamId := streamId, sequence := 1, content := .fin }])

def handleGetValue (state : LoopState K B H) (height : OpenHlHeight) (round : Round) :
    Handled K B H :=
  match config.bridge.buildPayload state.bridge state.currentParent defaultAttrs with
  | .error .overflow => { state := state, effects := [], outcome := .error .overflow }
  | .error (.bridge failure) =>
      { state := state, effects := [], outcome := .error (.bridge failure) }
  | .ok (id, bridge) =>
      match config.bridge.payloadReady bridge id with
      | .error failure =>
          { state := { state with bridge := bridge }, effects := []
            outcome := .error (.bridge failure) }
      | .ok block =>
          let announced := { state with
            bridge := bridge
            blockTimes := state.blockTimes.insert block.hash block.timestamp }
          let reply := Effect.answer
            (.value { height := height, round := round, value := block.hash })
          match streamProposal config announced id height round with
          | (after, .error failure) =>
              { state := after, effects := [reply], outcome := .error failure }
          | (after, .ok published) =>
              { state := after, effects := reply :: published
                outcome := .ok .continue }

def handlePart (state : LoopState K B H) (key : K) (content : StreamContent) :
    Handled K B H :=
  let stream := ((state.streams.get? key).getD .default).receive content
  match stream.data, stream.finSeen with
  | some part, true =>
      let taken := { state with streams := state.streams.erase key }
      match config.bridge.registerProposedBlock state.bridge part.blockBytes with
      | .error failure =>
          { state := taken, effects := [], outcome := .error (.bridge failure) }
      | .ok (block, bridge) =>
          answer { taken with
            bridge := bridge
            blockTimes := state.blockTimes.insert block.hash block.timestamp }
            (.proposed (some { height := part.height, round := part.round
                               validRound := part.polRound, proposer := part.proposer
                               value := block.hash }))
  | _, _ =>
      answer { state with streams := state.streams.insert key stream } (.proposed none)

def handleDecided (state : LoopState K B H) (hash : BlockHash) (height : OpenHlHeight) :
    Handled K B H :=
  match state.blockTimes.get? hash with
  | none => { state := state, effects := [], outcome := .error (.noTimestamp hash) }
  | some blockTime =>
      let taken := { state with blockTimes := state.blockTimes.erase hash }
      match config.bridge.commit state.bridge hash with
      | .error failure =>
          { state := taken, effects := [], outcome := .error (.bridge failure) }
      | .ok bridge =>
          let effects := [.commit hash, .onCommitted hash height blockTime]
          match config.onCommitted state.hook hash height blockTime with
          | (hook, .error message) =>
              { state := { taken with bridge := bridge, hook := hook }
                effects := effects, outcome := .error (.hook message) }
          | (hook, .ok ()) =>
              let next := height.saturatingAdd 1
              let decided := state.decided ++ [hash]
              let after := { taken with
                bridge := bridge, hook := hook, decided := decided
                currentParent := hash }
              if config.stopAfterDecisions ≤ decided.length then
                { state := after, effects := effects ++ [.answer (.start next)]
                  outcome := .ok .done }
              else
                { state := { after with currentHeight := next }
                  effects := effects ++ [.answer (.start next)]
                  outcome := .ok .continue }

def handle (state : LoopState K B H) : EngineMsg K → Handled K B H
  | .consensusReady => answer state (.ready state.currentHeight)
  | .startedRound height =>
      answer { state with currentHeight := height } (.undecidedValues [])
  | .getValue height round => handleGetValue config state height round
  | .extendVote => answer state (.voteExtension none)
  | .verifyVoteExtension => answer state .verified
  | .restreamProposal => { state := state, effects := [], outcome := .ok .continue }
  | .getHistoryMinHeight => answer state (.historyMinHeight config.initialHeight)
  | .receivedProposalPart key content => handlePart config state key content
  | .getValidatorSet => answer state .validatorSet
  | .decided hash height => handleDecided config state hash height
  | .getDecidedValue => answer state (.decidedValue none)
  | .processSyncedValue => answer state (.syncedValue none)

structure Finished (K B H : Type) [LinearOrder K] where
  state : LoopState K B H
  effects : List Effect
  result : Except AppFailure (List BlockHash)

/-- The loop over the messages of the channel, which closes after the last one. -/
def runEngineApp : LoopState K B H → List (EngineMsg K) → Finished K B H
  | state, [] =>
      { state := state, effects := []
        result := .error (.closed state.decided.length config.stopAfterDecisions) }
  | state, msg :: rest =>
      let handled := handle config state msg
      match handled.outcome with
      | .error failure =>
          { state := handled.state, effects := handled.effects, result := .error failure }
      | .ok .done =>
          { state := handled.state, effects := handled.effects
            result := .ok handled.state.decided }
      | .ok .continue =>
          let later := runEngineApp handled.state rest
          { later with effects := handled.effects ++ later.effects }

/-! ## Decisions -/

/-- A block as it is handed to the coordinator. -/
structure HandedOn where
  hash : BlockHash
  height : OpenHlHeight
  blockTime : U64

def HandedOn.effects (handed : HandedOn) : List Effect :=
  [.commit handed.hash, .onCommitted handed.hash handed.height handed.blockTime]

def Effect.decides : Effect → Bool
  | .commit _ => true
  | .onCommitted _ _ _ => true
  | .answer _ => false
  | .publish _ => false

def Effect.handedOn : Effect → Option HandedOn
  | .onCommitted hash height blockTime =>
      some { hash := hash, height := height, blockTime := blockTime }
  | _ => none

/-- The calls of the coordinator among some effects. -/
def handedOn (effects : List Effect) : List HandedOn := effects.filterMap Effect.handedOn

/-- Every commit is followed by the call of the coordinator for the same block, and there
is no other call of it. -/
def Lockstep (effects : List Effect) : Prop :=
  effects.filter Effect.decides = (handedOn effects).flatMap HandedOn.effects

theorem handedOn_append (first second : List Effect) :
    handedOn (first ++ second) = handedOn first ++ handedOn second :=
  List.filterMap_append

theorem Lockstep.append {first second : List Effect} (hfirst : Lockstep first)
    (hsecond : Lockstep second) : Lockstep (first ++ second) := by
  rw [Lockstep, List.filter_append, hfirst, hsecond, handedOn_append, List.flatMap_append]

variable {config} {contract : config.bridge.Contract} {state : LoopState K B H}

/-- What holds of the application between two messages. -/
structure Running (config : EngineConfig B H PublicKey)
    (contract : config.bridge.Contract) (state : LoopState K B H) : Prop where
  valid : contract.Valid state.bridge
  times : state.blockTimes.All fun hash _ =>
    ∃ block ∈ contract.blocks state.bridge, block.hash = hash
  parent : state.currentParent = state.decided.getLast?.getD config.initialParent
  head : ∀ hash ∈ state.decided.getLast?, contract.head state.bridge = some hash

/-- What one message may do: it hands on what it commits, and if the loop survives it, it
has decided just that. -/
structure Handled.Sound (config : EngineConfig B H PublicKey)
    (contract : config.bridge.Contract) (before : LoopState K B H)
    (handled : Handled K B H) : Prop where
  lockstep : Lockstep handled.effects
  running : ∀ next, handled.outcome = .ok next → Running config contract handled.state ∧
    handled.state.decided =
      before.decided ++ (handedOn handled.effects).map HandedOn.hash
  single : (handedOn handled.effects).length ≤ 1
  continues : handled.outcome = .ok .continue → handedOn handled.effects ≠ [] →
    handled.state.decided.length < config.stopAfterDecisions
  done : handled.outcome = .ok .done → handedOn handled.effects ≠ [] ∧
    config.stopAfterDecisions ≤ handled.state.decided.length

/-- Effects among which there is no decision. -/
theorem Handled.sound_of_quiet {handled : Handled K B H}
    (hquiet : handled.effects.filter Effect.decides = [])
    (hnone : handedOn handled.effects = [])
    (hrunning : ∀ next, handled.outcome = .ok next →
      Running config contract handled.state ∧ handled.state.decided = state.decided)
    (hdone : handled.outcome ≠ .ok .done) : handled.Sound config contract state where
  lockstep := by
    rw [Lockstep, hquiet, hnone]
    rfl
  running next hnext := by
    rw [hnone, List.map_nil, List.append_nil]
    exact hrunning next hnext
  single := by
    rw [hnone]
    exact Nat.zero_le _
  continues _ hsome := absurd hnone hsome
  done hend := absurd hend hdone

theorem answer_sound {after : LoopState K B H} (reply : Reply)
    (hrunning : Running config contract after)
    (hdecided : after.decided = state.decided) :
    (answer after reply).Sound config contract state :=
  Handled.sound_of_quiet rfl rfl (fun _ _ => ⟨hrunning, hdecided⟩) (by simp [answer])

/-- The bridge has got a block that the application has recorded the time of. -/
theorem Running.store (hrunning : Running config contract state) {bridge : B}
    {stored : ExecutedBlock} (hvalid : contract.Valid bridge)
    (hhead : contract.head bridge = contract.head state.bridge)
    (hblocks : contract.blocks bridge = contract.blocks state.bridge ++ [stored])
    (blockTime : U64) (streams : SortedMap K InProgressStream) (nextStreamId : U64) :
    Running config contract { state with
      bridge := bridge, streams := streams, nextStreamId := nextStreamId
      blockTimes := state.blockTimes.insert stored.hash blockTime } where
  valid := hvalid
  times := by
    rw [hblocks]
    refine SortedMap.All.insert ?_ ⟨stored, by simp, rfl⟩
    intro hash time htime
    obtain ⟨block, hmem, hhash⟩ := hrunning.times hash time htime
    exact ⟨block, List.mem_append_left _ hmem, hhash⟩
  parent := hrunning.parent
  head hash hlast := hhead.trans (hrunning.head hash hlast)

theorem handlePart_sound (hrunning : Running config contract state) (key : K)
    (content : StreamContent) :
    (handlePart config state key content).Sound config contract state := by
  rw [handlePart]
  dsimp only
  split
  · split
    · exact Handled.sound_of_quiet rfl rfl (fun next hnext => by cases hnext) (by simp)
    · next part _ block bridge hregister =>
      obtain ⟨hvalid, hhead, stored, hblocks, hhash⟩ :=
        contract.register hrunning.valid hregister
      rw [← hhash]
      exact answer_sound _ (hrunning.store hvalid hhead hblocks _ _ state.nextStreamId) rfl
  · exact answer_sound _ ⟨hrunning.valid, hrunning.times, hrunning.parent, hrunning.head⟩
      rfl

/-- Streaming a proposal changes nothing but the counter, and publishes. -/
theorem streamProposal_cases (config : EngineConfig B H PublicKey)
    (state : LoopState K B H) (id : PayloadId)
    (height : OpenHlHeight) (round : Round) :
    ∃ next result, streamProposal config state id height round =
        ({ state with nextStreamId := next }, result) ∧
      ∀ published, result = .ok published → ∀ effect ∈ published,
        ∃ message, effect = .publish message := by
  rw [streamProposal]
  split
  · exact ⟨state.nextStreamId, _, rfl, fun published hresult => by cases hresult⟩
  · split
    · exact ⟨state.nextStreamId, _, rfl, fun published hresult => by cases hresult⟩
    · split
      · exact ⟨state.nextStreamId, _, rfl, fun published hresult => by cases hresult⟩
      · next streamId next hmake =>
        refine ⟨next, _, rfl, ?_⟩
        rintro published hresult effect heffect
        rw [← Except.ok.inj hresult] at heffect
        simp only [List.mem_cons, List.not_mem_nil, or_false] at heffect
        rcases heffect with rfl | rfl
        · exact ⟨_, rfl⟩
        · exact ⟨_, rfl⟩

theorem handleGetValue_sound (hrunning : Running config contract state)
    (height : OpenHlHeight) (round : Round) :
    (handleGetValue config state height round).Sound config contract state := by
  rw [handleGetValue]
  split
  · exact Handled.sound_of_quiet rfl rfl (fun next hnext => by cases hnext) (by simp)
  · exact Handled.sound_of_quiet rfl rfl (fun next hnext => by cases hnext) (by simp)
  · next id bridge hbuild =>
    split
    · exact Handled.sound_of_quiet rfl rfl (fun next hnext => by cases hnext) (by simp)
    · next block hready =>
      obtain ⟨hvalid, hhead, rfl, stored, hblocks, -, -⟩ :=
        contract.build hrunning.valid hbuild
      -- the block that is ready is the one that was built
      rw [contract.ready hvalid, hblocks, List.getElem?_concat_length,
        Option.some.injEq] at hready
      subst hready
      obtain ⟨counter, result, hstream, hpublished⟩ := streamProposal_cases config
        { state with
          bridge := bridge
          blockTimes := state.blockTimes.insert stored.hash stored.timestamp }
        (contract.blocks state.bridge).length height round
      dsimp only at hstream ⊢
      rw [hstream]
      cases result with
      | error failure =>
          exact Handled.sound_of_quiet rfl rfl (fun next hnext => by cases hnext) (by simp)
      | ok published =>
          refine Handled.sound_of_quiet ?_ ?_ ?_ (by simp)
          · refine List.filter_eq_nil_iff.2 fun effect heffect => ?_
            rcases List.mem_cons.1 heffect with rfl | heffect
            · simp [Effect.decides]
            · obtain ⟨message, rfl⟩ := hpublished published rfl effect heffect
              simp [Effect.decides]
          · refine List.filterMap_eq_nil_iff.2 fun effect heffect => ?_
            rcases List.mem_cons.1 heffect with rfl | heffect
            · rfl
            · obtain ⟨message, rfl⟩ := hpublished published rfl effect heffect
              rfl
          · exact fun _ _ => ⟨hrunning.store hvalid hhead hblocks _ state.streams counter,
              rfl⟩

/-- With a recorded time the commit succeeds, and only the coordinator can fail. -/
theorem handleDecided_of_recorded (hrunning : Running config contract state)
    {hash : BlockHash} {blockTime : U64}
    (htime : state.blockTimes.get? hash = some blockTime) :
    ∃ bridge, config.bridge.commit state.bridge hash = .ok bridge ∧
      contract.Valid bridge ∧ contract.blocks bridge = contract.blocks state.bridge ∧
      contract.head bridge = some hash := by
  obtain ⟨block, hmem, rfl⟩ := hrunning.times hash blockTime htime
  obtain ⟨bridge, hcommit⟩ := contract.commits hrunning.valid hmem
  obtain ⟨hvalid, hblocks, hhead, -⟩ := contract.commit_eq_ok hrunning.valid hcommit
  exact ⟨bridge, hcommit, hvalid, hblocks, hhead⟩

theorem handleDecided_sound (hrunning : Running config contract state) (hash : BlockHash)
    (height : OpenHlHeight) :
    (handleDecided config state hash height).Sound config contract state := by
  rw [handleDecided]
  split
  · exact Handled.sound_of_quiet rfl rfl (fun next hnext => by cases hnext) (by simp)
  · next blockTime htime =>
    obtain ⟨bridge, hcommit, hvalid, hblocks, hhead⟩ :=
      handleDecided_of_recorded hrunning htime
    have hafter : ∀ (hook : H) (current : OpenHlHeight),
        Running config contract { state with
          bridge := bridge, hook := hook, decided := state.decided ++ [hash]
          currentParent := hash, currentHeight := current
          blockTimes := state.blockTimes.erase hash } := by
      intro hook current
      refine ⟨hvalid, ?_, ?_, ?_⟩
      · rw [hblocks]
        exact hrunning.times.erase hash
      · rw [List.getLast?_concat]
        rfl
      · intro last hlast
        rw [List.getLast?_concat, Option.mem_some_iff] at hlast
        rw [← hlast]
        exact hhead
    rw [hcommit]
    dsimp only
    split
    · exact ⟨rfl, fun next hnext => (by cases hnext), le_refl _,
        fun hnext => (by cases hnext), fun hnext => (by cases hnext)⟩
    · split_ifs with hstop
      · exact ⟨rfl, fun next _ => ⟨hafter _ _, rfl⟩, le_refl _,
          fun hnext => (by cases hnext), fun _ => ⟨List.cons_ne_nil _ _, hstop⟩⟩
      · exact ⟨rfl, fun next _ => ⟨hafter _ _, rfl⟩, le_refl _,
          fun _ _ => not_le.1 hstop, fun hnext => (by cases hnext)⟩

theorem handle_sound (hrunning : Running config contract state) (msg : EngineMsg K) :
    (handle config state msg).Sound config contract state := by
  cases msg with
  | consensusReady => exact answer_sound _ hrunning rfl
  | startedRound height =>
      exact answer_sound _ ⟨hrunning.valid, hrunning.times, hrunning.parent, hrunning.head⟩
        rfl
  | getValue height round => exact handleGetValue_sound hrunning height round
  | extendVote => exact answer_sound _ hrunning rfl
  | verifyVoteExtension => exact answer_sound _ hrunning rfl
  | restreamProposal =>
      exact Handled.sound_of_quiet rfl rfl (fun _ _ => ⟨hrunning, rfl⟩) (by simp [handle])
  | getHistoryMinHeight => exact answer_sound _ hrunning rfl
  | receivedProposalPart key content => exact handlePart_sound hrunning key content
  | getValidatorSet => exact answer_sound _ hrunning rfl
  | decided hash height => exact handleDecided_sound hrunning hash height
  | getDecidedValue => exact answer_sound _ hrunning rfl
  | processSyncedValue => exact answer_sound _ hrunning rfl

/-! ## Whole runs -/

/-- What a run has done, from a point at which some blocks were decided. -/
structure Finished.Sound (config : EngineConfig B H PublicKey)
    (contract : config.bridge.Contract) (before : LoopState K B H)
    (finished : Finished K B H) : Prop where
  lockstep : Lockstep finished.effects
  bound : before.decided.length + (handedOn finished.effects).length ≤
    max 1 config.stopAfterDecisions
  result : ∀ decided, finished.result = .ok decided →
    decided = before.decided ++ (handedOn finished.effects).map HandedOn.hash ∧
      decided.length = max 1 config.stopAfterDecisions ∧
      ∃ last ∈ decided.getLast?, contract.head finished.state.bridge = some last

theorem runEngineApp_sound (msgs : List (EngineMsg K))
    (hrunning : Running config contract state)
    (hopen : state.decided.length < max 1 config.stopAfterDecisions) :
    (runEngineApp config state msgs).Sound config contract state := by
  induction msgs generalizing state with
  | nil => exact ⟨rfl, hopen.le, fun decided hresult => by cases hresult⟩
  | cons msg rest ih =>
      have hmsg := handle_sound hrunning msg
      have hlength := hmsg.single
      rw [runEngineApp]
      dsimp only
      split
      · exact ⟨hmsg.lockstep, by dsimp only; omega, fun decided hresult => by cases hresult⟩
      · next hend =>
        obtain ⟨hafter, hdecided⟩ := hmsg.running _ hend
        obtain ⟨hsome, hstop⟩ := hmsg.done hend
        have hone := List.length_pos_iff.2 hsome
        refine ⟨hmsg.lockstep, by dsimp only; omega, fun decided hresult => ?_⟩
        obtain rfl := Except.ok.inj hresult
        have hcount := congrArg List.length hdecided
        rw [List.length_append, List.length_map] at hcount
        have hnonempty : (handle config state msg).state.decided ≠ [] := by
          rw [← List.length_pos_iff]
          omega
        have hlast := List.getLast?_eq_some_getLast hnonempty
        exact ⟨hdecided, by omega, _, hlast, hafter.head _ hlast⟩
      · next hgoes =>
        obtain ⟨hafter, hdecided⟩ := hmsg.running _ hgoes
        have hcount := congrArg List.length hdecided
        rw [List.length_append, List.length_map] at hcount
        have hstill : (handle config state msg).state.decided.length <
            max 1 config.stopAfterDecisions := by
          by_cases hsome : handedOn (handle config state msg).effects = []
          · rw [hcount, hsome]
            exact hopen
          · exact lt_max_of_lt_right (hmsg.continues hgoes hsome)
        have hlater := ih hafter hstill
        refine ⟨hmsg.lockstep.append hlater.lockstep, ?_, ?_⟩
        · have hbound := hlater.bound
          dsimp only
          rw [handedOn_append, List.length_append]
          omega
        · intro decided hresult
          obtain ⟨hequal, hends⟩ := hlater.result decided hresult
          refine ⟨?_, hends⟩
          rw [hequal, hdecided, handedOn_append, List.map_append, List.append_assoc]

theorem running_initial {bridge : B} (hvalid : contract.Valid bridge) (hook : H) :
    Running config contract (config.initial bridge hook : LoopState K B H) where
  valid := hvalid
  times := SortedMap.All.empty
  parent := rfl
  head hash hlast := by cases hlast

end Loop

/-- Over any bridge that keeps the contract, in any run: each commit is followed by the
call of the coordinator for that block and nothing else is handed on; no more blocks are
handed on than were asked for, or one if none were; and if the loop returns blocks, they
are the ones it has handed on, exactly that many, the last one being the head. -/
theorem runEngineApp_decisions {K B H PublicKey : Type} [LinearOrder K]
    (config : EngineConfig B H PublicKey) (contract : config.bridge.Contract) (bridge : B)
    (hvalid : contract.Valid bridge) (hook : H) (msgs : List (EngineMsg K)) :
    let finished := runEngineApp config (config.initial bridge hook) msgs
    Lockstep finished.effects ∧
      (handedOn finished.effects).length ≤ max 1 config.stopAfterDecisions ∧
      ∀ decided, finished.result = .ok decided →
        decided = (handedOn finished.effects).map HandedOn.hash ∧
          decided.length = max 1 config.stopAfterDecisions ∧
          ∃ last ∈ decided.getLast?, contract.head finished.state.bridge = some last := by
  intro finished
  have hsound : finished.Sound config contract (config.initial bridge hook) :=
    runEngineApp_sound msgs (running_initial hvalid hook) (lt_max_of_lt_left one_pos)
  have hbound := hsound.bound
  refine ⟨hsound.lockstep, ?_, hsound.result⟩
  change 0 + _ ≤ _ at hbound
  omega

/-- The live bridge on genesis, and a coordinator that counts blocks. -/
def childConfig : EngineConfig (LiveRethEvmBridge Unit) ℕ U8 :=
  { bridge := LiveRethEvmBridge.bridge childNode
    validatorSet := { validators := [{ address := 10, publicKey := 0, votingPower := 1 }]
                      sorted := List.pairwise_singleton _ _ }
    checks := .on, initialParent := defaultHash, initialHeight := 1
    stopAfterDecisions := 0, onCommitted := fun count _ _ _ => (count + 1, .ok ()) }

/-- With no blocks asked for, the first decision still ends the loop. -/
theorem runEngineApp_decisions_child :
    (runEngineApp childConfig (childConfig.initial .new 0 : LoopState ℕ _ ℕ)
        [.getValue 1 (some 0), .decided childHash 1, .decided childHash 2]).result =
          .ok [childHash] ∧
      Lockstep (runEngineApp childConfig (childConfig.initial .new 0 : LoopState ℕ _ ℕ)
        [.getValue 1 (some 0), .decided childHash 1, .decided childHash 2]).effects :=
  ⟨rfl, (runEngineApp_decisions childConfig
    (LiveRethEvmBridge.contract childNode (genesisNode_lawful rfl)) .new
    Numbered.Dense.empty 0 _).1⟩

/-! ## When a decision fails -/

/-- The values that consensus knows from the application and has not decided since. -/
def Effect.mark (known : List BlockHash) : Effect → List BlockHash
  | .answer (.value value) => value.value :: known
  | .answer (.proposed (some value)) => value.value :: known
  | .commit hash => known.filter fun other => other ≠ hash
  | _ => known

def announcedValues (effects : List Effect) : List BlockHash :=
  effects.foldl Effect.mark []

section Decisions

variable {K B H PublicKey : Type} [LinearOrder K]

/-- The loop comes to a state, with these effects on the way. -/
inductive Survives (config : EngineConfig B H PublicKey) (start : LoopState K B H) :
    List Effect → LoopState K B H → Prop
  | start : Survives config start [] start
  | message {effects : List Effect} {state : LoopState K B H} {msg : EngineMsg K}
      (hbefore : Survives config start effects state)
      (hgoes : (handle config state msg).outcome = .ok .continue) :
      Survives config start (effects ++ (handle config state msg).effects)
        (handle config state msg).state

variable {config : EngineConfig B H PublicKey} {contract : config.bridge.Contract}
  {start state : LoopState K B H}

theorem announcedValues_append (first second : List Effect) :
    announcedValues (first ++ second) = second.foldl Effect.mark (announcedValues first) :=
  List.foldl_append

/-- The recorded times are those of the announced values. -/
def Recorded (state : LoopState K B H) (known : List BlockHash) : Prop :=
  ∀ hash, (state.blockTimes.get? hash).isSome = true ↔ hash ∈ known

theorem Recorded.insert {known : List BlockHash} (hrecorded : Recorded state known)
    (hash : BlockHash) (blockTime : U64) {after : LoopState K B H}
    (hafter : after.blockTimes = state.blockTimes.insert hash blockTime) :
    Recorded after (hash :: known) := by
  intro other
  rw [hafter, SortedMap.get?_insert, List.mem_cons, ← hrecorded other]
  split_ifs with hother
  · simp [hother]
  · simp [hother]

theorem Recorded.erase {known : List BlockHash} (hrecorded : Recorded state known)
    (hash : BlockHash) {after : LoopState K B H}
    (hafter : after.blockTimes = state.blockTimes.erase hash) :
    Recorded after (known.filter fun other => other ≠ hash) := by
  intro other
  rw [hafter, SortedMap.get?_erase, List.mem_filter, ← hrecorded other]
  split_ifs with hother
  · simp [hother]
  · simp [hother]

theorem foldl_mark_publish {published : List Effect}
    (hpublished : ∀ effect ∈ published, ∃ message, effect = .publish message)
    (known : List BlockHash) : published.foldl Effect.mark known = known := by
  induction published with
  | nil => rfl
  | cons effect rest ih =>
      obtain ⟨message, rfl⟩ := hpublished _ List.mem_cons_self
      exact ih fun other hother => hpublished other (List.mem_cons_of_mem _ hother)

/-- A message that the loop survives records what it announces. -/
theorem handle_recorded {known : List BlockHash} (hrecorded : Recorded state known)
    {msg : EngineMsg K} (hgoes : (handle config state msg).outcome = .ok .continue) :
    Recorded (handle config state msg).state
      ((handle config state msg).effects.foldl Effect.mark known) := by
  cases msg with
  | consensusReady => exact hrecorded
  | startedRound height => exact hrecorded
  | getValue height round =>
      rw [handle, handleGetValue] at hgoes ⊢
      split at hgoes
      · cases hgoes
      · cases hgoes
      · next id bridge hbuild =>
        split at hgoes
        · cases hgoes
        · next block hready =>
          obtain ⟨counter, result, hstream, hpublished⟩ := streamProposal_cases config
            { state with
              bridge := bridge
              blockTimes := state.blockTimes.insert block.hash block.timestamp }
            id height round
          dsimp only at hstream hgoes ⊢
          rw [hstream] at hgoes ⊢
          cases result with
          | error failure => cases hgoes
          | ok published =>
              rw [List.foldl_cons, foldl_mark_publish (hpublished published rfl)]
              exact hrecorded.insert _ _ rfl
  | extendVote => exact hrecorded
  | verifyVoteExtension => exact hrecorded
  | restreamProposal => exact hrecorded
  | getHistoryMinHeight => exact hrecorded
  | receivedProposalPart key content =>
      rw [handle, handlePart] at hgoes ⊢
      dsimp only at hgoes ⊢
      split at hgoes
      · split at hgoes
        · cases hgoes
        · exact hrecorded.insert _ _ rfl
      · exact hrecorded
  | getValidatorSet => exact hrecorded
  | decided hash height =>
      rw [handle, handleDecided] at hgoes ⊢
      split at hgoes
      · cases hgoes
      · dsimp only at hgoes ⊢
        split at hgoes
        · cases hgoes
        · split at hgoes
          · cases hgoes
          · split_ifs at hgoes ⊢
            · cases hgoes
            · exact hrecorded.erase hash rfl
  | getDecidedValue => exact hrecorded
  | processSyncedValue => exact hrecorded

theorem Survives.recorded {effects : List Effect} (hrun : Survives config start effects state)
    (hstart : Recorded start []) : Recorded state (announcedValues effects) := by
  induction hrun with
  | start => exact hstart
  | message hbefore hgoes ih =>
      rw [announcedValues_append]
      exact handle_recorded ih hgoes

theorem Survives.running {effects : List Effect} (hrun : Survives config start effects state)
    (hstart : Running config contract start) : Running config contract state := by
  induction hrun with
  | start => exact hstart
  | message hbefore hgoes ih => exact ((handle_sound ih _).running _ hgoes).1

end Decisions

/-- Over any bridge that keeps the contract, at any point of any run, a decision ends the
loop with an error exactly if the application has not announced its value since the value
was last decided, or if the coordinator fails. -/
theorem decided_outcome {K B H PublicKey : Type} [LinearOrder K]
    (config : EngineConfig B H PublicKey) (contract : config.bridge.Contract) (bridge : B)
    (hvalid : contract.Valid bridge) (hook : H) (effects : List Effect)
    (state : LoopState K B H)
    (hrun : Survives config (config.initial bridge hook) effects state)
    (hash : BlockHash) (height : OpenHlHeight) (failure : AppFailure) :
    (handle config state (.decided hash height)).outcome = .error failure ↔
      (hash ∉ announcedValues effects ∧ failure = .noTimestamp hash) ∨
        hash ∈ announcedValues effects ∧ ∃ blockTime message,
          state.blockTimes.get? hash = some blockTime ∧
            (config.onCommitted state.hook hash height blockTime).2 = .error message ∧
              failure = .hook message := by
  have hrunning := hrun.running (running_initial hvalid hook)
  have hrecorded := hrun.recorded (fun other => by simp [EngineConfig.initial]) hash
  rw [handle, handleDecided, ← hrecorded]
  cases htime : state.blockTimes.get? hash with
  | none => simp [eq_comm]
  | some blockTime =>
      obtain ⟨after, hcommit, -⟩ := handleDecided_of_recorded hrunning htime
      rw [hcommit]
      cases hhook : config.onCommitted state.hook hash height blockTime with
      | mk next result =>
          cases result with
          | error message => simp [eq_comm, hhook]
          | ok done =>
              dsimp only
              split_ifs
              · simp [hhook]
              · simp [hhook]

/-- The configuration with a coordinator that fails on the first block. -/
def haltingConfig : EngineConfig (LiveRethEvmBridge Unit) ℕ U8 :=
  { childConfig with
    onCommitted := fun count _ height _ =>
      (count + 1, if height = 1 then .error "halted" else .ok ()) }

/-- The first message, which announces the block on genesis. -/
def childAnnouncement : Handled ℕ (LiveRethEvmBridge Unit) ℕ :=
  handle haltingConfig (haltingConfig.initial .new 0) (.getValue 1 (some 0))

theorem childAnnouncement_survives :
    Survives haltingConfig (haltingConfig.initial .new 0 : LoopState ℕ _ ℕ)
      ([] ++ childAnnouncement.effects) childAnnouncement.state :=
  .message .start rfl

theorem childAnnouncement_announces :
    announcedValues ([] ++ childAnnouncement.effects) = [childHash] := rfl

/-- Of the announced block the coordinator fails, and a block that has not been announced
is refused. -/
theorem decided_outcome_child :
    (handle haltingConfig childAnnouncement.state (.decided childHash 1)).outcome =
        .error (.hook "halted") ∧
      (handle haltingConfig childAnnouncement.state (.decided defaultHash 1)).outcome =
        .error (.noTimestamp defaultHash) := by
  have houtcome := decided_outcome haltingConfig (LiveRethEvmBridge.contract childNode
    (genesisNode_lawful rfl)) .new Numbered.Dense.empty 0 _ _ childAnnouncement_survives
  rw [childAnnouncement_announces] at houtcome
  constructor
  · exact (houtcome childHash 1 _).2
      (.inr ⟨List.mem_singleton_self _, 1, "halted", rfl, rfl, rfl⟩)
  · exact (houtcome defaultHash 1 _).2 (.inl ⟨by decide, rfl⟩)

end OpenHl.Consensus
