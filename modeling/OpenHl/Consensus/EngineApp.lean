import OpenHl.Evm.Proposal

/-!
# The engine application

`run_engine_app` answers the messages of the consensus engine: it builds and
streams its own proposals, assembles and registers those of peers, and commits
what was decided, handing the coordinator the recorded block time.

`registerProposedBlock_bound`: a registered wire is the view of its header
exactly when it repeats the header, and in every run on such wires each
committed block has the time and the payload that its hash commits to.
`receivedProposalPart_continues_iff`: the parts of a peer that end the loop.
-/

namespace OpenHl.Consensus

open Machine OpenHl.Evm

abbrev OpenHlHeight := U64
abbrev Round := Option U32

structure OpenHlProposalPart where
  height : OpenHlHeight
  round : Round
  polRound : Round
  proposer : Address
  blockBytes : List U8
  deriving DecidableEq

inductive StreamContent where
  | data (part : OpenHlProposalPart)
  | fin
  deriving DecidableEq

structure InProgressStream where
  data : Option OpenHlProposalPart
  finSeen : Bool
  deriving DecidableEq

def InProgressStream.default : InProgressStream := { data := none, finSeen := false }

def InProgressStream.receive (stream : InProgressStream) :
    StreamContent → InProgressStream
  | .data part => { stream with data := some part }
  | .fin => { stream with finSeen := true }

/-- The answer to a complete stream; the value is always reported as valid. -/
structure ProposedValue where
  height : OpenHlHeight
  round : Round
  validRound : Round
  proposer : Address
  value : BlockHash
  deriving DecidableEq

section App

/- `K` is the pair of peer and stream id, `E` the execution payload. -/
variable {K E : Type} [LinearOrder K]

structure AppState (K E : Type) [LinearOrder K] where
  bridge : ChainState E
  streams : SortedMap K InProgressStream
  blockTimes : SortedMap BlockHash U64
  decided : List BlockHash
  currentParent : BlockHash
  currentHeight : OpenHlHeight

def AppState.initial (bridge : ChainState E) (initialParent : BlockHash)
    (initialHeight : OpenHlHeight) : AppState K E :=
  { bridge := bridge, streams := SortedMap.empty, blockTimes := SortedMap.empty
    decided := [], currentParent := initialParent, currentHeight := initialHeight }

inductive AppMsg (K E : Type) where
  | startedRound (height : OpenHlHeight)
  /-- With the payload that the bridge built for it. -/
  | getValue (built : PendingPayload E)
  | receivedProposalPart (key : K) (content : StreamContent)
  | decided (hash : BlockHash) (height : OpenHlHeight)

/-- A decided block as the bridge and the coordinator see it. -/
structure Committed (E : Type) where
  hash : BlockHash
  height : OpenHlHeight
  blockTime : U64
  payload : PendingPayload E

variable (layer : ExecutionLayer E)

/-- The `GetValue` arm: record the time of the payload that was built. -/
def getValue (state : AppState K E) (built : PendingPayload E) : AppState K E :=
  { state with
    bridge := state.bridge.insertPending built
    blockTimes := state.blockTimes.insert built.hash built.header.timestamp }

/-- The `ReceivedProposalPart` arm: once a stream has both its messages, its
block is registered and its time recorded. -/
def receivedProposalPart (state : AppState K E) (key : K) (content : StreamContent) :
    Except BridgeError (AppState K E × Option ProposedValue) :=
  let stream := ((state.streams.get? key).getD .default).receive content
  match stream.data, stream.finSeen with
  | some part, true =>
      match registerProposedBlock layer state.bridge part.blockBytes with
      | .error failure => .error failure
      | .ok (block, bridge) =>
          .ok ({ state with
                  bridge := bridge
                  streams := state.streams.erase key
                  blockTimes := state.blockTimes.insert block.hash block.timestamp },
            some { height := part.height, round := part.round
                   validRound := part.polRound, proposer := part.proposer
                   value := block.hash })
  | _, _ =>
      .ok ({ state with streams := state.streams.insert key stream }, none)

/-- The `Decided` arm, for a pending payload of the decided hash. -/
def decided (state : AppState K E) (height : OpenHlHeight)
    (payload : PendingPayload E) : AppState K E :=
  { state with
    bridge := state.bridge.commit payload
    blockTimes := state.blockTimes.erase payload.hash
    decided := state.decided ++ [payload.hash]
    currentParent := payload.hash
    currentHeight := height.saturatingAdd 1 }

/-- One message of the loop, with the block it commits.  Among several pending
payloads of one hash, `commit` takes the first in the order of a hash map. -/
inductive AppStep : AppState K E → AppMsg K E → AppState K E →
    Option (Committed E) → Prop
  | startedRound (state : AppState K E) (height : OpenHlHeight) :
      AppStep state (.startedRound height) { state with currentHeight := height } none
  | getValue (state : AppState K E) (built : PendingPayload E) :
      AppStep state (.getValue built) (getValue state built) none
  | part {state after : AppState K E} {key : K} {content : StreamContent}
      {reply : Option ProposedValue}
      (hpart : receivedProposalPart layer state key content = .ok (after, reply)) :
      AppStep state (.receivedProposalPart key content) after none
  | decided {state : AppState K E} {height : OpenHlHeight} {blockTime : U64}
      {id : ℕ} {payload : PendingPayload E}
      (htime : state.blockTimes.get? payload.hash = some blockTime)
      (hpending : state.bridge.pending.get? id = some payload) :
      AppStep state (.decided payload.hash height) (decided state height payload)
        (some { hash := payload.hash, height := height, blockTime := blockTime
                payload := payload })

/-! ## What a part does -/

/-- The part whose stream the message completes, if it completes one. -/
def completedPart (state : AppState K E) (key : K) (content : StreamContent) :
    Option OpenHlProposalPart :=
  let stream := ((state.streams.get? key).getD .default).receive content
  if stream.finSeen then stream.data else none

variable {layer}

theorem receivedProposalPart_of_completedPart {state : AppState K E} {key : K}
    {content : StreamContent} {part : OpenHlProposalPart}
    (hcompleted : completedPart state key content = some part) :
    receivedProposalPart layer state key content =
      match registerProposedBlock layer state.bridge part.blockBytes with
      | .error failure => .error failure
      | .ok (block, bridge) =>
          .ok ({ state with
                  bridge := bridge
                  streams := state.streams.erase key
                  blockTimes := state.blockTimes.insert block.hash block.timestamp },
            some { height := part.height, round := part.round
                   validRound := part.polRound, proposer := part.proposer
                   value := block.hash }) := by
  rw [completedPart] at hcompleted
  split_ifs at hcompleted with hfin
  rw [receivedProposalPart, hcompleted, hfin]

theorem receivedProposalPart_of_not_completed {state : AppState K E} {key : K}
    {content : StreamContent} (hnone : completedPart state key content = none) :
    receivedProposalPart layer state key content =
      .ok ({ state with
              streams := state.streams.insert key
                (((state.streams.get? key).getD .default).receive content) }, none) := by
  rw [completedPart] at hnone
  rw [receivedProposalPart]
  split_ifs at hnone with hfin
  · rw [hnone]
  · split
    · next part hdata hseen => exact absurd hseen hfin
    · rfl

theorem completedPart_eq_some {state : AppState K E} {key : K}
    {content : StreamContent} {part : OpenHlProposalPart}
    (hcompleted : completedPart state key content = some part) :
    (((state.streams.get? key).getD .default).receive content).data = some part := by
  rw [completedPart] at hcompleted
  split_ifs at hcompleted
  exact hcompleted

/-- A part is buffered, or it completes a stream whose block is stored. -/
theorem receivedProposalPart_eq_ok {state after : AppState K E} {key : K}
    {content : StreamContent} {reply : Option ProposedValue}
    (hpart : receivedProposalPart layer state key content = .ok (after, reply)) :
    (completedPart state key content = none ∧ reply = none ∧
      after = { state with
        streams := state.streams.insert key
          (((state.streams.get? key).getD .default).receive content) }) ∨
    ∃ part wire, completedPart state key content = some part ∧
      layer.decode part.blockBytes = .ok wire ∧
      layer.hashSlow wire.header = wire.block.hash ∧
      after = { state with
        bridge := state.bridge.insertPending
          { hash := wire.block.hash, header := wire.header, fills := []
            executionData := wire.executionData }
        streams := state.streams.erase key
        blockTimes := state.blockTimes.insert wire.block.hash wire.block.timestamp } ∧
      reply = some
        { height := part.height, round := part.round, validRound := part.polRound
          proposer := part.proposer, value := wire.block.hash } := by
  cases hcompleted : completedPart state key content with
  | none =>
      rw [receivedProposalPart_of_not_completed hcompleted, Except.ok.injEq,
        Prod.mk.injEq] at hpart
      exact .inl ⟨rfl, hpart.2.symm, hpart.1.symm⟩
  | some part =>
      rw [receivedProposalPart_of_completedPart hcompleted] at hpart
      cases hregister : registerProposedBlock layer state.bridge part.blockBytes with
      | error failure => simp [hregister] at hpart
      | ok registered =>
          simp only [hregister, Except.ok.injEq, Prod.mk.injEq] at hpart
          obtain ⟨wire, hdecode, hhash, hblock, hbridge⟩ :=
            registerProposedBlock_eq_ok hregister
          rw [hblock, hbridge] at hpart
          exact .inr ⟨part, wire, rfl, hdecode, hhash, hpart.1.symm, hpart.2.symm⟩

variable (layer)

/-! ## What a hash commits to -/

/-- The message brings no payload that contradicts its header: a peer's wire
repeats its header, and a payload built here is stored under its header's
hash. -/
def AppMsg.RepeatsHeader : AppMsg K E → Prop
  | .startedRound _ => True
  | .getValue built => built.Sound layer
  | .receivedProposalPart _ (.data part) =>
      ∀ wire, layer.decode part.blockBytes = .ok wire → wire.RepeatsHeader layer
  | .receivedProposalPart _ .fin => True
  | .decided _ _ => True

/-- A message that repeats its header, answered by the loop. -/
def RepeatingStep (before after : AppState K E) : Prop :=
  ∃ (msg : AppMsg K E) (committed : Option (Committed E)),
    msg.RepeatsHeader layer ∧ AppStep layer before msg after committed

/-- The block is committed with the time and the payload of its hash. -/
structure Committed.Bound (committed : Committed E) : Prop where
  time : ∃ header, layer.hashSlow header = committed.hash ∧
    committed.blockTime = header.timestamp
  header : layer.hashSlow committed.payload.header = committed.hash
  data : ∀ data, committed.payload.executionData = some data →
    layer.payloadHash data = committed.hash

/-- Everything the application has stored is bound to its hash. -/
structure AppState.Sound (state : AppState K E) : Prop where
  pending : state.bridge.pending.All fun _ payload => payload.Sound layer
  times : state.blockTimes.All fun hash time =>
    ∃ header, layer.hashSlow header = hash ∧ time = header.timestamp
  streams : state.streams.All fun _ stream => ∀ part, stream.data = some part →
    ∀ wire, layer.decode part.blockBytes = .ok wire → wire.RepeatsHeader layer

variable {layer}

theorem AppState.Sound.stream {state : AppState K E} (hsound : state.Sound layer)
    {key : K} {content : StreamContent}
    (hrepeats : (AppMsg.receivedProposalPart key content : AppMsg K E).RepeatsHeader
      layer) {part : OpenHlProposalPart}
    (hpart : (((state.streams.get? key).getD .default).receive content).data =
      some part) {wire : ProposedBlockWire E}
    (hdecode : layer.decode part.blockBytes = .ok wire) : wire.RepeatsHeader layer := by
  cases content with
  | data received =>
      rw [InProgressStream.receive, Option.some.injEq] at hpart
      subst hpart
      exact hrepeats wire hdecode
  | fin =>
      rw [InProgressStream.receive] at hpart
      cases hstream : state.streams.get? key with
      | none => simp [hstream, InProgressStream.default] at hpart
      | some stream =>
          rw [hstream] at hpart
          exact hsound.streams key stream hstream part hpart wire hdecode

theorem receivedProposalPart_sound {state after : AppState K E} {key : K}
    {content : StreamContent} {reply : Option ProposedValue}
    (hsound : state.Sound layer)
    (hrepeats : (AppMsg.receivedProposalPart key content : AppMsg K E).RepeatsHeader
      layer)
    (hpart : receivedProposalPart layer state key content = .ok (after, reply)) :
    after.Sound layer := by
  obtain ⟨-, -, rfl⟩ | ⟨part, wire, hcompleted, hdecode, hhash, rfl, -⟩ :=
    receivedProposalPart_eq_ok hpart
  · exact ⟨hsound.pending, hsound.times, hsound.streams.insert
      fun part hdata wire hdecode => hsound.stream hrepeats hdata hdecode⟩
  · have hwire := hsound.stream hrepeats (completedPart_eq_some hcompleted) hdecode
    exact ⟨hsound.pending.insert (hwire.sound hhash []),
      hsound.times.insert ⟨wire.header, hhash, hwire.timestamp⟩,
      hsound.streams.erase key⟩

theorem RepeatingStep.sound {before after : AppState K E}
    (hstep : RepeatingStep layer before after) (hsound : before.Sound layer) :
    after.Sound layer := by
  obtain ⟨msg, committed, hrepeats, hstep⟩ := hstep
  cases hstep with
  | startedRound height => exact ⟨hsound.pending, hsound.times, hsound.streams⟩
  | getValue built =>
      exact ⟨hsound.pending.insert hrepeats,
        hsound.times.insert ⟨built.header, hrepeats.header, rfl⟩, hsound.streams⟩
  | part hpart => exact receivedProposalPart_sound hsound hrepeats hpart
  | decided htime hpending =>
      exact ⟨hsound.pending, hsound.times.erase _, hsound.streams⟩

theorem AppState.Sound.committed {state after : AppState K E} {msg : AppMsg K E}
    {committed : Committed E} (hsound : state.Sound layer)
    (hstep : AppStep layer state msg after (some committed)) :
    committed.Bound layer := by
  cases hstep with
  | decided htime hpending =>
      have hpayload := hsound.pending _ _ hpending
      exact ⟨hsound.times _ _ htime, hpayload.header, hpayload.data⟩

theorem initial_sound {bridge : ChainState E} (parent : BlockHash)
    (height : OpenHlHeight) (hempty : bridge.pending = SortedMap.empty) :
    (AppState.initial bridge parent height : AppState K E).Sound layer := by
  refine ⟨?_, SortedMap.All.empty, SortedMap.All.empty⟩
  rw [AppState.initial, hempty]
  exact SortedMap.All.empty

theorem sound_of_reaches {start finish : AppState K E}
    (hreaches : Relation.ReflTransGen (RepeatingStep layer) start finish)
    (hstart : start.Sound layer) : finish.Sound layer := by
  induction hreaches with
  | refl => exact hstart
  | tail _ hstep ih => exact hstep.sound ih

end App

/-- A registered wire is the view of its header, with a payload of that block,
exactly when it repeats the header.  In every run of the application on such
wires, each committed block has the time and the payload of its hash. -/
theorem registerProposedBlock_bound {E : Type} (layer : ExecutionLayer E) :
    (∀ (state after : ChainState E) (bytes : List U8) (block : ExecutedBlock)
      (wire : ProposedBlockWire E), layer.decode bytes = .ok wire →
      registerProposedBlock layer state bytes = .ok (block, after) →
      (RegisteredView layer state after block wire ↔ wire.RepeatsHeader layer)) ∧
    ∀ (K : Type) [LinearOrder K] (parent : BlockHash) (height : OpenHlHeight)
      (bridge : ChainState E) (before after : AppState K E) (msg : AppMsg K E)
      (committed : Committed E), bridge.pending = SortedMap.empty →
      Relation.ReflTransGen (RepeatingStep layer)
        (AppState.initial bridge parent height) before →
      AppStep layer before msg after (some committed) → committed.Bound layer := by
  refine ⟨fun state after bytes block wire hdecode haccept =>
    registeredView_iff hdecode haccept, ?_⟩
  intro K _ parent height bridge before after msg committed hempty hreaches hcommit
  exact (sound_of_reaches hreaches (initial_sound parent height hempty)).committed
    hcommit

/-! ## A wire that contradicts its header -/

/-- The default header, at time 0. -/
def defaultHeader : Header :=
  { parentHash := 0, number := 0, timestamp := 0, beneficiary := 0, mixHash := 0
    gasLimit := 0, difficulty := 0, baseFeePerGas := none
    stateRoot := 0x56e81f171bcc55a6ff8345e692c0f86e5b48e01b996cadc001622fb5e363b421
    rest := [] }

/-- Its Keccak hash. -/
def defaultHash : B256 :=
  0x78dec18c6d7da925bbe773c315653cdc70f6444ed6c1de9ac30bdb36cff74c3b

/-- A wire of the default header whose view claims the given time. -/
def wireAt (timestamp : U64) : ProposedBlockWire Unit :=
  { header := defaultHeader
    block := { executedBlock defaultHash defaultHeader with timestamp := timestamp }
    executionData := none }

def zeroes (count : ℕ) : String := String.ofList (List.replicate count '0')

def emptyRoot : String :=
  "0x56e81f171bcc55a6ff8345e692c0f86e5b48e01b996cadc001622fb5e363b421"

/-- The JSON text of such a wire. -/
def wireText (timestamp : String) : String :=
  "\x7b\"header\":\x7b\"parentHash\":\"0x" ++ zeroes 64 ++
  "\",\"sha3Uncles\":\"0x1dcc4de8dec75d7aab85b567b6ccd41ad312451b948a7413f0a142fd40d" ++
  "49347\",\"miner\":\"0x" ++ zeroes 40 ++ "\",\"stateRoot\":\"" ++ emptyRoot ++
  "\",\"transactionsRoot\":\"" ++ emptyRoot ++ "\",\"receiptsRoot\":\"" ++ emptyRoot ++
  "\",\"logsBloom\":\"0x" ++ zeroes 512 ++ "\",\"difficulty\":\"0x0\",\"number\":\"0x0" ++
  "\",\"gasLimit\":\"0x0\",\"gasUsed\":\"0x0\",\"timestamp\":\"0x0\",\"extraData\":\"0x" ++
  "\",\"mixHash\":\"0x" ++ zeroes 64 ++ "\",\"nonce\":\"0x" ++ zeroes 16 ++
  "\"\x7d,\"block\":\x7b\"hash\":[120,222,193,140,109,125,169,37,187,231,115,195,21,101" ++
  ",60,220,112,246,68,78,214,193,222,154,195,11,219,54,207,247,76,59],\"parent_hash\"" ++
  ":[0,0,0,0,0,0,0,0,0,0,0,0,0,0,0,0,0,0,0,0,0,0,0,0,0,0,0,0,0,0,0,0],\"number\":0," ++
  "\"state_root\":[86,232,31,23,27,204,85,166,255,131,69,230,146,192,248,110,91,72," ++
  "224,27,153,108,173,192,1,98,47,181,227,99,180,33],\"timestamp\":" ++ timestamp ++
  "\x7d\x7d"

def bytesOf (text : String) : List U8 :=
  text.toUTF8.toList.map fun byte => ⟨byte.toNat, byte.toNat_lt⟩

/-- Hash and codec as they act on the default header and on one wire. -/
def defaultLayer (text : String) (wire : ProposedBlockWire Unit) :
    ExecutionLayer Unit :=
  { hashSlow := fun _ => defaultHash
    decode := fun bytes =>
      if bytes = bytesOf text then .ok wire else .error "expected value"
    payloadHash := fun _ => defaultHash }

def emptyChain : ChainState Unit :=
  { nextPayloadId := 0, pending := SortedMap.empty, chain := SortedMap.empty
    head := none }

/-- The bridge accepts every wire of the default header under its hash. -/
theorem defaultLayer_accepts (text : String) (timestamp : U64) :
    registerProposedBlock (defaultLayer text (wireAt timestamp)) emptyChain
        (bytesOf text) =
      .ok ((wireAt timestamp).block, emptyChain.insertPending
        { hash := defaultHash, header := defaultHeader, fills := []
          executionData := none }) := by
  rw [registerProposedBlock, defaultLayer]
  simp [wireAt, executedBlock]

theorem wireAt_repeatsHeader (text : String) :
    (wireAt 0).RepeatsHeader (defaultLayer text (wireAt 0)) :=
  ⟨rfl, rfl, rfl, rfl, fun data hdata => by simp [wireAt] at hdata⟩

/-- A peer's part with the wire at time 0. -/
def peerPart : OpenHlProposalPart :=
  { height := 1, round := some 0, polRound := none, proposer := 7
    blockBytes := bytesOf (wireText "0") }

theorem peerPart_repeatsHeader (key : ℕ) :
    (AppMsg.receivedProposalPart key (.data peerPart) : AppMsg ℕ Unit).RepeatsHeader
      (defaultLayer (wireText "0") (wireAt 0)) := by
  intro wire hdecode
  have hwire : (defaultLayer (wireText "0") (wireAt 0)).decode peerPart.blockBytes =
      .ok (wireAt 0) := if_pos rfl
  obtain rfl := Except.ok.inj (hwire.symm.trans hdecode)
  exact wireAt_repeatsHeader _

/-- The state with the part buffered. -/
def bufferedPart : AppState ℕ Unit :=
  { (AppState.initial emptyChain 0 1 : AppState ℕ Unit) with
    streams := SortedMap.empty.insert 0 { data := some peerPart, finSeen := false } }

/-- The state with its block registered. -/
def registeredPart : AppState ℕ Unit :=
  { bufferedPart with
    bridge := emptyChain.insertPending
      { hash := defaultHash, header := defaultHeader, fills := [], executionData := none }
    streams := bufferedPart.streams.erase 0
    blockTimes := SortedMap.empty.insert defaultHash 0 }

theorem registeredPart_reached :
    Relation.ReflTransGen (RepeatingStep (defaultLayer (wireText "0") (wireAt 0)))
      (AppState.initial emptyChain 0 1) registeredPart := by
  have hbuffer : receivedProposalPart (defaultLayer (wireText "0") (wireAt 0))
      (AppState.initial emptyChain 0 1) 0 (.data peerPart) = .ok (bufferedPart, none) := by
    rw [receivedProposalPart_of_not_completed rfl]
    rfl
  have hregister : receivedProposalPart (defaultLayer (wireText "0") (wireAt 0))
      bufferedPart 0 .fin = .ok (registeredPart, some
        { height := 1, round := some 0, validRound := none, proposer := 7
          value := defaultHash }) := by
    have hcompleted : completedPart bufferedPart 0 .fin = some peerPart := by
      simp [completedPart, bufferedPart, SortedMap.get?_insert, InProgressStream.receive]
    rw [receivedProposalPart_of_completedPart hcompleted]
    have haccept : registerProposedBlock (defaultLayer (wireText "0") (wireAt 0))
        bufferedPart.bridge peerPart.blockBytes = _ := defaultLayer_accepts (wireText "0") 0
    rw [haccept]
    rfl
  have hfirst : RepeatingStep (defaultLayer (wireText "0") (wireAt 0))
      (AppState.initial emptyChain 0 1) bufferedPart :=
    ⟨_, none, peerPart_repeatsHeader 0, .part hbuffer⟩
  exact (Relation.ReflTransGen.single hfirst).tail
    ⟨.receivedProposalPart 0 .fin, none, trivial, .part hregister⟩

/-- The registered view, and the block that is committed when its hash is decided. -/
theorem registerProposedBlock_bound_default :
    (∃ after, RegisteredView (defaultLayer (wireText "0") (wireAt 0)) emptyChain after
      (wireAt 0).block (wireAt 0)) ∧
    ∃ committed : Committed Unit, committed.hash = defaultHash ∧ committed.blockTime = 0 ∧
      committed.Bound (defaultLayer (wireText "0") (wireAt 0)) := by
  constructor
  · exact ⟨_, ((registerProposedBlock_bound _).1 emptyChain _ (bytesOf (wireText "0"))
      _ (wireAt 0) (if_pos rfl) (defaultLayer_accepts (wireText "0") 0)).2
      (wireAt_repeatsHeader _)⟩
  · let payload : PendingPayload Unit :=
      { hash := defaultHash, header := defaultHeader, fills := [], executionData := none }
    have htime : registeredPart.blockTimes.get? defaultHash = some 0 := by
      simp only [registeredPart, SortedMap.get?_insert, if_true]
    have hpending : registeredPart.bridge.pending.get? 0 = some payload := by
      simp only [registeredPart, ChainState.insertPending, SortedMap.get?_insert]
      rfl
    have hcommit : AppStep (defaultLayer (wireText "0") (wireAt 0)) registeredPart
        (.decided defaultHash 1) (decided registeredPart 1 payload)
        (some { hash := defaultHash, height := 1, blockTime := 0, payload := payload }) :=
      .decided htime hpending
    exact ⟨_, rfl, rfl, (registerProposedBlock_bound _).2 ℕ 0 1 emptyChain registeredPart _ _
      _ rfl registeredPart_reached hcommit⟩

/-- The view claims time 1 for a header of time 0 and is returned as it is. -/
theorem not_forall_registeredView :
    ¬ ∀ (layer : ExecutionLayer Unit) (state after : ChainState Unit)
      (bytes : List U8) (block : ExecutedBlock) (wire : ProposedBlockWire Unit),
      layer.decode bytes = .ok wire →
        registerProposedBlock layer state bytes = .ok (block, after) →
          RegisteredView layer state after block wire := by
  intro hview
  have hblock := (hview (defaultLayer (wireText "1") (wireAt 1)) emptyChain _ _ _
    (wireAt 1) (if_pos rfl) (defaultLayer_accepts (wireText "1") 1)).view
  have htime := congrArg ExecutedBlock.timestamp hblock
  revert htime
  decide

/-! ## Parts that end the loop -/

section PeerInput

variable {K E : Type} [LinearOrder K] (layer : ExecutionLayer E)

/-- The bridge can register the bytes: they decode, and the header hashes to the
hash that the wire claims. -/
def Registrable (bytes : List U8) : Prop :=
  ∃ wire, layer.decode bytes = .ok wire ∧
    layer.hashSlow wire.header = wire.block.hash

/-- The loop goes on after a part, with what it had decided.  Unless the part
completes the stream of a block that can be registered, no value is proposed and
the pending blocks stay as they are. -/
def Continues (state : AppState K E) (key : K) (content : StreamContent) : Prop :=
  ∃ after reply, receivedProposalPart layer state key content = .ok (after, reply) ∧
    after.decided = state.decided ∧ after.currentParent = state.currentParent ∧
    ((¬ ∃ part, completedPart state key content = some part ∧
        Registrable layer part.blockBytes) →
      reply = none ∧ after.bridge.pending = state.bridge.pending)

variable {layer}

theorem registerProposedBlock_isOk_iff (state : ChainState E) (bytes : List U8) :
    (∃ registered, registerProposedBlock layer state bytes = .ok registered) ↔
      Registrable layer bytes := by
  constructor
  · rintro ⟨⟨block, after⟩, haccept⟩
    obtain ⟨wire, hdecode, hhash, -, -⟩ := registerProposedBlock_eq_ok haccept
    exact ⟨wire, hdecode, hhash⟩
  · rintro ⟨wire, hdecode, hhash⟩
    rw [registerProposedBlock, hdecode]
    exact ⟨_, if_neg (not_ne_iff.2 hhash)⟩

end PeerInput

/-- At any point of any run the loop survives a peer's part exactly when the part
does not complete a stream, or completes that of a block that can be
registered. -/
theorem receivedProposalPart_continues_iff {K E : Type} [LinearOrder K]
    (layer : ExecutionLayer E) (state : AppState K E) (key : K)
    (content : StreamContent) :
    Continues layer state key content ↔
      ∀ part, completedPart state key content = some part →
        Registrable layer part.blockBytes := by
  cases hcompleted : completedPart state key content with
  | none =>
      rw [Continues, receivedProposalPart_of_not_completed hcompleted]
      simp
  | some part =>
      rw [Continues, receivedProposalPart_of_completedPart hcompleted]
      simp only [Option.some.injEq, forall_eq', ← registerProposedBlock_isOk_iff
        state.bridge part.blockBytes]
      cases hregister : registerProposedBlock layer state.bridge part.blockBytes with
      | error failure => simp
      | ok registered =>
          simp only [Except.ok.injEq, exists_eq', iff_true]
          refine ⟨_, _, rfl, rfl, rfl, fun habsent => ?_⟩
          exact absurd ⟨part, hcompleted, (registerProposedBlock_isOk_iff _ _).1
            ⟨registered, hregister⟩⟩ habsent

/-- A part with one byte that starts no JSON value. -/
def strayPart : OpenHlProposalPart :=
  { height := 1, round := some 0, polRound := none, proposer := 0
    blockBytes := [120] }

/-- Hash and codec as they act on the default header and on that byte. -/
def strayLayer : ExecutionLayer Unit :=
  { hashSlow := fun _ => defaultHash
    decode := fun _ => .error "expected value at line 1 column 1"
    payloadHash := fun _ => defaultHash }

/-- The application with the stray part buffered, waiting for the end of its
stream. -/
def strayState : AppState ℕ Unit :=
  { (AppState.initial emptyChain defaultHash 1 : AppState ℕ Unit) with
    streams := SortedMap.empty.insert 0 { data := some strayPart, finSeen := false } }

/-- The two messages of the stream with the stray byte end the loop: the first is
buffered, the second makes it return the bridge's error. -/
theorem not_forall_continues :
    ¬ ∀ (layer : ExecutionLayer Unit) (parent : BlockHash) (height : OpenHlHeight)
      (state : AppState ℕ Unit) (key : ℕ) (content : StreamContent),
      Relation.ReflTransGen
        (fun before after => ∃ msg committed, AppStep layer before msg after committed)
        (AppState.initial emptyChain parent height) state →
      Continues layer state key content := by
  intro hcontinues
  have hbuffered : AppStep strayLayer (AppState.initial emptyChain defaultHash 1)
      (.receivedProposalPart 0 (.data strayPart)) strayState none := .part rfl
  have hcompleted : completedPart strayState 0 .fin = some strayPart := by decide
  obtain ⟨after, reply, hresult, -⟩ := hcontinues strayLayer defaultHash 1 strayState 0
    .fin (.single ⟨_, _, hbuffered⟩)
  rw [receivedProposalPart_of_completedPart hcompleted] at hresult
  cases hresult

end OpenHl.Consensus
