import OpenHl.Consensus.ConsensusBridge
import OpenHl.Consensus.Replication
import OpenHl.Core.Numbered
import OpenHl.Evm.Snapshot

/-!
# Three bridges

`InMemoryEvmBridge` is the double that tests of consensus use, `RethEvmBridge` the
placeholder of the live bridge, with its types.  Both answer for any parent and leave
encoding and registering to the defaults.  `LiveRethEvmBridge` is the bridge of the node.

All three keep the contract that consensus relies on (`InMemoryEvmBridge.contract`,
`RethEvmBridge.contract`, `LiveRethEvmBridge.contract`).
-/

namespace OpenHl.Evm

open Machine OpenHl.Consensus Numbered

/-! ## The double for tests -/

structure InMemoryEvmBridge where
  nextPayloadId : ℕ
  pending : SortedMap ℕ ExecutedBlock
  chain : SortedMap BlockHash ExecutedBlock
  head : Option BlockHash

namespace InMemoryEvmBridge

def new : InMemoryEvmBridge :=
  { nextPayloadId := 0, pending := SortedMap.empty, chain := SortedMap.empty, head := none }

/-- The first eight bytes of a hash. -/
def hexShort (hash : BlockHash) : String :=
  String.ofList ((displayHash hash).toList.take 18)

/-- Id and number in front of zeroes. -/
def blockHash (id : PayloadId) (number : U64) : BlockHash :=
  Fin.ofNat _ (BigEndian.ofBytes (LittleEndian.toBytes 8 id ++
    (LittleEndian.toBytes 8 number.val ++ List.replicate 16 0)))

def buildPayload (checks : U64.OverflowChecks) (state : InMemoryEvmBridge)
    (parent : BlockHash) (attrs : PayloadAttrs) :
    Except BuildFailure (PayloadId × InMemoryEvmBridge) := do
  let id := state.nextPayloadId
  let (parentNumber, parentTimestamp) :=
    match state.chain.get? parent with
    | some block => (block.number, block.timestamp)
    | none => (0, 0)
  let number ← increment checks parentNumber
  let next ← increment checks parentTimestamp
  let block : ExecutedBlock :=
    { hash := blockHash id number, parentHash := parent, number := number, stateRoot := 0
      timestamp := max attrs.timestamp next }
  return (id, { state with
    nextPayloadId := id + 1, pending := state.pending.insert id block })

def payloadReady (state : InMemoryEvmBridge) (id : PayloadId) :
    Except BridgeError ExecutedBlock :=
  match state.pending.get? id with
  | none => .error (.rejected ("unknown payload id " ++ toString id))
  | some block => .ok block

def commit (iteration : Iteration ExecutedBlock) (state : InMemoryEvmBridge)
    (hash : BlockHash) : Except BridgeError InMemoryEvmBridge :=
  match (iteration.order state.pending).find? fun block => block.hash = hash with
  | none => .error (.rejected ("commit for unknown hash " ++ hexShort hash))
  | some block =>
      .ok { state with chain := state.chain.insert hash block, head := some hash }

def bridge (checks : U64.OverflowChecks) (iteration : Iteration ExecutedBlock) :
    ConsensusBridge InMemoryEvmBridge where
  buildPayload := buildPayload checks
  payloadReady := payloadReady
  validatePayload _ _ := .ok .valid
  commit := commit iteration

end InMemoryEvmBridge

/-! ## The placeholder -/

structure RethEvmBridge where
  nextPayloadId : ℕ
  pending : SortedMap ℕ (B256 × Header)
  chain : SortedMap B256 Header
  head : Option B256

namespace RethEvmBridge

def new : RethEvmBridge :=
  { nextPayloadId := 0, pending := SortedMap.empty, chain := SortedMap.empty, head := none }

def buildPayload (checks : U64.OverflowChecks) (hashSlow : Header → B256)
    (state : RethEvmBridge) (parent : BlockHash) (attrs : PayloadAttrs) :
    Except BuildFailure (PayloadId × RethEvmBridge) := do
  let parentNumber :=
    match state.chain.get? parent with
    | some header => header.number
    | none => 0
  let id := state.nextPayloadId
  let number ← increment checks parentNumber
  let header : Header :=
    { parentHash := parent, number := number, timestamp := attrs.timestamp
      beneficiary := attrs.feeRecipient, mixHash := attrs.prevRandao, gasLimit := 0
      difficulty := 0, baseFeePerGas := none, stateRoot := emptyRootHash, rest := [] }
  return (id, { state with
    nextPayloadId := id + 1
    pending := state.pending.insert id (hashSlow header, header) })

def payloadReady (state : RethEvmBridge) (id : PayloadId) :
    Except BridgeError ExecutedBlock :=
  match state.pending.get? id with
  | none => .error (.rejected ("unknown payload id " ++ toString id))
  | some (hash, header) => .ok (executedBlock hash header)

def commit (iteration : Iteration (B256 × Header)) (state : RethEvmBridge)
    (hash : BlockHash) : Except BridgeError RethEvmBridge :=
  match (iteration.order state.pending).find? fun entry => entry.1 = hash with
  | none => .error (.rejected ("commit for unknown hash " ++ displayHash hash))
  | some (_, header) =>
      .ok { state with chain := state.chain.insert hash header, head := some hash }

def bridge (checks : U64.OverflowChecks) (hashSlow : Header → B256)
    (iteration : Iteration (B256 × Header)) : ConsensusBridge RethEvmBridge where
  buildPayload := buildPayload checks hashSlow
  payloadReady := payloadReady
  validatePayload _ _ := .ok .valid
  commit := commit iteration

end RethEvmBridge

/-! ## The bridge of the node -/

/-- The code outside the repository that the live bridge works with, and how the bridge
is built. -/
structure LiveNode (E : Type) where
  checks : U64.OverflowChecks
  layer : ExecutionLayer E
  reth : RethNode E
  encode : ProposedBlockWire E → Except String (List U8)
  /-- The header rules of the chain: a header with its hash, against its parent. -/
  validateHeaderAgainstParent : B256 → Header → Header → Bool
  iteration : Iteration (PendingPayload E)

namespace LiveRethEvmBridge

variable {E : Type} (node : LiveNode E)

/-- The fills go into the payload. -/
def buildPayload (bridge : LiveRethEvmBridge E) (parent : BlockHash)
    (attrs : PayloadAttrs) : Except BuildFailure (PayloadId × LiveRethEvmBridge E) := do
  let built ← Evm.buildPayload node.checks node.layer node.reth bridge.state
    bridge.pendingFills parent attrs
  return (bridge.state.nextPayloadId,
    { bridge with state := bridge.state.insertPending built, pendingFills := [] })

/-- The header that the bridge has under a hash: of a pending payload, else committed. -/
def knownHeader (bridge : LiveRethEvmBridge E) (hash : B256) : Option Header :=
  match (node.iteration.order bridge.state.pending).find? fun entry => entry.hash = hash with
  | some entry => some entry.header
  | none => bridge.state.chain.get? hash

def validatePayload (bridge : LiveRethEvmBridge E) (block : ExecutedBlock) :
    Except BridgeError PayloadStatus :=
  match knownHeader node bridge block.hash with
  | none => .ok .invalid
  | some header =>
      match node.reth.sealedHeaderByHash block.parentHash with
      | .error reason => .error (.internal ("provider error: " ++ reason))
      | .ok none => .ok .invalid
      | .ok (some parent) =>
          if node.validateHeaderAgainstParent block.hash header parent then .ok .valid
          else .ok .invalid

def commit (bridge : LiveRethEvmBridge E) (hash : BlockHash) :
    Except BridgeError (LiveRethEvmBridge E) :=
  match (node.iteration.order bridge.state.pending).find? fun entry => entry.hash = hash with
  | none => .error (.rejected ("commit for unknown hash " ++ displayHash hash))
  | some entry => .ok { bridge with state := bridge.state.commit entry }

def registerProposedBlock (bridge : LiveRethEvmBridge E) (bytes : List U8) :
    Except BridgeError (ExecutedBlock × LiveRethEvmBridge E) :=
  match Evm.registerProposedBlock node.layer bridge.state bytes with
  | .error failure => .error failure
  | .ok (block, state) => .ok (block, { bridge with state := state })

def bridge : ConsensusBridge (LiveRethEvmBridge E) where
  buildPayload := buildPayload node
  payloadReady bridge := payloadReady bridge.state
  validatePayload := validatePayload node
  commit := commit node
  encodeProposedBlock bridge := encodeProposedBlock node.encode bridge.state
  registerProposedBlock := registerProposedBlock node

end LiveRethEvmBridge

/-! ## The contract -/

section Contract

theorem getElem?_map_of_dense {A : Type} {items : SortedMap ℕ A} {next : ℕ}
    (hdense : Dense items next) (view : A → ExecutedBlock) (id : ℕ) :
    (items.values.map view)[id]? = (items.get? id).map view := by
  rw [List.getElem?_map, hdense.holds id]

theorem InMemoryEvmBridge.buildPayload_eq_ok {checks : U64.OverflowChecks}
    {state after : InMemoryEvmBridge} {parent : BlockHash} {attrs : PayloadAttrs}
    {id : PayloadId} (hbuild : buildPayload checks state parent attrs = .ok (id, after)) :
    ∃ block : ExecutedBlock, id = state.nextPayloadId ∧ block.parentHash = parent ∧
      attrs.timestamp ≤ block.timestamp ∧
      after = { state with
        nextPayloadId := state.nextPayloadId + 1
        pending := state.pending.insert state.nextPayloadId block } := by
  rw [buildPayload] at hbuild
  obtain ⟨number, -, hbuild⟩ := bind_eq_ok.1 hbuild
  obtain ⟨next, -, hbuild⟩ := bind_eq_ok.1 hbuild
  obtain ⟨rfl, rfl⟩ := Prod.mk.inj (Except.ok.inj hbuild)
  exact ⟨_, rfl, rfl, le_max_left _ _, rfl⟩

/-- The test double keeps the contract. -/
def InMemoryEvmBridge.contract (checks : U64.OverflowChecks)
    (iteration : Iteration ExecutedBlock) :
    (InMemoryEvmBridge.bridge checks iteration).Contract where
  Valid state := Dense state.pending state.nextPayloadId
  blocks state := state.pending.values
  head := InMemoryEvmBridge.head
  build hvalid hbuild := by
    obtain ⟨block, rfl, hparent, htime, rfl⟩ := buildPayload_eq_ok hbuild
    exact ⟨hvalid.insert block, rfl, hvalid.length.symm, block, hvalid.values_insert block,
      hparent, htime⟩
  ready {state id block} hvalid := by
    rw [← hvalid.holds id]
    change payloadReady state id = .ok block ↔ _
    rw [payloadReady]
    cases state.pending.get? id with
    | none => simp
    | some other => simp
  commits {state block} hvalid hmem := by
    change ∃ after, commit iteration state block.hash = .ok after
    rw [commit]
    cases hfind : (iteration.order state.pending).find? fun other =>
        other.hash = block.hash with
    | none =>
        exact absurd ((iteration.find?_eq_none_iff hvalid.holds).1 hfind block hmem)
          (by simp)
    | some other => exact ⟨_, rfl⟩
  commit_eq_ok {state hash after} hvalid hcommit := by
    change commit iteration state hash = .ok after at hcommit
    rw [commit] at hcommit
    split at hcommit
    · cases hcommit
    · next block hfind =>
      obtain ⟨hmem, hhash⟩ := iteration.find?_eq_some hvalid.holds hfind
      obtain rfl := Except.ok.inj hcommit
      exact ⟨hvalid, rfl, rfl, block, hmem, of_decide_eq_true hhash⟩
  register hvalid hregister := by cases hregister

theorem RethEvmBridge.buildPayload_eq_ok {checks : U64.OverflowChecks}
    {hashSlow : Header → B256} {state after : RethEvmBridge} {parent : BlockHash}
    {attrs : PayloadAttrs} {id : PayloadId}
    (hbuild : buildPayload checks hashSlow state parent attrs = .ok (id, after)) :
    ∃ header : Header, id = state.nextPayloadId ∧ header.parentHash = parent ∧
      header.timestamp = attrs.timestamp ∧
      after = { state with
        nextPayloadId := state.nextPayloadId + 1
        pending := state.pending.insert state.nextPayloadId (hashSlow header, header) } := by
  rw [buildPayload] at hbuild
  obtain ⟨number, -, hbuild⟩ := bind_eq_ok.1 hbuild
  obtain ⟨rfl, rfl⟩ := Prod.mk.inj (Except.ok.inj hbuild)
  exact ⟨_, rfl, rfl, rfl, rfl⟩

/-- So does the placeholder. -/
def RethEvmBridge.contract (checks : U64.OverflowChecks) (hashSlow : Header → B256)
    (iteration : Iteration (B256 × Header)) :
    (RethEvmBridge.bridge checks hashSlow iteration).Contract where
  Valid state := Dense state.pending state.nextPayloadId
  blocks state := state.pending.values.map fun entry => executedBlock entry.1 entry.2
  head := RethEvmBridge.head
  build hvalid hbuild := by
    obtain ⟨header, rfl, hparent, htime, rfl⟩ := buildPayload_eq_ok hbuild
    refine ⟨hvalid.insert _, rfl, ?_, executedBlock (hashSlow header) header, ?_, hparent,
      htime.ge⟩
    · rw [List.length_map, hvalid.length]
    · rw [hvalid.values_insert, List.map_append]
      rfl
  ready {state id block} hvalid := by
    rw [getElem?_map_of_dense hvalid]
    change payloadReady state id = .ok block ↔ _
    rw [payloadReady]
    cases state.pending.get? id with
    | none => simp
    | some entry => simp
  commits {state block} hvalid hmem := by
    obtain ⟨entry, hentry, rfl⟩ := List.mem_map.1 hmem
    change ∃ after, commit iteration state entry.1 = .ok after
    rw [commit]
    cases hfind : (iteration.order state.pending).find? fun other => other.1 = entry.1 with
    | none =>
        exact absurd ((iteration.find?_eq_none_iff hvalid.holds).1 hfind entry hentry)
          (by simp)
    | some other => exact ⟨_, rfl⟩
  commit_eq_ok {state hash after} hvalid hcommit := by
    change commit iteration state hash = .ok after at hcommit
    rw [commit] at hcommit
    split at hcommit
    · cases hcommit
    · next other header hfind =>
      obtain ⟨hmem, hhash⟩ := iteration.find?_eq_some hvalid.holds hfind
      obtain rfl := Except.ok.inj hcommit
      exact ⟨hvalid, rfl, rfl, _, List.mem_map_of_mem hmem, of_decide_eq_true hhash⟩
  register hvalid hregister := by cases hregister

/-- And so does the live bridge, over a node that keeps its own promises. -/
def LiveRethEvmBridge.contract {E : Type} (node : LiveNode E)
    (hlawful : node.reth.Lawful node.layer) : (LiveRethEvmBridge.bridge node).Contract where
  Valid bridge := Dense bridge.state.pending bridge.state.nextPayloadId
  blocks bridge := bridge.state.pending.values.map fun payload =>
    executedBlock payload.hash payload.header
  head bridge := bridge.state.head
  build {bridge parent attrs id after} hvalid hbuild := by
    change buildPayload node bridge parent attrs = .ok (id, after) at hbuild
    rw [buildPayload] at hbuild
    obtain ⟨built, hpayload, hbuild⟩ := bind_eq_ok.1 hbuild
    obtain ⟨rfl, rfl⟩ := Prod.mk.inj (Except.ok.inj hbuild)
    obtain ⟨-, hparent, htime⟩ := buildPayload_attrs hlawful hpayload
    refine ⟨hvalid.insert _, rfl, ?_, executedBlock built.hash built.header, ?_, hparent,
      htime⟩
    · rw [List.length_map, hvalid.length]
    · rw [ChainState.insertPending, hvalid.values_insert, List.map_append]
      rfl
  ready {bridge id block} hvalid := by
    rw [getElem?_map_of_dense hvalid]
    change payloadReady bridge.state id = .ok block ↔ _
    rw [payloadReady]
    cases bridge.state.pending.get? id with
    | none => simp
    | some payload => simp
  commits {bridge block} hvalid hmem := by
    obtain ⟨payload, hpayload, rfl⟩ := List.mem_map.1 hmem
    change ∃ after, commit node bridge payload.hash = .ok after
    rw [commit]
    cases hfind : (node.iteration.order bridge.state.pending).find? fun other =>
        other.hash = payload.hash with
    | none =>
        exact absurd ((node.iteration.find?_eq_none_iff hvalid.holds).1 hfind payload
          hpayload) (by simp)
    | some other => exact ⟨_, rfl⟩
  commit_eq_ok {bridge hash after} hvalid hcommit := by
    change commit node bridge hash = .ok after at hcommit
    rw [commit] at hcommit
    split at hcommit
    · cases hcommit
    · next payload hfind =>
      obtain ⟨hmem, hhash⟩ := node.iteration.find?_eq_some hvalid.holds hfind
      obtain rfl := of_decide_eq_true hhash
      obtain rfl := Except.ok.inj hcommit
      exact ⟨hvalid, rfl, rfl, _, List.mem_map_of_mem hmem, rfl⟩
  register {bridge bytes block after} hvalid hregister := by
    change registerProposedBlock node bridge bytes = .ok (block, after) at hregister
    rw [registerProposedBlock] at hregister
    split at hregister
    · cases hregister
    · next found state haccept =>
      obtain ⟨rfl, rfl⟩ := Prod.mk.inj (Except.ok.inj hregister)
      obtain ⟨wire, -, -, rfl, rfl⟩ := registerProposedBlock_eq_ok haccept
      refine ⟨hvalid.insert _, rfl, executedBlock wire.block.hash wire.header, ?_, rfl⟩
      rw [ChainState.insertPending, hvalid.values_insert, List.map_append]
      rfl

end Contract

/-- Whatever the order in which hash maps are iterated, each of the three bridges answers
in every run as a ledger of blocks would: ids count up, an id keeps its block, and a hash
is committed exactly if a block with it has been built or registered. -/
theorem bridges_refine :
    (∀ checks iteration,
      (InMemoryEvmBridge.bridge checks iteration).Refines InMemoryEvmBridge.new) ∧
    (∀ checks hashSlow iteration,
      (RethEvmBridge.bridge checks hashSlow iteration).Refines RethEvmBridge.new) ∧
    ∀ (E : Type) (node : LiveNode E), node.reth.Lawful node.layer →
      (LiveRethEvmBridge.bridge node).Refines LiveRethEvmBridge.new :=
  ⟨fun checks iteration =>
      (InMemoryEvmBridge.contract checks iteration).refines Dense.empty rfl,
    fun checks hashSlow iteration =>
      (RethEvmBridge.contract checks hashSlow iteration).refines Dense.empty rfl,
    fun _ node hlawful => (LiveRethEvmBridge.contract node hlawful).refines Dense.empty rfl⟩

/-- A node on which the block on genesis is all that can be built. -/
def childNode : LiveNode Unit :=
  { checks := .on, layer := childLayer, reth := genesisNode, encode := encodeChild
    validateHeaderAgainstParent := fun _ _ _ => true, iteration := .ascending }

theorem bridges_refine_childNode : (LiveRethEvmBridge.bridge childNode).Refines .new :=
  bridges_refine.2.2 Unit childNode (genesisNode_lawful rfl)

/-! ## The order of the hash map -/

section Order

variable {E : Type} {node : LiveNode E} {bridge : LiveRethEvmBridge E}

/-- No two pending payloads share a hash without sharing the header. -/
def LiveRethEvmBridge.CollisionFree (bridge : LiveRethEvmBridge E) : Prop :=
  ∀ payload ∈ bridge.state.pending.values, ∀ other ∈ bridge.state.pending.values,
    payload.hash = other.hash → payload.header = other.header

end Order

end OpenHl.Evm
