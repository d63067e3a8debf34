import OpenHl.Clob.Book
import OpenHl.Core.SortedMap

/-!
# Proposed blocks

The part of `LiveRethEvmBridge` that serves consensus: payloads wait in
`pending` until their hash is decided, and travel between validators as
`ProposedBlockWire`.  Header hashing, the JSON codec and execution payloads are
code outside the repository and are collected in `ExecutionLayer`.

An honest wire says everything twice: its block view repeats the header
(`proposedWire_repeatsHeader`).  The receiving side compares the hash alone.
-/

namespace OpenHl.Evm

open Machine OpenHl.Clob

instance neZeroB256 : NeZero (2 ^ 256) := ⟨by norm_num⟩

instance neZeroAddress : NeZero (2 ^ 160) := ⟨by norm_num⟩

abbrev B256 := Fin (2 ^ 256)
abbrev BlockHash := B256
abbrev Address := Fin (2 ^ 160)

structure Header where
  parentHash : B256
  number : U64
  timestamp : U64
  beneficiary : Address
  mixHash : B256
  gasLimit : U64
  difficulty : Fin (2 ^ 256)
  baseFeePerGas : Option U64
  stateRoot : B256
  /-- The fields that only the hash reads, where they differ from the default
  header. -/
  rest : List U8
  deriving DecidableEq

@[ext]
structure ExecutedBlock where
  hash : BlockHash
  parentHash : BlockHash
  number : U64
  stateRoot : B256
  timestamp : U64
  deriving DecidableEq

/-- The view of a header that consensus works with. -/
def executedBlock (hash : B256) (header : Header) : ExecutedBlock :=
  { hash := hash, parentHash := header.parentHash, number := header.number
    stateRoot := header.stateRoot, timestamp := header.timestamp }

section Layer

variable {E : Type}

structure ProposedBlockWire (E : Type) where
  header : Header
  block : ExecutedBlock
  executionData : Option E

structure PendingPayload (E : Type) where
  hash : B256
  header : Header
  fills : List Fill
  executionData : Option E

/-- What the bridge uses of code outside the repository. -/
structure ExecutionLayer (E : Type) where
  hashSlow : Header → B256
  /-- `serde_json::from_slice`, with the text of its error. -/
  decode : List U8 → Except String (ProposedBlockWire E)
  /-- Hash of the block that an execution payload is the payload of. -/
  payloadHash : E → B256

structure ChainState (E : Type) where
  /-- How many payloads have been stored.  The source counts in a word, which `n` calls
  leave at `n` at most (`ConsensusBridge.Refines`). -/
  nextPayloadId : ℕ
  pending : SortedMap ℕ (PendingPayload E)
  chain : SortedMap B256 Header
  head : Option B256

inductive BridgeError where
  | rejected (message : String)
  | syncing
  | internal (message : String)
  deriving DecidableEq, Repr

/-- `0x` and 64 hexadecimal digits. -/
def displayHash (hash : B256) : String :=
  let digits := Nat.toDigits 16 hash.val
  "0x" ++ String.ofList (List.replicate (64 - digits.length) '0' ++ digits)

namespace ChainState

/-- Store a payload under the next id. -/
def insertPending (state : ChainState E) (payload : PendingPayload E) :
    ChainState E :=
  { state with
    nextPayloadId := state.nextPayloadId + 1
    pending := state.pending.insert state.nextPayloadId payload }

/-- Commit a pending payload; it stays pending. -/
def commit (state : ChainState E) (payload : PendingPayload E) : ChainState E :=
  { state with
    chain := state.chain.insert payload.hash payload.header
    head := some payload.hash }

theorem get?_insertPending (state : ChainState E) (payload : PendingPayload E)
    (id : ℕ) :
    (state.insertPending payload).pending.get? id =
      if id = state.nextPayloadId then some payload else state.pending.get? id :=
  SortedMap.get?_insert _ _ _ _

@[simp]
theorem get?_insertPending_self (state : ChainState E) (payload : PendingPayload E) :
    (state.insertPending payload).pending.get? state.nextPayloadId = some payload := by
  rw [get?_insertPending, if_pos rfl]

end ChainState

variable (layer : ExecutionLayer E)

/-- Decode a proposal and store it; of the wire's redundant fields only the
hash is compared. -/
def registerProposedBlock (state : ChainState E) (bytes : List U8) :
    Except BridgeError (ExecutedBlock × ChainState E) :=
  match layer.decode bytes with
  | .error reason => .error (.rejected ("decode proposed block: " ++ reason))
  | .ok wire =>
      let computed := layer.hashSlow wire.header
      let claimed := wire.block.hash
      if computed ≠ claimed then
        .error (.rejected ("proposed block hash mismatch — header hashes to " ++
          displayHash computed ++ " but wire claims " ++ displayHash claimed))
      else
        .ok (wire.block, state.insertPending
          { hash := computed, header := wire.header, fills := []
            executionData := wire.executionData })

/-- The wire that `encode_proposed_block` serialises for a pending payload. -/
def proposedWire (payload : PendingPayload E) : ProposedBlockWire E :=
  { header := payload.header
    block := executedBlock payload.hash payload.header
    executionData := payload.executionData }

def payloadReady (state : ChainState E) (id : ℕ) : Except BridgeError ExecutedBlock :=
  match state.pending.get? id with
  | none => .error (.rejected ("unknown payload id " ++ toString id))
  | some payload => .ok (executedBlock payload.hash payload.header)

/-- Serialise a pending payload; `encode` is `serde_json::to_vec`, with the text of its
error. -/
def encodeProposedBlock (encode : ProposedBlockWire E → Except String (List U8))
    (state : ChainState E) (id : ℕ) : Except BridgeError (List U8) :=
  match state.pending.get? id with
  | none =>
      .error (.rejected ("encode_proposed_block: unknown payload id " ++ toString id))
  | some payload =>
      match encode (proposedWire payload) with
      | .error reason => .error (.internal ("serialise proposed block: " ++ reason))
      | .ok bytes => .ok bytes

/-! ## What a wire has to repeat -/

/-- A payload is stored under the hash of its header, and its execution data is
that of the same block. -/
structure PendingPayload.Sound (payload : PendingPayload E) : Prop where
  header : layer.hashSlow payload.header = payload.hash
  data : ∀ data, payload.executionData = some data →
    layer.payloadHash data = payload.hash

/-- The wire's view repeats its header, and its execution data belongs to the
header. -/
structure ProposedBlockWire.RepeatsHeader (wire : ProposedBlockWire E) : Prop where
  parentHash : wire.block.parentHash = wire.header.parentHash
  number : wire.block.number = wire.header.number
  stateRoot : wire.block.stateRoot = wire.header.stateRoot
  timestamp : wire.block.timestamp = wire.header.timestamp
  data : ∀ data, wire.executionData = some data →
    layer.payloadHash data = layer.hashSlow wire.header

/-- The returned block is the view of the carried header, and the execution data
that is stored with it, if any, is the payload of the block with that hash. -/
structure RegisteredView (state after : ChainState E) (block : ExecutedBlock)
    (wire : ProposedBlockWire E) : Prop where
  view : block = executedBlock (layer.hashSlow wire.header) wire.header
  data : ∃ payload, after.pending.get? state.nextPayloadId = some payload ∧
    payload.header = wire.header ∧ ∀ data, payload.executionData = some data →
      layer.payloadHash data = layer.hashSlow wire.header

variable {layer}

theorem proposedWire_repeatsHeader {payload : PendingPayload E}
    (hsound : payload.Sound layer) :
    (proposedWire payload).RepeatsHeader layer where
  parentHash := rfl
  number := rfl
  stateRoot := rfl
  timestamp := rfl
  data data hdata := (hsound.data data hdata).trans hsound.header.symm

theorem registerProposedBlock_eq_ok {state after : ChainState E} {bytes : List U8}
    {block : ExecutedBlock}
    (haccept : registerProposedBlock layer state bytes = .ok (block, after)) :
    ∃ wire, layer.decode bytes = .ok wire ∧
      layer.hashSlow wire.header = wire.block.hash ∧ block = wire.block ∧
      after = state.insertPending
        { hash := wire.block.hash, header := wire.header, fills := []
          executionData := wire.executionData } := by
  rw [registerProposedBlock] at haccept
  cases hdecode : layer.decode bytes with
  | error reason => simp [hdecode] at haccept
  | ok wire =>
      simp only [hdecode] at haccept
      split_ifs at haccept with hhash
      have hequal := not_ne_iff.1 hhash
      rw [Except.ok.injEq, Prod.mk.injEq, hequal] at haccept
      exact ⟨wire, rfl, hequal, haccept.1.symm, haccept.2.symm⟩

/-- An accepted proposal is stored soundly when its wire repeats the header. -/
theorem ProposedBlockWire.RepeatsHeader.sound {wire : ProposedBlockWire E}
    (hrepeats : wire.RepeatsHeader layer)
    (hhash : layer.hashSlow wire.header = wire.block.hash) (fills : List Fill) :
    PendingPayload.Sound layer
      { hash := wire.block.hash, header := wire.header, fills := fills
        executionData := wire.executionData } where
  header := hhash
  data data hdata := (hrepeats.data data hdata).trans hhash

theorem registeredView_iff {state after : ChainState E} {bytes : List U8}
    {block : ExecutedBlock} {wire : ProposedBlockWire E}
    (hdecode : layer.decode bytes = .ok wire)
    (haccept : registerProposedBlock layer state bytes = .ok (block, after)) :
    RegisteredView layer state after block wire ↔ wire.RepeatsHeader layer := by
  obtain ⟨other, hother, hhash, rfl, rfl⟩ := registerProposedBlock_eq_ok haccept
  rw [hdecode, Except.ok.injEq] at hother
  subst hother
  have hstored := state.get?_insertPending_self
    { hash := wire.block.hash, header := wire.header, fills := []
      executionData := wire.executionData }
  constructor
  · rintro ⟨hview, payload, hpayload, -, hdata⟩
    rw [hstored, Option.some.injEq] at hpayload
    rw [← hpayload] at hdata
    exact ⟨congrArg ExecutedBlock.parentHash hview, congrArg ExecutedBlock.number hview,
      congrArg ExecutedBlock.stateRoot hview, congrArg ExecutedBlock.timestamp hview,
      hdata⟩
  · intro hrepeats
    exact ⟨ExecutedBlock.ext hhash.symm hrepeats.parentHash hrepeats.number
      hrepeats.stateRoot hrepeats.timestamp, _, hstored, rfl, hrepeats.data⟩

end Layer

end OpenHl.Evm
