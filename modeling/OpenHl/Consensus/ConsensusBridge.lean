import OpenHl.Consensus.Chain
import OpenHl.Consensus.Outgoing

/-!
# The contract between consensus and execution

`ConsensusBridge` has six methods, the last two of which an implementation may leave to
their defaults.  Consensus relies on what `Contract` says: a bridge keeps a list of
blocks, to which building and registering add one under the next id, and it commits the
hashes of these blocks and no others.
-/

namespace OpenHl.Consensus

open Machine OpenHl.Evm

/-- A word in the source; `ConsensusBridge.Refines` bounds how far a run counts. -/
abbrev PayloadId := ℕ

inductive PayloadStatus where
  | valid
  | invalid
  | syncing
  deriving DecidableEq, Repr

structure ConsensusBridge (B : Type) where
  buildPayload : B → BlockHash → PayloadAttrs → Except BuildFailure (PayloadId × B)
  payloadReady : B → PayloadId → Except BridgeError ExecutedBlock
  validatePayload : B → ExecutedBlock → Except BridgeError PayloadStatus
  commit : B → BlockHash → Except BridgeError B
  encodeProposedBlock : B → PayloadId → Except BridgeError (List U8) := fun _ _ =>
    .error (.internal "encode_proposed_block not implemented for this ConsensusBridge")
  registerProposedBlock : B → List U8 → Except BridgeError (ExecutedBlock × B) :=
    fun _ _ =>
    .error (.internal "register_proposed_block not implemented for this ConsensusBridge")

inductive BridgeCall where
  | buildPayload (parent : BlockHash) (attrs : PayloadAttrs)
  | payloadReady (id : PayloadId)
  | validatePayload (block : ExecutedBlock)
  | commit (hash : BlockHash)
  | encodeProposedBlock (id : PayloadId)
  | registerProposedBlock (bytes : List U8)

inductive BridgeResponse where
  | id (id : PayloadId)
  | block (block : ExecutedBlock)
  | status (status : PayloadStatus)
  | committed
  | bytes (bytes : List U8)
  | failed (failure : BuildFailure)

/-- The call has panicked. -/
def BridgeResponse.panicked : BridgeResponse → Bool
  | .failed .overflow => true
  | _ => false

namespace ConsensusBridge

variable {B : Type}

/-- A call with its answer; a call that fails changes nothing. -/
def call (bridge : ConsensusBridge B) (state : B) : BridgeCall → BridgeResponse × B
  | .buildPayload parent attrs =>
      match bridge.buildPayload state parent attrs with
      | .error failure => (.failed failure, state)
      | .ok (id, after) => (.id id, after)
  | .payloadReady id =>
      match bridge.payloadReady state id with
      | .error failure => (.failed (.bridge failure), state)
      | .ok block => (.block block, state)
  | .validatePayload block =>
      match bridge.validatePayload state block with
      | .error failure => (.failed (.bridge failure), state)
      | .ok status => (.status status, state)
  | .commit hash =>
      match bridge.commit state hash with
      | .error failure => (.failed (.bridge failure), state)
      | .ok after => (.committed, after)
  | .encodeProposedBlock id =>
      match bridge.encodeProposedBlock state id with
      | .error failure => (.failed (.bridge failure), state)
      | .ok bytes => (.bytes bytes, state)
  | .registerProposedBlock bytes =>
      match bridge.registerProposedBlock state bytes with
      | .error failure => (.failed (.bridge failure), state)
      | .ok (block, after) => (.block block, after)

/-- Calls one after the other.  A panic ends the caller, and where it strikes under the
lock, every later call would find the mutex poisoned. -/
def run (bridge : ConsensusBridge B) : B → List BridgeCall → List BridgeResponse × B
  | state, [] => ([], state)
  | state, call :: rest =>
      let (response, after) := bridge.call state call
      if response.panicked then ([response], after)
      else
        let (responses, last) := bridge.run after rest
        (response :: responses, last)

theorem run_of_panicked {bridge : ConsensusBridge B} {state : B} {call : BridgeCall}
    (hpanicked : (bridge.call state call).1.panicked = true) (rest : List BridgeCall) :
    bridge.run state (call :: rest) =
      ([(bridge.call state call).1], (bridge.call state call).2) :=
  if_pos hpanicked

theorem run_of_answered {bridge : ConsensusBridge B} {state : B} {call : BridgeCall}
    (hanswered : ¬ (bridge.call state call).1.panicked = true) (rest : List BridgeCall) :
    bridge.run state (call :: rest) =
      ((bridge.call state call).1 :: (bridge.run (bridge.call state call).2 rest).1,
        (bridge.run (bridge.call state call).2 rest).2) :=
  if_neg hanswered

/-- The blocks of a bridge by id, its head, and what the methods do to them. -/
structure Contract (bridge : ConsensusBridge B) where
  Valid : B → Prop
  blocks : B → List ExecutedBlock
  head : B → Option BlockHash
  build : ∀ {state parent attrs id after}, Valid state →
    bridge.buildPayload state parent attrs = .ok (id, after) →
      Valid after ∧ head after = head state ∧ id = (blocks state).length ∧
        ∃ block, blocks after = blocks state ++ [block] ∧ block.parentHash = parent ∧
          attrs.timestamp ≤ block.timestamp
  ready : ∀ {state id block}, Valid state →
    (bridge.payloadReady state id = .ok block ↔ (blocks state)[id]? = some block)
  commits : ∀ {state block}, Valid state → block ∈ blocks state →
    ∃ after, bridge.commit state block.hash = .ok after
  commit_eq_ok : ∀ {state hash after}, Valid state → bridge.commit state hash = .ok after →
    Valid after ∧ blocks after = blocks state ∧ head after = some hash ∧
      ∃ block ∈ blocks state, block.hash = hash
  register : ∀ {state bytes block after}, Valid state →
    bridge.registerProposedBlock state bytes = .ok (block, after) →
      Valid after ∧ head after = head state ∧
        ∃ stored, blocks after = blocks state ++ [stored] ∧ stored.hash = block.hash

end ConsensusBridge

/-! ## What a bridge is for -/

/-- The blocks a bridge has been given, in order, and the last hash committed. -/
structure BlockLedger where
  blocks : List ExecutedBlock
  head : Option BlockHash

def BlockLedger.empty : BlockLedger := { blocks := [], head := none }

/-- The answers that a ledger admits to a call. -/
inductive BlockLedger.Admits : BlockLedger → BridgeCall → BridgeResponse → BlockLedger →
    Prop
  | built {ledger : BlockLedger} {parent : BlockHash} {attrs : PayloadAttrs}
      {block : ExecutedBlock} (hparent : block.parentHash = parent)
      (htime : attrs.timestamp ≤ block.timestamp) :
      Admits ledger (.buildPayload parent attrs) (.id ledger.blocks.length)
        { ledger with blocks := ledger.blocks ++ [block] }
  | notBuilt {ledger : BlockLedger} {parent : BlockHash} {attrs : PayloadAttrs}
      {failure : BuildFailure} :
      Admits ledger (.buildPayload parent attrs) (.failed failure) ledger
  | ready {ledger : BlockLedger} {id : PayloadId} {block : ExecutedBlock}
      (hblock : ledger.blocks[id]? = some block) :
      Admits ledger (.payloadReady id) (.block block) ledger
  | notReady {ledger : BlockLedger} {id : PayloadId} {failure : BuildFailure}
      (hid : ledger.blocks.length ≤ id) :
      Admits ledger (.payloadReady id) (.failed failure) ledger
  | validated {ledger : BlockLedger} {block : ExecutedBlock} (response : BridgeResponse) :
      Admits ledger (.validatePayload block) response ledger
  | committed {ledger : BlockLedger} {block : ExecutedBlock}
      (hblock : block ∈ ledger.blocks) :
      Admits ledger (.commit block.hash) .committed
        { ledger with head := some block.hash }
  | notCommitted {ledger : BlockLedger} {hash : BlockHash} {failure : BuildFailure}
      (hunknown : ∀ block ∈ ledger.blocks, block.hash ≠ hash) :
      Admits ledger (.commit hash) (.failed failure) ledger
  | encoded {ledger : BlockLedger} {id : PayloadId} (response : BridgeResponse) :
      Admits ledger (.encodeProposedBlock id) response ledger
  | registered {ledger : BlockLedger} {bytes : List U8} {block stored : ExecutedBlock}
      (hhash : stored.hash = block.hash) :
      Admits ledger (.registerProposedBlock bytes) (.block block)
        { ledger with blocks := ledger.blocks ++ [stored] }
  | notRegistered {ledger : BlockLedger} {bytes : List U8} {failure : BuildFailure} :
      Admits ledger (.registerProposedBlock bytes) (.failed failure) ledger

/-- A ledger that admits all answers of a run, up to a panic. -/
inductive BlockLedger.AdmitsAll : BlockLedger → List BridgeCall → List BridgeResponse →
    BlockLedger → Prop
  | nil (ledger : BlockLedger) : AdmitsAll ledger [] [] ledger
  | panicked {ledger last : BlockLedger} {call : BridgeCall} {response : BridgeResponse}
      {calls : List BridgeCall} (hlast : ledger.Admits call response last)
      (hpanicked : response.panicked = true) :
      AdmitsAll ledger (call :: calls) [response] last
  | cons {ledger middle last : BlockLedger} {call : BridgeCall}
      {response : BridgeResponse} {calls : List BridgeCall}
      {responses : List BridgeResponse} (hfirst : ledger.Admits call response middle)
      (hanswered : ¬ response.panicked = true)
      (hrest : middle.AdmitsAll calls responses last) :
      AdmitsAll ledger (call :: calls) (response :: responses) last

/-- In every run the bridge answers as some ledger would that starts empty.  The ids are
the positions in the ledger, so `n` calls use no id from `n` on: below `2 ^ 64` calls they
are the words that the source counts with. -/
def ConsensusBridge.Refines {B : Type} (bridge : ConsensusBridge B) (start : B) : Prop :=
  ∀ calls, ∃ ledger, BlockLedger.empty.AdmitsAll calls (bridge.run start calls).1 ledger ∧
    ledger.blocks.length ≤ calls.length

theorem BlockLedger.Admits.length_le {before after : BlockLedger} {call : BridgeCall}
    {response : BridgeResponse} (hadmits : before.Admits call response after) :
    after.blocks.length ≤ before.blocks.length + 1 := by
  cases hadmits with
  | built hparent htime => exact (List.length_append ..).le
  | registered hhash => exact (List.length_append ..).le
  | _ => exact Nat.le_succ _

theorem BlockLedger.AdmitsAll.length_le {before after : BlockLedger}
    {calls : List BridgeCall} {responses : List BridgeResponse}
    (hadmits : before.AdmitsAll calls responses after) :
    after.blocks.length ≤ before.blocks.length + calls.length := by
  induction hadmits with
  | nil ledger => exact le_refl _
  | panicked hlast hpanicked =>
      have hfirst := hlast.length_le
      rw [List.length_cons]
      omega
  | cons hfirst hanswered hrest ih =>
      have hone := hfirst.length_le
      rw [List.length_cons]
      omega

section Refinement

variable {B : Type} {bridge : ConsensusBridge B} (contract : bridge.Contract)

/-- The ledger of a bridge. -/
def ConsensusBridge.Contract.ledger (state : B) : BlockLedger :=
  { blocks := contract.blocks state, head := contract.head state }

theorem ConsensusBridge.Contract.call_admitted {state : B} (hvalid : contract.Valid state)
    (call : BridgeCall) :
    contract.Valid (bridge.call state call).2 ∧
      (contract.ledger state).Admits call (bridge.call state call).1
        (contract.ledger (bridge.call state call).2) := by
  cases call with
  | buildPayload parent attrs =>
      rw [call]
      cases hbuild : bridge.buildPayload state parent attrs with
      | error failure => exact ⟨hvalid, .notBuilt⟩
      | ok built =>
          obtain ⟨id, after⟩ := built
          obtain ⟨hafter, hhead, rfl, block, hblocks, hparent, htime⟩ :=
            contract.build hvalid hbuild
          refine ⟨hafter, ?_⟩
          rw [ledger, ledger, hblocks, hhead]
          exact .built hparent htime
  | payloadReady id =>
      rw [call]
      cases hready : bridge.payloadReady state id with
      | error failure =>
          refine ⟨hvalid, .notReady ?_⟩
          by_contra hlt
          rw [not_le] at hlt
          have hblock := (contract.ready hvalid).2 (List.getElem?_eq_getElem hlt)
          rw [hready] at hblock
          cases hblock
      | ok block => exact ⟨hvalid, .ready ((contract.ready hvalid).1 hready)⟩
  | validatePayload block =>
      rw [call]
      cases bridge.validatePayload state block with
      | error failure => exact ⟨hvalid, .validated _⟩
      | ok status => exact ⟨hvalid, .validated _⟩
  | commit hash =>
      rw [call]
      cases hcommit : bridge.commit state hash with
      | error failure =>
          refine ⟨hvalid, .notCommitted ?_⟩
          rintro block hblock rfl
          obtain ⟨after, hok⟩ := contract.commits hvalid hblock
          rw [hcommit] at hok
          cases hok
      | ok after =>
          obtain ⟨hafter, hblocks, hhead, block, hblock, rfl⟩ :=
            contract.commit_eq_ok hvalid hcommit
          refine ⟨hafter, ?_⟩
          rw [ledger, ledger, hblocks, hhead]
          exact .committed hblock
  | encodeProposedBlock id =>
      rw [call]
      cases bridge.encodeProposedBlock state id with
      | error failure => exact ⟨hvalid, .encoded _⟩
      | ok bytes => exact ⟨hvalid, .encoded _⟩
  | registerProposedBlock bytes =>
      rw [call]
      cases hregister : bridge.registerProposedBlock state bytes with
      | error failure => exact ⟨hvalid, .notRegistered⟩
      | ok registered =>
          obtain ⟨block, after⟩ := registered
          obtain ⟨hafter, hhead, stored, hblocks, hhash⟩ :=
            contract.register hvalid hregister
          refine ⟨hafter, ?_⟩
          rw [ledger, ledger, hblocks, hhead]
          exact .registered hhash

theorem ConsensusBridge.Contract.run_admitted {state : B} (hvalid : contract.Valid state)
    (calls : List BridgeCall) :
    (contract.ledger state).AdmitsAll calls (bridge.run state calls).1
      (contract.ledger (bridge.run state calls).2) := by
  induction calls generalizing state with
  | nil => exact .nil _
  | cons call rest ih =>
      obtain ⟨hafter, hfirst⟩ := contract.call_admitted hvalid call
      by_cases hpanicked : (bridge.call state call).1.panicked = true
      · rw [bridge.run_of_panicked hpanicked]
        exact .panicked hfirst hpanicked
      · rw [bridge.run_of_answered hpanicked]
        exact .cons hfirst hpanicked (ih hafter)

/-- A bridge that keeps the contract refines the ledger. -/
theorem ConsensusBridge.Contract.refines {start : B} (hvalid : contract.Valid start)
    (hempty : contract.ledger start = BlockLedger.empty) : bridge.Refines start := by
  intro calls
  have hadmitted := contract.run_admitted hvalid calls
  rw [hempty] at hadmitted
  refine ⟨_, hadmitted, hadmitted.length_le.trans_eq ?_⟩
  exact Nat.zero_add _

end Refinement

end OpenHl.Consensus
