import OpenHl.Consensus.Chain

/-!
# A block on the validator that built it and on one that received it

The proposer encodes a pending payload, the follower registers the bytes, and both
commit the hash.  `commit` looks the hash up in a map that is keyed by payload ids, and
takes whichever entry it meets first.

`replicates_iff`: the follower gets the block that the proposer has, and both commit
the same header and send the same payload to their engines, exactly when all the
entries that the proposer has under the hash agree with the one it encoded.
-/

namespace OpenHl.Consensus

open Machine OpenHl.Evm

section Replication

variable {E : Type}

/-- What `commit` sends to an installed engine. -/
inductive EngineCall (E : Type) where
  | newPayload (data : E)
  | forkChoiceUpdated (head : B256)

def engineCalls (payload : PendingPayload E) : List (EngineCall E) :=
  payload.executionData.toList.map .newPayload ++ [.forkChoiceUpdated payload.hash]

/-- The outcomes of `commit`: the first payload of the hash in the order of a hash map,
so any of them. -/
inductive Commits (state : ChainState E) (hash : B256) :
    Except BridgeError (ChainState E × List (EngineCall E)) → Prop
  | found {id : ℕ} {payload : PendingPayload E}
      (hpending : state.pending.get? id = some payload) (hhash : payload.hash = hash) :
      Commits state hash (.ok (state.commit payload, engineCalls payload))
  | unknown
      (habsent : ∀ id payload, state.pending.get? id = some payload →
        payload.hash ≠ hash) :
      Commits state hash
        (.error (.rejected ("commit for unknown hash " ++ displayHash hash)))

/-- Two commits of a hash that agree in the header, the head and the engine calls. -/
def SameCommit (hash : B256)
    (left right : Except BridgeError (ChainState E × List (EngineCall E))) : Prop :=
  ∃ leftState rightState calls header, left = .ok (leftState, calls) ∧
    right = .ok (rightState, calls) ∧ leftState.chain.get? hash = some header ∧
    rightState.chain.get? hash = some header ∧ leftState.head = some hash ∧
    rightState.head = some hash

variable (layer : ExecutionLayer E)
  (encode : ProposedBlockWire E → Except String (List U8))

/-- The follower registers what the proposer encodes, as the block that the proposer
has, and whatever entry either of them commits, they commit the same. -/
def Replicates (proposer follower : ChainState E) (id : ℕ) (hash : B256) : Prop :=
  ∃ bytes block registered,
    encodeProposedBlock encode proposer id = .ok bytes ∧
    registerProposedBlock layer follower bytes = .ok (block, registered) ∧
    payloadReady proposer id = .ok block ∧
    ∀ built received, Commits proposer hash built → Commits registered hash received →
      SameCommit hash built received

/-- Every entry of the hash has the payload's header and execution data. -/
def Consistent (state : ChainState E) (payload : PendingPayload E) : Prop :=
  ∀ id entry, state.pending.get? id = some entry → entry.hash = payload.hash →
    entry.header = payload.header ∧ entry.executionData = payload.executionData

variable {layer encode}

theorem engineCalls_inj {left right : PendingPayload E}
    (hcalls : engineCalls left = engineCalls right) :
    left.executionData = right.executionData := by
  have hpayloads := (List.append_inj' hcalls rfl).1
  cases hleft : left.executionData with
  | none =>
      cases hright : right.executionData with
      | none => rfl
      | some data => simp [hleft, hright] at hpayloads
  | some data =>
      cases hright : right.executionData with
      | none => simp [hleft, hright] at hpayloads
      | some other =>
          simp only [hleft, hright, Option.toList_some, List.map_cons, List.map_nil,
            List.cons.injEq, EngineCall.newPayload.injEq, and_true] at hpayloads
          rw [hpayloads]

/-- The wire of a payload is registered as its block, with no fills. -/
theorem registerProposedBlock_proposedWire {payload : PendingPayload E} {bytes : List U8}
    (hhash : layer.hashSlow payload.header = payload.hash)
    (hdecode : layer.decode bytes = .ok (proposedWire payload)) (state : ChainState E) :
    registerProposedBlock layer state bytes =
      .ok (executedBlock payload.hash payload.header,
        state.insertPending { payload with fills := [] }) := by
  rw [registerProposedBlock, hdecode]
  simp [proposedWire, executedBlock, hhash]

/-- A commit finds an entry when the hash has one. -/
theorem Commits.eq_ok {state : ChainState E} {hash : B256} {id : ℕ}
    {payload : PendingPayload E} (hpending : state.pending.get? id = some payload)
    (hhash : payload.hash = hash)
    {outcome : Except BridgeError (ChainState E × List (EngineCall E))}
    (hcommits : Commits state hash outcome) :
    ∃ other entry, state.pending.get? other = some entry ∧ entry.hash = hash ∧
      outcome = .ok (state.commit entry, engineCalls entry) := by
  cases hcommits with
  | found hfound hentry => exact ⟨_, _, hfound, hentry, rfl⟩
  | unknown habsent => exact absurd hhash (habsent id payload hpending)

/-- Right after registration the payload is all that a follower has under the hash. -/
theorem insertPending_only {follower : ChainState E} {payload : PendingPayload E}
    (hfollower : ∀ id entry, follower.pending.get? id = some entry →
      entry.hash ≠ payload.hash) {id : ℕ} {entry : PendingPayload E}
    (hentry : (follower.insertPending { payload with fills := [] }).pending.get? id =
      some entry) (hhash : entry.hash = payload.hash) :
    entry = { payload with fills := [] } := by
  rw [ChainState.get?_insertPending] at hentry
  split_ifs at hentry with hid
  · exact (Option.some.inj hentry).symm
  · exact absurd hhash (hfollower id entry hentry)

theorem sameCommit_iff {proposer follower : ChainState E}
    {left right : PendingPayload E} {hash : B256} (hleft : left.hash = hash)
    (hright : right.hash = hash) :
    SameCommit hash (.ok (proposer.commit left, engineCalls left))
        (.ok (follower.commit right, engineCalls right)) ↔
      left.header = right.header ∧ left.executionData = right.executionData := by
  have hget : ∀ (state : ChainState E) {entry : PendingPayload E}, entry.hash = hash →
      (state.commit entry).chain.get? hash = some entry.header := by
    intro state entry hentry
    rw [ChainState.commit, SortedMap.get?_insert, if_pos hentry.symm]
  constructor
  · rintro ⟨leftState, rightState, calls, header, hbuilt, hreceived, hbuiltHeader,
      hreceivedHeader, -, -⟩
    rw [Except.ok.injEq, Prod.mk.injEq] at hbuilt hreceived
    rw [← hbuilt.1, hget proposer hleft, Option.some.injEq] at hbuiltHeader
    rw [← hreceived.1, hget follower hright, Option.some.injEq] at hreceivedHeader
    exact ⟨hbuiltHeader.trans hreceivedHeader.symm,
      engineCalls_inj (hbuilt.2.trans hreceived.2.symm)⟩
  · rintro ⟨hheader, hdata⟩
    have hcalls : engineCalls right = engineCalls left := by
      rw [engineCalls, engineCalls, hdata, hleft, hright]
    exact ⟨_, _, engineCalls left, left.header, rfl, by rw [hcalls], hget _ hleft,
      by rw [hget _ hright, hheader], congrArg some hleft, congrArg some hright⟩

theorem encodeProposedBlock_eq_ok {proposer : ChainState E} {id : ℕ}
    {payload : PendingPayload E} {bytes : List U8}
    (hpending : proposer.pending.get? id = some payload)
    (hencode : encode (proposedWire payload) = .ok bytes) :
    encodeProposedBlock encode proposer id = .ok bytes := by
  rw [encodeProposedBlock, hpending]
  simp only [hencode]

theorem Replicates.consistent {proposer follower : ChainState E} {id : ℕ}
    {payload : PendingPayload E} {bytes : List U8}
    (hpending : proposer.pending.get? id = some payload)
    (hhash : layer.hashSlow payload.header = payload.hash)
    (hencode : encode (proposedWire payload) = .ok bytes)
    (hdecode : layer.decode bytes = .ok (proposedWire payload))
    (hreplicates : Replicates layer encode proposer follower id payload.hash) :
    Consistent proposer payload := by
  obtain ⟨sent, block, registered, hsent, hregistered, -, hsame⟩ := hreplicates
  rw [encodeProposedBlock_eq_ok hpending hencode, Except.ok.injEq] at hsent
  rw [← hsent, registerProposedBlock_proposedWire hhash hdecode follower,
    Except.ok.injEq, Prod.mk.injEq] at hregistered
  rw [← hregistered.2] at hsame
  intro other entry hentry hentryHash
  have hcommits : SameCommit payload.hash _ _ :=
    hsame _ _ (.found hentry hentryHash) (.found (follower.get?_insertPending_self _) rfl)
  exact (sameCommit_iff hentryHash rfl).1 hcommits

end Replication

/-- A payload that the codec carries over and whose header hashes to its hash, on a
follower that has nothing under the hash yet: it is replicated exactly when whatever
else the proposer has under the hash has its header and its execution data. -/
theorem replicates_iff {E : Type} (layer : ExecutionLayer E)
    (encode : ProposedBlockWire E → Except String (List U8))
    (proposer follower : ChainState E) (id : ℕ) (payload : PendingPayload E)
    (bytes : List U8) (hpending : proposer.pending.get? id = some payload)
    (hhash : layer.hashSlow payload.header = payload.hash)
    (hencode : encode (proposedWire payload) = .ok bytes)
    (hdecode : layer.decode bytes = .ok (proposedWire payload))
    (hfollower : ∀ other entry, follower.pending.get? other = some entry →
      entry.hash ≠ payload.hash) :
    Replicates layer encode proposer follower id payload.hash ↔
      Consistent proposer payload := by
  constructor
  · exact Replicates.consistent hpending hhash hencode hdecode
  · intro hconsistent
    have hready : payloadReady proposer id =
        .ok (executedBlock payload.hash payload.header) := by
      rw [payloadReady, hpending]
    refine ⟨bytes, _, _, encodeProposedBlock_eq_ok hpending hencode,
      registerProposedBlock_proposedWire hhash hdecode follower, hready, ?_⟩
    intro built received hbuilt hreceived
    obtain ⟨other, entry, hentry, hentryHash, rfl⟩ := hbuilt.eq_ok hpending rfl
    obtain ⟨_, kept, hkept, hkeptHash, rfl⟩ :=
      hreceived.eq_ok (follower.get?_insertPending_self _) rfl
    obtain rfl := insertPending_only hfollower hkept hkeptHash
    exact (sameCommit_iff hentryHash rfl).2 (hconsistent other entry hentry hentryHash)

/-- The JSON text in which the block on genesis is shipped. -/
def childText : String :=
  "\x7b\"header\":\x7b\"parentHash\":\"0x78dec18c6d7da925bbe773c315653cdc70f6444ed6c1de9a" ++
  "c30bdb36cff74c3b\",\"sha3Uncles\":\"0x1dcc4de8dec75d7aab85b567b6ccd41ad312451b948a74" ++
  "13f0a142fd40d49347\",\"miner\":\"0x" ++ zeroes 40 ++ "\",\"stateRoot\":\"" ++
  emptyRoot ++ "\",\"transactionsRoot\":\"" ++ emptyRoot ++ "\",\"receiptsRoot\":\"" ++
  emptyRoot ++ "\",\"logsBloom\":\"0x" ++ zeroes 512 ++ "\",\"difficulty\":\"0x0\"," ++
  "\"number\":\"0x1\",\"gasLimit\":\"0x0\",\"gasUsed\":\"0x0\",\"timestamp\":\"0x1\"," ++
  "\"extraData\":\"0x\",\"mixHash\":\"0x" ++ zeroes 64 ++ "\",\"nonce\":\"0x" ++
  zeroes 16 ++ "\"\x7d,\"block\":\x7b\"hash\":[191,161,70,113,27,0,171,133,252,69,161,64," ++
  "171,230,141,217,66,142,182,172,94,124,136,113,78,61,152,84,71,165,140,207]," ++
  "\"parent_hash\":[120,222,193,140,109,125,169,37,187,231,115,195,21,101,60,220,112," ++
  "246,68,78,214,193,222,154,195,11,219,54,207,247,76,59],\"number\":1,\"state_root\":" ++
  "[86,232,31,23,27,204,85,166,255,131,69,230,146,192,248,110,91,72,224,27,153,108,173," ++
  "192,1,98,47,181,227,99,180,33],\"timestamp\":1\x7d,\"execution_data\":null\x7d"

/-- Hash and codec as they act on that block. -/
def childLayer : ExecutionLayer Unit :=
  { chainLayer with
    decode := fun bytes =>
      if bytes = bytesOf childText then .ok (proposedWire childPayload)
      else .error "expected value" }

def encodeChild (_ : ProposedBlockWire Unit) : Except String (List U8) :=
  .ok (bytesOf childText)

/-- A bridge that has built the block on genesis. -/
def builtChild : ChainState Unit := emptyChain.insertPending childPayload

theorem builtChild_pending {id : ℕ} {entry : PendingPayload Unit}
    (hentry : builtChild.pending.get? id = some entry) : entry = childPayload := by
  rw [builtChild, ChainState.get?_insertPending] at hentry
  split_ifs at hentry
  · exact (Option.some.inj hentry).symm
  · cases hentry

theorem replicates_iff_child :
    Replicates childLayer encodeChild builtChild emptyChain 0 childHash := by
  refine (replicates_iff childLayer encodeChild builtChild emptyChain 0 childPayload
    (bytesOf childText) rfl rfl rfl (if_pos rfl) ?_).2 ?_
  · intro other entry hentry
    cases hentry
  · intro other entry hentry _
    rw [builtChild_pending hentry]
    exact ⟨rfl, rfl⟩

/-- A peer has sent the block back with an execution payload. -/
def echoedChild : ChainState Unit :=
  builtChild.insertPending { childPayload with executionData := some () }

/-- The proposer may commit the entry of the peer and forward a payload that no
follower forwards. -/
theorem not_forall_replicates :
    ¬ ∀ (layer : ExecutionLayer Unit)
      (encode : ProposedBlockWire Unit → Except String (List U8))
      (proposer follower : ChainState Unit) (id : ℕ) (payload : PendingPayload Unit)
      (bytes : List U8), proposer.pending.get? id = some payload →
      layer.hashSlow payload.header = payload.hash →
      encode (proposedWire payload) = .ok bytes →
      layer.decode bytes = .ok (proposedWire payload) →
      (∀ other entry, follower.pending.get? other = some entry →
        entry.hash ≠ payload.hash) →
      Replicates layer encode proposer follower id payload.hash := by
  intro hreplicates
  have hreplicated := hreplicates childLayer encodeChild echoedChild emptyChain 0
    childPayload (bytesOf childText) rfl rfl rfl (if_pos rfl)
    (fun other entry hentry => by cases hentry)
  have hecho : echoedChild.pending.get? 1 =
      some { childPayload with executionData := some () } := rfl
  obtain ⟨-, hdata⟩ :=
    hreplicated.consistent rfl rfl rfl (if_pos rfl) 1 _ hecho rfl
  cases hdata

end OpenHl.Consensus
