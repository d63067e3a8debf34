import OpenHl.Consensus.EngineApp
import OpenHl.Evm.Payload

/-!
# The committed chain

What the engine application hands to `on_committed`, over whole runs: payloads
built on the current parent, blocks registered from peers, and decisions.
Neither the loop nor `commit` looks at the parent of a decided block, so whether
the committed blocks form a chain rests on what peers send and on which pending
block is decided.

`engineRun_chained`: they do, when every registered wire is a child of the
receiver's current parent with its header's time, every build can count on from
that parent, and no decision falls on a payload that was already pending when it
was committed.
-/

namespace OpenHl.Consensus

open Machine OpenHl.Evm

/-- A block as its child refers to it. -/
structure ChainLink where
  hash : BlockHash
  header : Header

def ChainLink.Precedes (parent child : ChainLink) : Prop :=
  child.header.IsChildOf parent.hash parent.header

def defaultAttrs : PayloadAttrs := { timestamp := 0, feeRecipient := 0, prevRandao := 0 }

section Run

variable {K E : Type} [LinearOrder K]

def Committed.link (block : Committed E) : ChainLink :=
  { hash := block.hash, header := block.payload.header }

/-- The application together with its history: the payload id at which its
current height began, and the blocks it has handed to `on_committed`. -/
structure Progress (K E : Type) [LinearOrder K] where
  state : AppState K E
  opened : ℕ
  committed : List (Committed E)

def Progress.initial (bridge : ChainState E) (parent : BlockHash)
    (height : OpenHlHeight) : Progress K E :=
  { state := .initial bridge parent height, opened := bridge.nextPayloadId
    committed := [] }

def Progress.advance (progress : Progress K E) (after : AppState K E) :
    Option (Committed E) → Progress K E
  | none => { progress with state := after }
  | some block =>
      { state := after, opened := after.bridge.nextPayloadId
        committed := progress.committed ++ [block] }

/-- The chain below and including the last committed block. -/
def Progress.links (progress : Progress K E) (genesis : ChainLink) : List ChainLink :=
  genesis :: progress.committed.map Committed.link

/-- The committed blocks continue `genesis`, each handed over with the time of
its header. -/
structure Progress.Chained (progress : Progress K E) (genesis : ChainLink) :
    Prop where
  links : (progress.links genesis).IsChain ChainLink.Precedes
  times : ∀ block ∈ progress.committed,
    block.blockTime = block.payload.header.timestamp

variable (checks : U64.OverflowChecks) (layer : ExecutionLayer E) (reth : RethNode E)

/-- A message answered by the loop over the live bridge: what it proposes itself
is what `build_payload` makes on the current parent. -/
def EngineStep (before : AppState K E) (msg : AppMsg K E) (after : AppState K E)
    (committed : Option (Committed E)) : Prop :=
  AppStep layer before msg after committed ∧
    ∀ built, msg = .getValue built → ∃ fills,
      buildPayload checks layer reth before.bridge fills before.currentParent
        defaultAttrs = .ok built

def Advances (before after : Progress K E) : Prop :=
  ∃ msg state committed, EngineStep checks layer reth before.state msg state committed ∧
    after = before.advance state committed

/-! ## Orderly messages -/

/-- No pending payload has the hash of `header` and another header. -/
def NoCollision (bridge : ChainState E) (hash : B256) (header : Header) : Prop :=
  ∀ id payload, bridge.pending.get? id = some payload → payload.hash = hash →
    payload.header = header

/-- A peer's wire has its header's time and continues the current parent. -/
structure OrderlyWire (state : AppState K E) (wire : ProposedBlockWire E) : Prop where
  timestamp : wire.block.timestamp = wire.header.timestamp
  fresh : NoCollision state.bridge wire.block.hash wire.header
  child : ∃ parent, parentHeader reth state.bridge state.currentParent =
    .ok (some parent) ∧ wire.header.IsChildOf state.currentParent parent

/-- The message is in order at this point of the run: a registered wire continues
the current parent, a build can count on from the header that the chain or else the
node has of it, and a decision falls on payloads of the current height only. -/
def Orderly (progress : Progress K E) : AppMsg K E → Prop
  | .startedRound _ => True
  | .getValue built =>
      NoCollision progress.state.bridge built.hash built.header ∧
        ∀ parent, parentHeader reth progress.state.bridge progress.state.currentParent =
          .ok (some parent) → reth.Continues checks layer parent
  | .receivedProposalPart key content =>
      ∀ part wire, completedPart progress.state key content = some part →
        layer.decode part.blockBytes = .ok wire → OrderlyWire reth progress.state wire
  | .decided hash _ =>
      ∀ id payload, progress.state.bridge.pending.get? id = some payload →
        payload.hash = hash → progress.opened ≤ id

def OrderlyStep (before after : Progress K E) : Prop :=
  ∃ msg state committed, Orderly checks layer reth before msg ∧
    EngineStep checks layer reth before.state msg state committed ∧
    after = before.advance state committed

/-! ## The invariant -/

/-- The committed blocks form a chain that ends at the current parent, and every
payload of the current height continues it. -/
structure Growing (genesis : ChainLink) (progress : Progress K E) : Prop where
  chained : progress.Chained genesis
  tip : ∃ link ∈ (progress.links genesis).getLast?,
    link.hash = progress.state.currentParent ∧
      parentHeader reth progress.state.bridge progress.state.currentParent =
        .ok (some link.header)
  hashes : progress.state.bridge.chain.All fun hash header =>
    layer.hashSlow header = hash
  pending : progress.state.bridge.pending.All fun id payload =>
    id < progress.state.bridge.nextPayloadId ∧
      layer.hashSlow payload.header = payload.hash
  children : progress.state.bridge.pending.All fun id payload =>
    progress.opened ≤ id → ∀ header,
      parentHeader reth progress.state.bridge progress.state.currentParent =
        .ok (some header) →
      payload.header.IsChildOf progress.state.currentParent header
  times : progress.state.bridge.pending.All fun _ payload =>
    ∀ time, progress.state.blockTimes.get? payload.hash = some time →
      time = payload.header.timestamp

variable {checks layer reth}

/-- Storing a child of the current parent, with its header's time, keeps the
invariant. -/
theorem Growing.insertPending {genesis : ChainLink} {progress : Progress K E}
    (hgrowing : Growing layer reth genesis progress) {payload : PendingPayload E}
    (hhash : layer.hashSlow payload.header = payload.hash)
    (hunique : NoCollision progress.state.bridge payload.hash payload.header)
    (hchild : ∀ header,
      parentHeader reth progress.state.bridge progress.state.currentParent =
        .ok (some header) →
      payload.header.IsChildOf progress.state.currentParent header)
    (streams : SortedMap K InProgressStream) :
    Growing layer reth genesis { progress with
      state := { progress.state with
        bridge := progress.state.bridge.insertPending payload
        streams := streams
        blockTimes := progress.state.blockTimes.insert payload.hash
          payload.header.timestamp } } := by
  refine ⟨⟨hgrowing.chained.links, hgrowing.chained.times⟩, hgrowing.tip,
    hgrowing.hashes, ?_, ?_, ?_⟩
  · refine SortedMap.All.insert ?_ ⟨Nat.lt_succ_self _, hhash⟩
    intro id other hother
    have hold := hgrowing.pending id other hother
    exact ⟨Nat.lt_succ_of_lt hold.1, hold.2⟩
  · exact hgrowing.children.insert fun _ => hchild
  · intro id other hother time htime
    rw [ChainState.get?_insertPending] at hother
    rw [SortedMap.get?_insert] at htime
    split_ifs at hother htime with hid hsame hsame
    · rw [Option.some.injEq] at hother htime
      rw [← htime, hother]
    · rw [Option.some.injEq] at hother
      exact absurd (by rw [hother]) hsame
    · rw [Option.some.injEq] at htime
      rw [← htime, hunique id other hother hsame]
    · exact hgrowing.times id other hother time htime

theorem Growing.part {genesis : ChainLink} {progress : Progress K E}
    (hgrowing : Growing layer reth genesis progress) {key : K} {content : StreamContent}
    (horderly : Orderly checks layer reth progress (.receivedProposalPart key content))
    {after : AppState K E} {reply : Option ProposedValue}
    (hpart : receivedProposalPart layer progress.state key content = .ok (after, reply)) :
    Growing layer reth genesis { progress with state := after } := by
  obtain ⟨-, -, rfl⟩ | ⟨part, wire, hcompleted, hdecode, hhash, rfl, -⟩ :=
    receivedProposalPart_eq_ok hpart
  · exact ⟨⟨hgrowing.chained.links, hgrowing.chained.times⟩, hgrowing.tip,
      hgrowing.hashes, hgrowing.pending, hgrowing.children, hgrowing.times⟩
  · have hwire := horderly part wire hcompleted hdecode
    obtain ⟨parent, hparent, hchild⟩ := hwire.child
    rw [hwire.timestamp]
    refine hgrowing.insertPending hhash hwire.fresh ?_ _
    intro header hheader
    rw [hparent, Except.ok.injEq, Option.some.injEq] at hheader
    rwa [← hheader]

/-- Committing a payload of the current height extends the chain by it. -/
theorem Growing.decided {genesis : ChainLink} {progress : Progress K E}
    (hgrowing : Growing layer reth genesis progress) {height : OpenHlHeight}
    {blockTime : U64} {id : ℕ} {payload : PendingPayload E}
    (hopened : progress.opened ≤ id)
    (htime : progress.state.blockTimes.get? payload.hash = some blockTime)
    (hpending : progress.state.bridge.pending.get? id = some payload) :
    Growing layer reth genesis (progress.advance
      (OpenHl.Consensus.decided progress.state height payload)
      (some { hash := payload.hash, height := height, blockTime := blockTime
              payload := payload })) := by
  obtain ⟨link, hlast, hhash, hheader⟩ := hgrowing.tip
  have hstored := hgrowing.pending id payload hpending
  have hblockTime := hgrowing.times id payload hpending blockTime htime
  have hchild := hgrowing.children id payload hpending hopened link.header hheader
  have hcommitted : (progress.state.bridge.commit payload).chain.get? payload.hash =
      some payload.header := by
    rw [ChainState.commit, SortedMap.get?_insert, if_pos rfl]
  refine ⟨⟨?_, ?_⟩, ?_, hgrowing.hashes.insert hstored.2, hgrowing.pending, ?_, ?_⟩
  · rw [Progress.links, Progress.advance, List.map_append, ← List.cons_append,
      List.isChain_append]
    refine ⟨hgrowing.chained.links, List.isChain_singleton _, ?_⟩
    intro last hmem child hchildMem
    rw [Option.mem_unique hmem hlast]
    rw [List.map_singleton, List.head?_cons, Option.mem_some_iff] at hchildMem
    rw [← hchildMem, ChainLink.Precedes, hhash]
    exact hchild
  · intro block hmem
    rcases List.mem_append.1 hmem with hold | hnew
    · exact hgrowing.chained.times block hold
    · rw [List.mem_singleton] at hnew
      rw [hnew]
      exact hblockTime
  · refine ⟨{ hash := payload.hash, header := payload.header }, ?_, rfl, ?_⟩
    · rw [Progress.links, Progress.advance, List.map_append, ← List.cons_append,
        List.getLast?_append]
      rfl
    · rw [parentHeader]
      simp only [Progress.advance, OpenHl.Consensus.decided, hcommitted]
  · -- nothing has been stored yet at the height that opens now
    intro other waiting hwaiting hopen
    exact absurd (hgrowing.pending other waiting hwaiting).1 (not_lt.2 hopen)
  · intro other waiting hwaiting time hget
    exact hgrowing.times other waiting hwaiting time
      (SortedMap.get?_of_get?_erase hget)

theorem OrderlyStep.growing (hlawful : reth.Lawful layer) {genesis : ChainLink}
    {before after : Progress K E} (hstep : OrderlyStep checks layer reth before after)
    (hgrowing : Growing layer reth genesis before) :
    Growing layer reth genesis after := by
  obtain ⟨msg, state, committed, horderly, ⟨hstep, hbuilt⟩, rfl⟩ := hstep
  cases hstep with
  | startedRound height =>
      exact ⟨⟨hgrowing.chained.links, hgrowing.chained.times⟩, hgrowing.tip,
        hgrowing.hashes, hgrowing.pending, hgrowing.children, hgrowing.times⟩
  | getValue built =>
      obtain ⟨fills, hbuild⟩ := hbuilt built rfl
      obtain ⟨hunique, hcontinues⟩ := horderly
      obtain ⟨parent, hparent, hchild⟩ :=
        buildPayload_isChildOf hlawful hgrowing.hashes hbuild
      refine hgrowing.insertPending (buildPayload_attrs hlawful hbuild).1 hunique ?_ _
      intro header hheader
      rw [hparent, Except.ok.injEq, Option.some.injEq] at hheader
      rw [← hheader]
      exact hchild (hcontinues parent hparent)
  | part hpart => exact hgrowing.part horderly hpart
  | decided htime hpending =>
      exact hgrowing.decided (horderly _ _ hpending rfl) htime hpending

theorem growing_initial {bridge : ChainState E} {parent : BlockHash} {header : Header}
    (height : OpenHlHeight) (hempty : bridge.pending = SortedMap.empty)
    (hchain : bridge.chain.All fun hash header => layer.hashSlow header = hash)
    (hparent : parentHeader reth bridge parent = .ok (some header)) :
    Growing layer reth { hash := parent, header := header }
      (Progress.initial bridge parent height : Progress K E) := by
  refine ⟨⟨List.isChain_singleton _, fun block hmem => by cases hmem⟩,
    ⟨_, rfl, rfl, hparent⟩, hchain, ?_, ?_, ?_⟩
  all_goals
    rw [Progress.initial, AppState.initial, hempty]
    exact SortedMap.All.empty

theorem growing_of_reaches (hlawful : reth.Lawful layer) {genesis : ChainLink}
    {start finish : Progress K E}
    (hreaches : Relation.ReflTransGen (OrderlyStep checks layer reth) start finish)
    (hstart : Growing layer reth genesis start) :
    Growing layer reth genesis finish := by
  induction hreaches with
  | refl => exact hstart
  | tail _ hstep ih => exact hstep.growing hlawful ih

end Run

/-- In every run whose messages are in order, the committed blocks are a chain on
the initial parent: hash by hash, number by number, with strictly increasing
header times, which are the times handed to the coordinator. -/
theorem engineRun_chained {K E : Type} [LinearOrder K] (checks : U64.OverflowChecks)
    (layer : ExecutionLayer E) (reth : RethNode E) (hlawful : reth.Lawful layer)
    (bridge : ChainState E)
    (hempty : bridge.pending = SortedMap.empty)
    (hchain : bridge.chain.All fun hash header => layer.hashSlow header = hash)
    (parent : BlockHash) (header : Header)
    (hparent : parentHeader reth bridge parent = .ok (some header))
    (height : OpenHlHeight) (finish : Progress K E)
    (hrun : Relation.ReflTransGen (OrderlyStep checks layer reth)
      (Progress.initial bridge parent height) finish) :
    finish.Chained { hash := parent, header := header } :=
  (growing_of_reaches hlawful hrun
    (growing_initial height hempty hchain hparent)).chained

/-! ## Runs on the default header -/

/-- A node that knows the default header as its genesis and has no payload
builder. -/
def genesisNode : RethNode Unit :=
  { sealedHeaderByHash := fun hash =>
      .ok (if hash = defaultHash then some defaultHeader else none)
    nextBlockBaseFee := fun _ _ => none
    payloadBuilder := none }

/-- The header that the bridge synthesizes on the default one. -/
def childHeader : Header :=
  { defaultHeader with parentHash := defaultHash, number := 1, timestamp := 1 }

/-- Its Keccak hash. -/
def childHash : B256 :=
  0xbfa146711b00ab85fc45a140abe68dd9428eb6ac5e7c88714e3d985447a58ccf

def childPayload : PendingPayload Unit :=
  { hash := childHash, header := childHeader, fills := [], executionData := none }

/-- The hash function as it acts on these two headers. -/
def chainLayer : ExecutionLayer Unit :=
  { strayLayer with
    hashSlow := fun header => if header = childHeader then childHash else defaultHash }

theorem genesisNode_lawful {layer : ExecutionLayer Unit}
    (hhash : layer.hashSlow defaultHeader = defaultHash) : genesisNode.Lawful layer where
  sealed hash header hsealed := by
    simp only [genesisNode, Except.ok.injEq] at hsealed
    split_ifs at hsealed with hequal
    rw [← Option.some.inj hsealed, hequal, hhash]
  builds builder parent attributes built hbuilder := by cases hbuilder

/-- Without a payload builder only the words of the header matter. -/
theorem genesisNode_continues {checks : U64.OverflowChecks} {layer : ExecutionLayer Unit}
    {header : Header} (hfits : checks = .off →
      header.number.val + 1 < 2 ^ 64 ∧ header.timestamp.val + 1 < 2 ^ 64) :
    genesisNode.Continues checks layer header where
  numbers builder attributes built hbuilder := by cases hbuilder
  fits := hfits

theorem genesis_continues {checks : U64.OverflowChecks} {layer : ExecutionLayer Unit}
    (parent : Header)
    (hparent : parentHeader genesisNode emptyChain defaultHash = .ok (some parent)) :
    genesisNode.Continues checks layer parent := by
  obtain rfl : defaultHeader = parent := Option.some.inj (Except.ok.inj hparent)
  exact genesisNode_continues fun _ => by decide

/-- The application before its first message, on the default header. -/
def genesisProgress : Progress ℕ Unit := Progress.initial emptyChain defaultHash 1

/-- The validator builds a block on genesis and consensus decides it. -/
theorem engineRun_chained_child :
    ∃ finish : Progress ℕ Unit, finish.committed.map Committed.hash = [childHash] ∧
      finish.Chained { hash := defaultHash, header := defaultHeader } := by
  have hbuild : OrderlyStep .off chainLayer genesisNode genesisProgress
      (genesisProgress.advance (getValue genesisProgress.state childPayload) none) :=
    ⟨.getValue childPayload, _, none,
      ⟨fun id payload hget => (by cases hget), genesis_continues⟩,
      ⟨.getValue _ childPayload, fun built hbuilt => ⟨[], by cases hbuilt; rfl⟩⟩, rfl⟩
  have htime : (getValue genesisProgress.state childPayload).blockTimes.get?
      childPayload.hash = some 1 := rfl
  have hpending : (getValue genesisProgress.state childPayload).bridge.pending.get? 0 =
      some childPayload := rfl
  have hdecide := (⟨.decided childHash 1, _, _, fun id payload _ _ => Nat.zero_le id,
    ⟨.decided htime hpending, fun built hbuilt => (by cases hbuilt)⟩, rfl⟩ :
    OrderlyStep .off chainLayer genesisNode (genesisProgress.advance
      (getValue genesisProgress.state childPayload) none) _)
  exact ⟨_, rfl, engineRun_chained .off chainLayer genesisNode (genesisNode_lawful rfl)
    emptyChain rfl SortedMap.All.empty defaultHash defaultHeader rfl 1 _
    ((Relation.ReflTransGen.single hbuild).tail hdecide)⟩

/-- Two messages of a peer are enough to register any block that the bridge
accepts. -/
theorem advances_deliver {K E : Type} [LinearOrder K] (checks : U64.OverflowChecks)
    {layer : ExecutionLayer E} (reth : RethNode E) {progress : Progress K E} (key : K)
    (hfree : progress.state.streams.get? key = none) {part : OpenHlProposalPart}
    {block : ExecutedBlock} {bridge : ChainState E}
    (haccept : registerProposedBlock layer progress.state.bridge part.blockBytes =
      .ok (block, bridge)) :
    ∃ streams, Relation.ReflTransGen (Advances checks layer reth) progress
      { progress with
        state := { progress.state with
          bridge := bridge
          streams := streams
          blockTimes :=
            progress.state.blockTimes.insert block.hash block.timestamp } } := by
  let stream : InProgressStream := { data := some part, finSeen := false }
  let buffered : AppState K E :=
    { progress.state with streams := progress.state.streams.insert key stream }
  have hstored : buffered.streams.get? key = some stream := by
    rw [SortedMap.get?_insert, if_pos rfl]
  have hdata : receivedProposalPart layer progress.state key (.data part) =
      .ok (buffered, none) := by
    rw [receivedProposalPart, hfree]
    rfl
  have hcompleted : completedPart buffered key .fin = some part := by
    rw [completedPart, hstored]
    rfl
  have hfin : receivedProposalPart layer buffered key .fin = .ok (_, _) :=
    (receivedProposalPart_of_completedPart hcompleted).trans (by rw [haccept])
  have hbuffers : Advances checks layer reth progress { progress with state := buffered } :=
    ⟨_, buffered, none, ⟨.part hdata, fun built hbuilt => by cases hbuilt⟩, rfl⟩
  exact ⟨_, (Relation.ReflTransGen.single hbuffers).tail ⟨_, _, none,
    ⟨.part hfin, fun built hbuilt => by cases hbuilt⟩, rfl⟩⟩

/-- A part that carries the wire of the genesis header. -/
def genesisPart : OpenHlProposalPart :=
  { strayPart with blockBytes := bytesOf (wireText "0") }

def genesisPayload : PendingPayload Unit :=
  { hash := defaultHash, header := defaultHeader, fills := [], executionData := none }

/-- A peer sends the genesis header itself, and consensus decides it: the
committed block is not a child of the block before it. -/
theorem not_forall_engineRun_chained :
    ¬ ∀ (checks : U64.OverflowChecks) (layer : ExecutionLayer Unit)
      (reth : RethNode Unit) (bridge : ChainState Unit) (parent : BlockHash)
      (header : Header) (height : OpenHlHeight) (finish : Progress ℕ Unit),
      reth.Lawful layer → (∀ header, reth.Continues checks layer header) →
      bridge.pending = SortedMap.empty →
      (bridge.chain.All fun hash header => layer.hashSlow header = hash) →
      parentHeader reth bridge parent = .ok (some header) →
      Relation.ReflTransGen (Advances checks layer reth)
        (Progress.initial bridge parent height) finish →
      finish.Chained { hash := parent, header := header } := by
  intro hchained
  have haccept : registerProposedBlock (defaultLayer (wireText "0") (wireAt 0))
      genesisProgress.state.bridge genesisPart.blockBytes = .ok (_, _) :=
    defaultLayer_accepts (wireText "0") 0
  obtain ⟨streams, hregistered⟩ := advances_deliver .on genesisNode 0 rfl haccept
  let registered : Progress ℕ Unit :=
    { genesisProgress with
      state := { genesisProgress.state with
        bridge := emptyChain.insertPending genesisPayload
        streams := streams
        blockTimes := SortedMap.empty.insert defaultHash 0 } }
  have htime : registered.state.blockTimes.get? genesisPayload.hash = some 0 := rfl
  have hpending : registered.state.bridge.pending.get? 0 = some genesisPayload := rfl
  have hdecide : Advances .on (defaultLayer (wireText "0") (wireAt 0)) genesisNode
      registered (registered.advance (decided registered.state 1 genesisPayload)
        (some { hash := defaultHash, height := 1, blockTime := 0
                payload := genesisPayload })) :=
    ⟨_, _, _, ⟨.decided htime hpending, fun built hbuilt => by cases hbuilt⟩, rfl⟩
  have hlinks := (hchained .on _ genesisNode emptyChain defaultHash defaultHeader 1 _
    (genesisNode_lawful rfl) (fun _ => genesisNode_continues fun hoff => by cases hoff) rfl
    SortedMap.All.empty rfl (hregistered.tail hdecide)).links
  have hparent := (List.isChain_cons_cons.1 hlinks).1.parentHash
  revert hparent
  decide

end OpenHl.Consensus
