import OpenHl.Consensus.LiveLoop
import OpenHl.Core.MapOf
import OpenHl.Core.ReplicatedLog

/-!
# A validator across restarts

`run_reth_devnet` loads the snapshot that the process before it has written, drives the
loop of the engine application from the head of that snapshot, and writes a new one when
the loop returns, also when it returns an error.  Orders, deposits and forced closes change
the bridge at any time.  A process that is killed leaves the file as it was.

`restarts_continue`: over any number of processes, the committed blocks form one chain on
genesis, at heights that leave none out and use none twice.
-/

namespace OpenHl.Devnet

open Machine SortedMap ReplicatedLog OpenHl.Consensus OpenHl.Evm

/-- What a validator is started with when there is no file. -/
structure DevnetConfig (E H PublicKey : Type) extends LiveConfig E H PublicKey where
  liquidationParams : Liquidation.LiquidationParams

/-- The number of persisted blocks, as a word. -/
def priorDecisions : Option BridgeSnapshot → U64
  | none => 0
  | some snapshot =>
      if hfits : snapshot.chain.entries.length < 2 ^ 64 then ⟨_, hfits⟩ else U64.maxValue

namespace DevnetConfig

variable {E H PublicKey : Type} (config : DevnetConfig E H PublicKey)

/-- The bridge of a process that finds a file, or none. -/
def boot : Option BridgeSnapshot → LiveRethEvmBridge E
  | none => LiveRethEvmBridge.new.withLiquidationParams config.liquidationParams
  | some snapshot =>
      (LiveRethEvmBridge.new.withLiquidationParams config.liquidationParams).loadSnapshot
        snapshot

/-- Where its consensus goes on. -/
def resume (file : Option BridgeSnapshot) : LiveConfig E H PublicKey :=
  { config.toLiveConfig with
    initialParent := (file.bind BridgeSnapshot.head).getD config.initialParent
    initialHeight := (priorDecisions file).saturatingAdd 1 }

end DevnetConfig

section Lifetime

variable {K E H PublicKey : Type} [LinearOrder K]

/-- A process, with the payload id at which its height began and the blocks that it has
committed. -/
structure Lifetime (K E H : Type) [LinearOrder K] where
  loop : LoopState K (LiveRethEvmBridge E) H
  looping : Bool
  opened : ℕ
  committed : List (Committed E)

namespace Lifetime

def progress (life : Lifetime K E H) : Progress K E :=
  { state := life.loop.app, opened := life.opened, committed := life.committed }

def start (config : LiveConfig E H PublicKey) (bridge : LiveRethEvmBridge E) (hook : H) :
    Lifetime K E H :=
  { loop := config.engine.initial bridge hook, looping := true
    opened := bridge.state.nextPayloadId, committed := [] }

/-- Other tasks use the bridge. -/
def traffic (life : Lifetime K E H) (live : LiveBridge) : Lifetime K E H :=
  { life with
    loop := { life.loop with bridge := { life.loop.bridge with toLiveBridge := live } } }

end Lifetime

/-- The block behind what a message has handed on. -/
def committedBlock (node : LiveNode E) (state : ChainState E) (effects : List Effect) :
    Option (Committed E) :=
  (handedOn effects).head?.bind fun handed =>
    ((node.iteration.order state.pending).find? fun entry => entry.hash = handed.hash).map
      fun payload =>
        { hash := handed.hash, height := handed.height, blockTime := handed.blockTime
          payload := payload }

def Lifetime.handled (config : LiveConfig E H PublicKey) (life : Lifetime K E H)
    (msg : EngineMsg K) : Lifetime K E H :=
  let handled := handle config.engine life.loop msg
  let progress := life.progress.advance handled.state.app
    (committedBlock config.node life.loop.bridge.state handled.effects)
  { loop := handled.state, looping := handled.outcome = .ok .continue
    opened := progress.opened, committed := progress.committed }

/-- Peers send blocks on the current parent, and consensus decides, height by height, a
block of the current one. -/
def OrderlyMsg (config : LiveConfig E H PublicKey) (life : Lifetime K E H) :
    EngineMsg K → Prop
  | .getValue _ _ => ∀ built,
      buildPayload config.node.checks config.node.layer config.node.reth
        life.loop.bridge.state life.loop.bridge.pendingFills life.loop.currentParent
        defaultAttrs = .ok built →
      Orderly config.node.checks config.node.layer config.node.reth life.progress
        (.getValue built)
  | .receivedProposalPart key content =>
      Orderly config.node.checks config.node.layer config.node.reth life.progress
        (.receivedProposalPart key content)
  | .decided hash height =>
      Orderly config.node.checks config.node.layer config.node.reth life.progress
          (.decided hash height) ∧
        height.val = config.initialHeight.val + life.committed.length
  | _ => True

inductive LifetimeStep (config : LiveConfig E H PublicKey) :
    Lifetime K E H → Lifetime K E H → Prop
  | traffic (life : Lifetime K E H) (live : LiveBridge) :
      LifetimeStep config life (life.traffic live)
  | message {life : Lifetime K E H} {msg : EngineMsg K} (hlooping : life.looping = true)
      (horderly : OrderlyMsg config life msg) :
      LifetimeStep config life (life.handled config msg)

/-! ## One process -/

variable {config : LiveConfig E H PublicKey} {life : Lifetime K E H} {msg : EngineMsg K}

theorem committedBlock_of_idle {node : LiveNode E} {state : ChainState E}
    {effects : List Effect} (hidle : handedOn effects = []) :
    committedBlock node state effects = none := by
  rw [committedBlock, hidle]
  rfl

theorem committedBlock_of_handed {node : LiveNode E} {state : ChainState E}
    {effects : List Effect} {handed : HandedOn} {payload : PendingPayload E}
    (hhanded : handedOn effects = [handed])
    (hfind : ((node.iteration.order state.pending).find? fun entry =>
      entry.hash = handed.hash) = some payload) :
    committedBlock node state effects =
      some { hash := handed.hash, height := handed.height, blockTime := handed.blockTime
             payload := payload } := by
  rw [committedBlock, hhanded, List.head?_cons, Option.bind_some, hfind]
  rfl

theorem Lifetime.handled_progress {block : Option (Committed E)}
    (hblock : committedBlock config.node life.loop.bridge.state
      (handle config.engine life.loop msg).effects = block) :
    (life.handled config msg).progress =
      life.progress.advance (handle config.engine life.loop msg).state.app block := by
  rw [← hblock]
  cases hcommitted : committedBlock config.node life.loop.bridge.state
      (handle config.engine life.loop msg).effects with
  | none => simp only [Lifetime.handled, hcommitted, Lifetime.progress, Progress.advance]
  | some block =>
      simp only [Lifetime.handled, hcommitted, Lifetime.progress, Progress.advance]

/-- An orderly message that the loop survives is a step of the transition system. -/
theorem growing_handled (hlawful : config.node.reth.Lawful config.node.layer)
    {tip : ChainLink}
    (hgrowing : Growing config.node.layer config.node.reth tip life.progress)
    (horderly : OrderlyMsg config life msg)
    (hgoes : (handle config.engine life.loop msg).outcome = .ok .continue) :
    Growing config.node.layer config.node.reth tip (life.handled config msg).progress := by
  have hstep : ∀ after, OrderlyStep config.node.checks config.node.layer config.node.reth
      life.progress after → Growing config.node.layer config.node.reth tip after :=
    fun _ hstep => hstep.growing hlawful hgrowing
  cases msg with
  | consensusReady => exact hgrowing
  | startedRound height =>
      exact hstep _
        ⟨.startedRound height, _, none, trivial, ⟨.startedRound _ _, nofun⟩, rfl⟩
  | getValue height round =>
      obtain ⟨built, hbuild, hafter⟩ := handleGetValue_goes height round hgoes
      have hprogress : (life.handled config (.getValue height round)).progress =
          life.progress.advance
            (handleGetValue config.engine life.loop height round).state.app none :=
        Lifetime.handled_progress (committedBlock_of_idle
          (handleGetValue_keepsChain height round).idle)
      rw [hprogress, hafter]
      refine hstep _
        ⟨.getValue built, _, none, horderly built hbuild, ⟨.getValue _ built, ?_⟩, rfl⟩
      rintro other hother
      obtain rfl := AppMsg.getValue.inj hother
      exact ⟨_, hbuild⟩
  | extendVote => exact hgrowing
  | verifyVoteExtension => exact hgrowing
  | restreamProposal => exact hgrowing
  | getHistoryMinHeight => exact hgrowing
  | receivedProposalPart key content =>
      obtain ⟨reply, hreceived⟩ := handlePart_goes key content hgoes
      have hprogress : (life.handled config (.receivedProposalPart key content)).progress =
          life.progress.advance (handlePart config.engine life.loop key content).state.app
            none :=
        Lifetime.handled_progress (committedBlock_of_idle
          (handlePart_keepsChain key content).idle)
      rw [hprogress]
      exact hstep _ ⟨.receivedProposalPart key content, _, none, horderly,
        ⟨.part hreceived, nofun⟩, rfl⟩
  | getValidatorSet => exact hgrowing
  | decided hash height =>
      obtain ⟨hstops, -⟩ | ⟨id, payload, blockTime, rfl, htime, hpending, hfind, hhanded, -,
        hafter⟩ := @handleDecided_cases _ _ _ _ _ config life.loop hash height
      · exact absurd hgoes hstops
      · have hprogress : (life.handled config (.decided payload.hash height)).progress =
            life.progress.advance
              (handleDecided config.engine life.loop payload.hash height).state.app _ :=
          Lifetime.handled_progress (committedBlock_of_handed hhanded hfind)
        rw [hprogress, hafter hgoes]
        exact hstep _
          ⟨_, _, some _, horderly.1, ⟨.decided htime hpending, nofun⟩, rfl⟩
  | getDecidedValue => exact hgrowing
  | processSyncedValue => exact hgrowing

/-- The chain of the bridge is what this process and those before it have committed; the
blocks continue `tip`. -/
structure Lifetime.Sound (config : LiveConfig E H PublicKey) (tip : ChainLink)
    (prior : List (Committed E)) (life : Lifetime K E H) : Prop where
  chain : life.loop.bridge.state.chain =
    mapOf Committed.hash (fun block => block.payload.header) (prior ++ life.committed)
  head : life.loop.bridge.state.head =
    (prior ++ life.committed).getLast?.map Committed.hash
  chained : life.progress.Chained tip
  hashes : ∀ block ∈ life.committed,
    config.node.layer.hashSlow block.payload.header = block.hash
  turns : Consecutive (fun block : Committed E => block.height.val)
    config.initialHeight.val life.committed
  growing : life.looping = true →
    Growing config.node.layer config.node.reth tip life.progress

theorem Lifetime.Sound.message (hlawful : config.node.reth.Lawful config.node.layer)
    {tip : ChainLink} {prior : List (Committed E)} (hsound : life.Sound config tip prior)
    (hlooping : life.looping = true) (horderly : OrderlyMsg config life msg) :
    (life.handled config msg).Sound config tip prior := by
  have hgrowing := hsound.growing hlooping
  have hafter : (life.handled config msg).looping = true →
      Growing config.node.layer config.node.reth tip (life.handled config msg).progress :=
    fun hgoes => growing_handled hlawful hgrowing horderly (of_decide_eq_true hgoes)
  obtain hkeeps | ⟨id, payload, height, blockTime, rfl, htime, hpending, hfind, hhanded,
    hbridge, -⟩ := @handle_chain _ _ _ _ _ config life.loop msg
  · have hprogress : (life.handled config msg).progress =
        life.progress.advance (handle config.engine life.loop msg).state.app none :=
      Lifetime.handled_progress (committedBlock_of_idle hkeeps.idle)
    have hcommitted : (life.handled config msg).committed = life.committed :=
      congrArg Progress.committed hprogress
    refine ⟨?_, ?_, ?_, ?_, ?_, hafter⟩
    · rw [hcommitted, ← hsound.chain]
      exact hkeeps.chain
    · rw [hcommitted, ← hsound.head]
      exact hkeeps.head
    · rw [hprogress]
      exact ⟨hsound.chained.links, hsound.chained.times⟩
    · rw [hcommitted]
      exact hsound.hashes
    · rw [hcommitted]
      exact hsound.turns
  · let block : Committed E :=
      { hash := payload.hash, height := height, blockTime := blockTime, payload := payload }
    have hprogress : (life.handled config (.decided payload.hash height)).progress =
        life.progress.advance
          (handle config.engine life.loop (.decided payload.hash height)).state.app
          (some block) :=
      Lifetime.handled_progress (committedBlock_of_handed hhanded hfind)
    have hcommitted : (life.handled config (.decided payload.hash height)).committed =
        life.committed ++ [block] := congrArg Progress.committed hprogress
    have hchain : (life.handled config (.decided payload.hash height)).loop.bridge.state =
        life.loop.bridge.state.commit payload := hbridge
    refine ⟨?_, ?_, ?_, ?_, ?_, hafter⟩
    · rw [hcommitted, hchain, ← List.append_assoc, mapOf_concat, ← hsound.chain]
      rfl
    · rw [hcommitted, hchain, ← List.append_assoc, List.getLast?_concat]
      rfl
    · have hgrown : Growing config.node.layer config.node.reth tip
          (life.progress.advance (decided life.progress.state height payload)
            (some block)) :=
        hgrowing.decided (horderly.1 _ _ hpending rfl) htime hpending
      rw [hprogress]
      exact ⟨hgrown.chained.links, hgrown.chained.times⟩
    · rw [hcommitted]
      intro other hother
      rcases List.mem_append.1 hother with hold | hnew
      · exact hsound.hashes other hold
      · rw [List.mem_singleton.1 hnew]
        exact (hgrowing.pending id payload hpending).2
    · rw [hcommitted]
      exact hsound.turns.append_singleton horderly.2

theorem Lifetime.Sound.traffic {tip : ChainLink} {prior : List (Committed E)}
    (hsound : life.Sound config tip prior) (live : LiveBridge) :
    (life.traffic live).Sound config tip prior :=
  ⟨hsound.chain, hsound.head, ⟨hsound.chained.links, hsound.chained.times⟩, hsound.hashes,
    hsound.turns, hsound.growing⟩

theorem Lifetime.Sound.reaches (hlawful : config.node.reth.Lawful config.node.layer)
    {tip : ChainLink} {prior : List (Committed E)} {start finish : Lifetime K E H}
    (hrun : Relation.ReflTransGen (LifetimeStep config) start finish)
    (hstart : start.Sound config tip prior) : finish.Sound config tip prior := by
  induction hrun with
  | refl => exact hstart
  | tail _ hstep ih =>
      cases hstep with
      | traffic live => exact ih.traffic live
      | message hlooping horderly => exact ih.message hlawful hlooping horderly

end Lifetime

/-! ## All processes -/

section History

variable {E H PublicKey : Type}

/-- What the processes so far have left in the file, and the blocks that they have
committed. -/
inductive History (K : Type) [LinearOrder K] (config : DevnetConfig E H PublicKey) :
    Option BridgeSnapshot → List (Committed E) → Prop
  | fresh : History K config none []
  | process {file : Option BridgeSnapshot} {log : List (Committed E)} {hook : H}
      {life : Lifetime K E H} (hbefore : History K config file log)
      (hrun : Relation.ReflTransGen (LifetimeStep (config.resume file))
        (.start (config.resume file) (config.boot file) hook) life) :
      History K config (some life.loop.bridge.snapshot) (log ++ life.committed)

/-- No two headers share a hash. -/
def CollisionFree (log : List (Committed E)) : Prop :=
  ∀ block ∈ log, ∀ other ∈ log, block.hash = other.hash →
    block.payload.header = other.payload.header

/-- The last block of the log, or genesis. -/
def tip (genesis : ChainLink) (log : List (Committed E)) : ChainLink :=
  (log.getLast?.map Committed.link).getD genesis

variable {config : DevnetConfig E H PublicKey} {genesis : ChainLink}
  {file : Option BridgeSnapshot} {log : List (Committed E)}

theorem isChain_append {committed : List (Committed E)}
    (hlog : (genesis :: log.map Committed.link).IsChain ChainLink.Precedes)
    (hcommitted : (tip genesis log :: committed.map Committed.link).IsChain
      ChainLink.Precedes) :
    (genesis :: (log ++ committed).map Committed.link).IsChain ChainLink.Precedes := by
  rw [List.map_append, ← List.cons_append, List.isChain_append]
  refine ⟨hlog, hcommitted.tail, ?_⟩
  intro last hlast first hfirst
  have htip : last = tip genesis log := by
    rw [List.getLast?_cons, List.getLast?_map, Option.mem_some_iff] at hlast
    exact hlast.symm
  rw [htip]
  exact (List.isChain_cons.1 hcommitted).1 first hfirst

/-- What grows from parent to child grows along the log. -/
theorem pairwise_of_isChain {A : Type*} [Preorder A] (measure : Header → A)
    (hgrows : ∀ parent child : ChainLink, parent.Precedes child →
      measure parent.header < measure child.header)
    (hlog : (genesis :: log.map Committed.link).IsChain ChainLink.Precedes) :
    log.Pairwise fun block later =>
      measure block.payload.header < measure later.payload.header := by
  have hlinks := hlog.tail
  rw [List.tail_cons, List.isChain_map] at hlinks
  rw [← List.pairwise_map (f := fun block : Committed E => measure block.payload.header)
    (R := (· < ·)), ← List.isChain_iff_pairwise, List.isChain_map]
  exact hlinks.imp fun parent child hprecedes => hgrows _ _ hprecedes

/-- Along a chain the numbers grow, so no header comes twice. -/
theorem nodup_hashes (hfree : CollisionFree log)
    (hlog : (genesis :: log.map Committed.link).IsChain ChainLink.Precedes) :
    (log.map Committed.hash).Nodup := by
  have hnumbers : log.Pairwise fun block later =>
      (block.payload.header.number : ℕ) < later.payload.header.number :=
    pairwise_of_isChain (fun header => (header.number : ℕ))
      (fun parent child hprecedes => hprecedes.number ▸ Nat.lt_succ_self _) hlog
  rw [List.Nodup, List.pairwise_map]
  refine hnumbers.imp_of_mem fun hblock hother hlt hsame => ?_
  rw [hfree _ hblock _ hother hsame] at hlt
  exact lt_irrefl _ hlt

/-- The file holds the committed blocks, which form a chain on genesis. -/
structure Recorded (config : DevnetConfig E H PublicKey) (genesis : ChainLink)
    (file : Option BridgeSnapshot) (log : List (Committed E)) : Prop where
  chain : (config.boot file).state.chain =
    mapOf Committed.hash (fun block => block.payload.header) log
  head : file.bind BridgeSnapshot.head = log.getLast?.map Committed.hash
  links : (genesis :: log.map Committed.link).IsChain ChainLink.Precedes
  times : ∀ block ∈ log, block.blockTime = block.payload.header.timestamp
  hashes : ∀ block ∈ log, config.node.layer.hashSlow block.payload.header = block.hash

theorem boot_state (config : DevnetConfig E H PublicKey) (file : Option BridgeSnapshot) :
    (config.boot file).state.pending = SortedMap.empty ∧
      (config.boot file).state.head = file.bind BridgeSnapshot.head := by
  cases file with
  | none => exact ⟨rfl, rfl⟩
  | some snapshot => exact ⟨rfl, rfl⟩

theorem Recorded.initialParent (hrecorded : Recorded config genesis file log)
    (hgenesis : config.initialParent = genesis.hash) :
    (config.resume file).initialParent = (tip genesis log).hash := by
  rw [DevnetConfig.resume, hrecorded.head, hgenesis, tip]
  cases log.getLast? with
  | none => rfl
  | some block => rfl

theorem Recorded.parentHeader (hrecorded : Recorded config genesis file log)
    (hknown : config.node.reth.sealedHeaderByHash genesis.hash =
      .ok (some genesis.header)) :
    parentHeader config.node.reth (config.boot file).state (tip genesis log).hash =
      .ok (some (tip genesis log).header) := by
  rw [Evm.parentHeader, hrecorded.chain]
  cases hlast : log.getLast? with
  | none =>
      rw [List.getLast?_eq_none_iff.1 hlast, mapOf_nil, get?_empty]
      simp only [tip, List.getLast?_nil, Option.map_none, Option.getD_none, hknown]
  | some block =>
      obtain ⟨before, rfl⟩ := List.getLast?_eq_some_iff.1 hlast
      have htip : tip genesis (before ++ [block]) = block.link := by
        rw [tip, List.getLast?_concat]
        rfl
      have hhash : block.link.hash = block.hash := rfl
      rw [htip, get?_mapOf_concat, if_pos hhash]
      rfl

theorem Recorded.sound {K : Type} [LinearOrder K]
    (hrecorded : Recorded config genesis file log)
    (hgenesis : config.initialParent = genesis.hash)
    (hknown : config.node.reth.sealedHeaderByHash genesis.hash =
      .ok (some genesis.header)) (hook : H) :
    (Lifetime.start (config.resume file) (config.boot file) hook : Lifetime K E H).Sound
      (config.resume file) (tip genesis log) log := by
  obtain ⟨hpending, hhead⟩ := boot_state config file
  have hgrowing : Growing config.node.layer config.node.reth (tip genesis log)
      (Progress.initial (config.boot file).state (tip genesis log).hash
        (config.resume file).initialHeight : Progress K E) := by
    apply growing_initial _ hpending
    · rw [hrecorded.chain]
      exact SortedMap.All.mapOf hrecorded.hashes
    · exact hrecorded.parentHeader hknown
  rw [← hrecorded.initialParent hgenesis] at hgrowing
  refine ⟨?_, ?_, hgrowing.chained, nofun, Consecutive.nil, fun _ => hgrowing⟩
  · exact hrecorded.chain.trans (by rw [Lifetime.start, List.append_nil])
  · exact hhead.trans (hrecorded.head.trans (by rw [Lifetime.start, List.append_nil]))

theorem Recorded.process {K : Type} [LinearOrder K] {life : Lifetime K E H}
    (hrecorded : Recorded config genesis file log)
    (hlife : life.Sound (config.resume file) (tip genesis log) log) :
    Recorded config genesis (some life.loop.bridge.snapshot) (log ++ life.committed) := by
  refine ⟨hlife.chain, hlife.head, isChain_append hrecorded.links hlife.chained.links,
    ?_, ?_⟩
  · intro block hblock
    rcases List.mem_append.1 hblock with hold | hnew
    · exact hrecorded.times block hold
    · exact hlife.chained.times block hnew
  · intro block hblock
    rcases List.mem_append.1 hblock with hold | hnew
    · exact hrecorded.hashes block hold
    · exact hlife.hashes block hnew

theorem Recorded.initialHeight (hrecorded : Recorded config genesis file log)
    (hfree : CollisionFree log) (hfits : log.length + 1 < 2 ^ 64) :
    (config.resume file).initialHeight.val = log.length + 1 := by
  have hlength : (config.boot file).state.chain.entries.length = log.length := by
    rw [hrecorded.chain, length_mapOf (nodup_hashes hfree hrecorded.links)]
  have hprior : (priorDecisions file).val = log.length := by
    rw [← hlength]
    cases file with
    | none => rfl
    | some snapshot =>
        change snapshot.chain.entries.length = log.length at hlength
        rw [priorDecisions, dif_pos (by omega)]
        rfl
  change ((priorDecisions file).saturatingAdd 1).val = _
  rw [U64.saturatingAdd_val_of_lt (by rw [hprior]; exact hfits), hprior]
  rfl

theorem CollisionFree.of_append {later : List (Committed E)}
    (hfree : CollisionFree (log ++ later)) : CollisionFree log :=
  fun block hblock other hother =>
    hfree block (List.mem_append_left _ hblock) other (List.mem_append_left _ hother)

theorem History.recorded {K : Type} [LinearOrder K] (hhistory : History K config file log)
    (hlawful : config.node.reth.Lawful config.node.layer)
    (hgenesis : config.initialParent = genesis.hash)
    (hknown : config.node.reth.sealedHeaderByHash genesis.hash =
      .ok (some genesis.header)) :
    Recorded config genesis file log ∧
      (CollisionFree log → log.length + 1 < 2 ^ 64 →
        Consecutive (fun block : Committed E => block.height.val) 1 log) := by
  induction hhistory with
  | fresh =>
      refine ⟨⟨rfl, rfl, List.isChain_singleton _, nofun, nofun⟩, fun _ _ => .nil⟩
  | @process file log hook life hbefore hrun ih =>
      obtain ⟨hrecorded, hheights⟩ := ih
      have hresumed : (config.resume file).node.reth.Lawful (config.resume file).node.layer :=
        hlawful
      have hlife : life.Sound (config.resume file) (tip genesis log) log :=
        Lifetime.Sound.reaches hresumed hrun (hrecorded.sound hgenesis hknown hook)
      refine ⟨hrecorded.process hlife, fun hfree hfits => ?_⟩
      have hfits' : log.length + 1 < 2 ^ 64 := by
        rw [List.length_append] at hfits
        omega
      have hturns := hlife.turns
      rw [hrecorded.initialHeight hfree.of_append hfits', add_comm] at hturns
      exact (hheights hfree.of_append hfits').append hturns

end History

/-- Over any number of processes of a validator, each with any traffic on its bridge and
any end of its loop: if peers send blocks on the current parent, consensus decides in
every process, height by height from the first one asked for, a block of the current
height, and no two headers share a hash, then the blocks of all processes form one chain on
genesis, at the heights from 1 on and with growing times; the file holds just these blocks,
and the next process goes on behind the last one, at the next height. -/
theorem restarts_continue {K E H PublicKey : Type} [LinearOrder K]
    (config : DevnetConfig E H PublicKey)
    (hlawful : config.node.reth.Lawful config.node.layer) (genesis : ChainLink)
    (hgenesis : config.initialParent = genesis.hash)
    (hknown : config.node.reth.sealedHeaderByHash genesis.hash =
      .ok (some genesis.header))
    (file : Option BridgeSnapshot) (log : List (Committed E))
    (hhistory : History K config file log) (hfree : CollisionFree log)
    (hfits : log.length + 1 < 2 ^ 64) :
    (genesis :: log.map Committed.link).IsChain ChainLink.Precedes ∧
      Consecutive (fun block : Committed E => block.height.val) 1 log ∧
      (∀ block ∈ log, block.blockTime = block.payload.header.timestamp) ∧
      (log.Pairwise fun block later => block.blockTime < later.blockTime) ∧
      (∀ hash header, (config.boot file).state.chain.get? hash = some header ↔
        ∃ block ∈ log, block.hash = hash ∧ block.payload.header = header) ∧
      (config.resume file).initialParent = (tip genesis log).hash ∧
      (config.resume file).initialHeight.val = log.length + 1 := by
  obtain ⟨hrecorded, hheights⟩ := hhistory.recorded hlawful hgenesis hknown
  refine ⟨hrecorded.links, hheights hfree hfits, hrecorded.times, ?_, ?_,
    hrecorded.initialParent hgenesis, hrecorded.initialHeight hfree hfits⟩
  · have htimes := pairwise_of_isChain Header.timestamp
      (fun parent child hprecedes => hprecedes.timestamp) hrecorded.links
    refine htimes.imp_of_mem fun hblock hlater hlt => ?_
    rw [hrecorded.times _ hblock, hrecorded.times _ hlater]
    exact hlt
  · intro hash header
    rw [hrecorded.chain]
    exact get?_mapOf_iff hfree hash header

/-- The validator of genesis, asked for one block. -/
def childDevnet : DevnetConfig Unit ℕ U8 :=
  { childLiveConfig with liquidationParams := .hyperliquidDefault }

/-- After the block on genesis the next process goes on at height 2. -/
theorem restarts_continue_child :
    ∃ file log, History ℕ childDevnet file log ∧
      (childDevnet.resume file).initialParent = childHash ∧
      (childDevnet.resume file).initialHeight.val = 2 := by
  let fresh : Lifetime ℕ Unit ℕ :=
    .start (childDevnet.resume none) (childDevnet.boot none) 0
  let built := fresh.handled (childDevnet.resume none) (.getValue 1 (some 0))
  let decided := built.handled (childDevnet.resume none) (.decided childHash 1)
  have hbuild : LifetimeStep (childDevnet.resume none) fresh built :=
    .message rfl fun _ _ => ⟨nofun, genesis_continues⟩
  have hdecide : LifetimeStep (childDevnet.resume none) built decided :=
    .message rfl ⟨fun id _ _ _ => Nat.zero_le id, rfl⟩
  have hhistory : History ℕ childDevnet (some decided.loop.bridge.snapshot)
      ([] ++ decided.committed) :=
    .process .fresh ((Relation.ReflTransGen.single hbuild).tail hdecide)
  have hcommitted : decided.committed =
      [{ hash := childHash, height := 1, blockTime := 1, payload := childPayload }] := rfl
  have hfree : CollisionFree ([] ++ decided.committed) := by
    rw [hcommitted]
    intro block hblock other hother _
    rw [List.nil_append, List.mem_singleton] at hblock hother
    rw [hblock, hother]
  obtain ⟨-, -, -, -, -, hparent, hheight⟩ := restarts_continue childDevnet
    (genesisNode_lawful rfl) { hash := defaultHash, header := defaultHeader } rfl rfl _ _
    hhistory hfree (by rw [hcommitted]; decide)
  exact ⟨_, _, hhistory, hparent, hheight⟩

end OpenHl.Devnet
