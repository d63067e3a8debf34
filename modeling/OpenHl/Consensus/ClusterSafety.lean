import OpenHl.Consensus.Cluster
import OpenHl.Consensus.Replication

/-!
# Safety of the cluster

`cluster_safe`: the validators hand on the same blocks with the same times, as far as each
has come, and the blocks of each form a chain on the common genesis.
-/

namespace OpenHl.Consensus

open Machine OpenHl.Evm ReplicatedLog

section Safety

variable {P E PublicKey : Type} [LinearOrder P]

/-- What a committed block shows to the coordinator, with its header. -/
def Committed.handed (block : Committed E) : BlockHash × OpenHlHeight × U64 × Header :=
  (block.hash, block.height, block.blockTime, block.payload.header)

/-- The committed blocks of one validator stand at consecutive heights and form a chain
that ends at its current parent. -/
structure Settled (layer : ExecutionLayer E) (reth : RethNode E) (genesis : ChainLink)
    (start : OpenHlHeight) {K : Type} [LinearOrder K] (progress : Progress K E) :
    Prop where
  heights : Consecutive (fun block => block.height.val) start.val progress.committed
  current : progress.state.currentHeight.val =
    min (2 ^ 64 - 1) (start.val + progress.committed.length)
  hashes : progress.state.bridge.chain.All fun hash header =>
    layer.hashSlow header = hash
  chained : progress.Chained genesis
  tip : ∃ link ∈ (progress.links genesis).getLast?,
    link.hash = progress.state.currentParent ∧
      parentHeader reth progress.state.bridge progress.state.currentParent =
        .ok (some link.header)

/-- The proposal continues genesis at the first height, or a block that some validator
has committed at the height below. -/
def Proposal.Extends (proposal : Proposal P E) (genesis : ChainLink)
    (start : OpenHlHeight) (cluster : Cluster P E) : Prop :=
  ∃ parent : ChainLink, proposal.payload.header.IsChildOf parent.hash parent.header ∧
    ((proposal.height = start ∧ parent = genesis) ∨
      ∃ party, ∃ block ∈ cluster.committed party,
        block.height.val + 1 = proposal.height.val ∧ parent = block.link)

structure Safe (deployment : Deployment P E PublicKey) (genesis : ChainLink)
    (start : OpenHlHeight) (cluster : Cluster P E) : Prop where
  provenance : Provenance deployment cluster
  settled : ∀ party, Settled deployment.layer (deployment.reth party) genesis start
    (cluster.validators party).progress
  hashes : ∀ proposal ∈ cluster.proposals,
    deployment.layer.hashSlow proposal.payload.header = proposal.payload.hash
  extend : ∀ proposal ∈ cluster.proposals, proposal.Extends genesis start cluster
  proposed : ∀ party, ∀ block ∈ cluster.committed party, ∃ proposal ∈ cluster.proposals,
    proposal.height = block.height ∧ proposal.payload.hash = block.hash ∧
      proposal.payload.header = block.payload.header
  agree : ∀ party, ∀ block ∈ cluster.committed party, ∀ other,
    ∀ block' ∈ cluster.committed other, block.height = block'.height →
      block.hash = block'.hash

theorem saturatingAdd_one_val (height : U64) :
    (height.saturatingAdd 1).val = min (2 ^ 64 - 1) (height.val + 1) := by
  have hlt := height.isLt
  have hone : (1 : U64).val = 1 := rfl
  rw [U64.saturatingAdd, U64.saturate, hone]
  change (max 0 (min (2 ^ 64 - 1) ((height.val : ℤ) + 1))).toNat = _
  omega

/-! ## One validator -/

section Settled

variable {K : Type} [LinearOrder K] {layer : ExecutionLayer E} {reth : RethNode E}
  {genesis : ChainLink} {start : OpenHlHeight} {progress : Progress K E}

/-- The height at which the engine works is the next one. -/
theorem Settled.height_eq (hsettled : Settled layer reth genesis start progress)
    {height : OpenHlHeight} (hcurrent : height = progress.state.currentHeight)
    (hopen : ∀ block ∈ progress.committed, block.height ≠ height) :
    height.val = start.val + progress.committed.length := by
  have hmin := hsettled.current
  rw [← hcurrent] at hmin
  by_cases hfits : start.val + progress.committed.length ≤ 2 ^ 64 - 1
  · rw [hmin, min_eq_right hfits]
  · -- the heights are used up: the largest one has been decided already
    have hstart := start.isLt
    obtain ⟨block, hmem, hheight⟩ := @Consecutive.exists_mem _ _ _ _ hsettled.heights
      (2 ^ 64 - 1) (by omega) (by omega)
    exact absurd (Fin.ext (by omega)) (hopen block hmem)

/-- The tip is genesis, or the last block that was committed. -/
theorem Settled.tip_cases (hsettled : Settled layer reth genesis start progress) :
    ∃ link : ChainLink, link.hash = progress.state.currentParent ∧
      parentHeader reth progress.state.bridge progress.state.currentParent =
        .ok (some link.header) ∧
      ((progress.committed = [] ∧ link = genesis) ∨
        ∃ block ∈ progress.committed, link = block.link ∧
          block.height.val + 1 = start.val + progress.committed.length) ∧
      link ∈ (progress.links genesis).getLast? := by
  obtain ⟨link, hlast, hhash, hheader⟩ := hsettled.tip
  refine ⟨link, hhash, hheader, ?_, hlast⟩
  rcases List.eq_nil_or_concat progress.committed with hnil | ⟨earlier, block, hconcat⟩
  · rw [Progress.links, hnil, List.map_nil, List.getLast?_singleton,
      Option.mem_some_iff] at hlast
    exact .inl ⟨hnil, hlast.symm⟩
  · have hblock : block ∈ progress.committed.getLast? := by
      rw [hconcat, List.concat_eq_append, List.getLast?_concat, Option.mem_some_iff]
    rw [Progress.links, hconcat, List.concat_eq_append, List.map_append, List.map_singleton,
      ← List.cons_append, List.getLast?_concat, Option.mem_some_iff] at hlast
    exact .inr ⟨block, List.mem_of_mem_getLast? hblock, hlast.symm,
      hsettled.heights.getLast hblock⟩

/-- A step that commits nothing leaves the chain where it was. -/
theorem Settled.withState (hsettled : Settled layer reth genesis start progress)
    {after : AppState K E} (hchain : after.bridge.chain = progress.state.bridge.chain)
    (hparent : after.currentParent = progress.state.currentParent)
    (hheight : after.currentHeight = progress.state.currentHeight) :
    Settled layer reth genesis start { progress with state := after } where
  heights := hsettled.heights
  current := by
    rw [hheight]
    exact hsettled.current
  hashes := by
    rw [hchain]
    exact hsettled.hashes
  chained := ⟨hsettled.chained.links, hsettled.chained.times⟩
  tip := by
    obtain ⟨link, hlast, htip⟩ := hsettled.tip
    refine ⟨link, hlast, ?_⟩
    rw [parentHeader, hparent, hchain]
    exact htip

/-- A part changes neither the committed chain nor its end. -/
theorem receivedProposalPart_chain {state after : AppState K E} {key : K}
    {content : StreamContent} {reply : Option ProposedValue}
    (hpart : receivedProposalPart layer state key content = .ok (after, reply)) :
    after.bridge.chain = state.bridge.chain ∧ after.currentParent = state.currentParent ∧
      after.currentHeight = state.currentHeight := by
  obtain ⟨-, -, rfl⟩ | ⟨part, wire, -, -, -, rfl, -⟩ := receivedProposalPart_eq_ok hpart
  · exact ⟨rfl, rfl, rfl⟩
  · exact ⟨rfl, rfl, rfl⟩

/-- Committing a child of the tip at the next height. -/
theorem Settled.decided (hsettled : Settled layer reth genesis start progress)
    {height : OpenHlHeight}
    (hheight : height.val = start.val + progress.committed.length)
    {payload : PendingPayload E} {blockTime : U64}
    (hhash : layer.hashSlow payload.header = payload.hash)
    (htime : blockTime = payload.header.timestamp) {tip : ChainLink}
    (htip : tip ∈ (progress.links genesis).getLast?)
    (hchild : payload.header.IsChildOf tip.hash tip.header) :
    Settled layer reth genesis start (progress.advance
      (OpenHl.Consensus.decided progress.state height payload)
      (some { hash := payload.hash, height := height, blockTime := blockTime
              payload := payload })) where
  heights := hsettled.heights.append_singleton hheight
  current := by
    change (height.saturatingAdd 1).val = min (2 ^ 64 - 1)
      (start.val + (progress.committed ++ [_]).length)
    rw [List.length_append, List.length_singleton, ← Nat.add_assoc, ← hheight,
      saturatingAdd_one_val]
  hashes := hsettled.hashes.insert hhash
  chained := by
    constructor
    · rw [Progress.links, Progress.advance, List.map_append, ← List.cons_append,
        List.isChain_append]
      refine ⟨hsettled.chained.links, List.isChain_singleton _, ?_⟩
      intro last hlast child hfirst
      rw [Option.mem_unique hlast htip]
      rw [List.map_singleton, List.head?_cons, Option.mem_some_iff] at hfirst
      rw [← hfirst]
      exact hchild
    · intro block hmem
      rcases List.mem_append.1 hmem with hold | hnew
      · exact hsettled.chained.times block hold
      · rw [List.mem_singleton.1 hnew]
        exact htime
  tip := by
    refine ⟨{ hash := payload.hash, header := payload.header }, ?_, rfl, ?_⟩
    · rw [Progress.links, Progress.advance, List.map_append, ← List.cons_append]
      exact List.getLast?_concat
    · rw [parentHeader]
      simp [Progress.advance, OpenHl.Consensus.decided, ChainState.commit,
        SortedMap.get?_insert]

end Settled

/-! ## The cluster -/

variable {deployment : Deployment P E PublicKey} {genesis : ChainLink}
  {start : OpenHlHeight} {cluster : Cluster P E}

theorem Proposal.Extends.mono {proposal : Proposal P E} {after : Cluster P E}
    (hextends : proposal.Extends genesis start cluster)
    (hcommitted : ∀ party, ∀ block ∈ cluster.committed party, block ∈ after.committed party) :
    proposal.Extends genesis start after := by
  obtain ⟨parent, hchild, hgenesis | ⟨party, block, hmem, hparent⟩⟩ := hextends
  · exact ⟨parent, hchild, .inl hgenesis⟩
  · exact ⟨parent, hchild, .inr ⟨party, block, hcommitted party block hmem, hparent⟩⟩

/-- A step that neither commits nor proposes. -/
theorem Safe.keep (hsafe : Safe deployment genesis start cluster) {party : P}
    {after : AppState (StreamKey P) E}
    (hafter : after.bridge.chain = (cluster.appState party).bridge.chain ∧
      after.currentParent = (cluster.appState party).currentParent ∧
      after.currentHeight = (cluster.appState party).currentHeight)
    (hfrom : Provenance deployment (cluster.advance party after none)) :
    Safe deployment genesis start (cluster.advance party after none) := by
  have hcommitted : ∀ other, (cluster.advance party after none).committed other =
      cluster.committed other := by
    intro other
    rw [Cluster.committed_advance, Option.toList_none, List.append_nil]
    split_ifs with hother
    · rw [hother]
    · rfl
  refine ⟨hfrom, ?_, hsafe.hashes, ?_, ?_, ?_⟩
  · intro other
    rw [Cluster.validators_advance]
    split_ifs with hother
    · rw [hother]
      exact (hsafe.settled party).withState hafter.1 hafter.2.1 hafter.2.2
    · exact hsafe.settled other
  · intro proposal hmem
    refine (hsafe.extend proposal hmem).mono fun other block hblock => ?_
    rwa [hcommitted]
  · intro other block hblock
    rw [hcommitted] at hblock
    exact hsafe.proposed other block hblock
  · intro other block hblock third block' hblock'
    rw [hcommitted] at hblock hblock'
    exact hsafe.agree other block hblock third block' hblock'

/-- The tip of a validator is genesis or a proposed block. -/
theorem Safe.tip_continues (hsafe : Safe deployment genesis start cluster) {party : P}
    (hcontinues : cluster.Continuable deployment genesis) {tip : ChainLink} {next : ℕ}
    (htip : (cluster.committed party = [] ∧ tip = genesis) ∨
      ∃ block ∈ cluster.committed party, tip = block.link ∧
        block.height.val + 1 = next) :
    (deployment.reth party).Continues deployment.checks deployment.layer tip.header := by
  refine hcontinues party tip.header ?_
  obtain ⟨-, rfl⟩ | ⟨block, hblock, rfl, -⟩ := htip
  · exact .inl rfl
  · obtain ⟨proposal, hmem, -, -, hheader⟩ := hsafe.proposed party block hblock
    exact .inr ⟨proposal, hmem, hheader⟩

/-- A validator proposes a payload that it built on its tip. -/
theorem Safe.propose (hsafe : Safe deployment genesis start cluster) {party : P}
    (hlawful : (deployment.reth party).Lawful deployment.layer) {height : OpenHlHeight}
    (hworks : cluster.Works party height) {fills : List Clob.Fill}
    {built : PendingPayload E}
    (hbuild : buildPayload deployment.checks deployment.layer (deployment.reth party)
      (cluster.appState party).bridge fills (cluster.appState party).currentParent
      defaultAttrs = .ok built) (hcontinues : cluster.Continuable deployment genesis)
    {announced : Announced (StreamKey P) E}
    (hstate : announced.state = getValue (cluster.appState party) built)
    {proposal : Proposal P E} (hpayload : proposal.payload = built)
    (hheight : proposal.height = height)
    (hfrom : Provenance deployment (cluster.propose party announced proposal)) :
    Safe deployment genesis start (cluster.propose party announced proposal) := by
  have hsettled := hsafe.settled party
  have hcommitted : ∀ other, (cluster.propose party announced proposal).committed other =
      cluster.committed other :=
    fun other => cluster.committed_propose party other announced proposal
  have hnext := hsettled.height_eq hworks.1 hworks.2
  obtain ⟨tip, htipHash, htipHeader, htip, -⟩ := hsettled.tip_cases
  have hhash := (buildPayload_attrs hlawful hbuild).1
  obtain ⟨header, hparent, hcounted⟩ :=
    buildPayload_isChildOf hlawful hsettled.hashes hbuild
  rw [Cluster.appState] at hparent hcounted
  rw [htipHeader, Except.ok.injEq, Option.some.injEq] at hparent
  have hchild := hcounted (hparent ▸ hsafe.tip_continues hcontinues htip)
  rw [← hparent, ← htipHash, ← hpayload] at hchild
  refine ⟨hfrom, ?_, ?_, ?_, ?_, ?_⟩
  · intro other
    rw [Cluster.validators_propose]
    split_ifs with hother
    · rw [hother]
      refine (hsafe.settled party).withState ?_ ?_ ?_
      all_goals
        rw [hstate]
        rfl
    · exact hsafe.settled other
  · intro other hmem
    rcases List.mem_append.1 hmem with hold | hnew
    · exact hsafe.hashes other hold
    · rw [List.mem_singleton.1 hnew, hpayload]
      exact hhash
  · intro other hmem
    have hkept : ∀ third, ∀ block ∈ cluster.committed third,
        block ∈ (cluster.propose party announced proposal).committed third := by
      intro third block hblock
      rwa [hcommitted]
    rcases List.mem_append.1 hmem with hold | hnew
    · exact (hsafe.extend other hold).mono hkept
    · rw [List.mem_singleton.1 hnew]
      refine Proposal.Extends.mono ⟨tip, hchild, ?_⟩ hkept
      rcases htip with ⟨hnil, hgenesis⟩ | ⟨block, hblock, hlink, hlast⟩
      · refine .inl ⟨?_, hgenesis⟩
        rw [hnil, List.length_nil, Nat.add_zero] at hnext
        rw [hheight]
        exact Fin.ext hnext
      · exact .inr ⟨party, block, hblock, by rw [hlast, hheight, hnext], hlink⟩
  · intro other block hblock
    rw [hcommitted] at hblock
    obtain ⟨earlier, hmem, hproposed⟩ := hsafe.proposed other block hblock
    exact ⟨earlier, List.mem_append_left _ hmem, hproposed⟩
  · intro other block hblock third block' hblock'
    rw [hcommitted] at hblock hblock'
    exact hsafe.agree other block hblock third block' hblock'

/-- Of a block of which a validator has a payload, the header and the recorded time are
those of any proposal with the hash. -/
theorem Provenance.header_eq (hfrom : Provenance deployment cluster)
    (hfree : cluster.CollisionFree) {party : P} {id : ℕ} {payload : PendingPayload E}
    (hpending : (cluster.appState party).bridge.pending.get? id = some payload)
    {blockTime : U64}
    (htime : (cluster.appState party).blockTimes.get? payload.hash = some blockTime)
    {proposal : Proposal P E} (hmem : proposal ∈ cluster.proposals)
    (hhash : proposal.payload.hash = payload.hash) :
    proposal.payload.header = payload.header ∧ blockTime = payload.header.timestamp := by
  obtain ⟨stored, hstored, hcarries⟩ := (hfrom.states party).pending id payload hpending
  obtain ⟨timed, htimed, htimedHash, htimestamp⟩ :=
    (hfrom.states party).times payload.hash blockTime htime
  constructor
  · rw [hcarries.header]
    exact hfree _ hmem _ hstored (hhash.trans hcarries.hash)
  · rw [← htimestamp, hcarries.header,
      hfree _ htimed _ hstored (htimedHash.trans hcarries.hash)]

/-- What may be decided at the height of a validator continues its tip. -/
theorem Safe.extends_tip (hsafe : Safe deployment genesis start cluster)
    (hfree : cluster.CollisionFree) {party : P} {height : OpenHlHeight}
    (hworks : cluster.Works party height) {proposal : Proposal P E}
    (hmem : proposal ∈ cluster.proposals) (hheight : proposal.height = height) :
    ∃ tip ∈ ((cluster.validators party).progress.links genesis).getLast?,
      proposal.payload.header.IsChildOf tip.hash tip.header := by
  have hnext := (hsafe.settled party).height_eq hworks.1 hworks.2
  obtain ⟨tip, -, -, htip, hlast⟩ := (hsafe.settled party).tip_cases
  obtain ⟨parent, hchild, hparent⟩ := hsafe.extend proposal hmem
  rw [hheight] at hparent
  suffices hsame : parent = tip from ⟨tip, hlast, hsame ▸ hchild⟩
  rcases htip with ⟨hnil, hgenesis⟩ | ⟨block, hblock, hlink, hbelow⟩
  · rw [hnil, List.length_nil, Nat.add_zero] at hnext
    rcases hparent with ⟨-, hparent⟩ | ⟨other, block, hblock, hbelow, -⟩
    · rw [hparent, hgenesis]
    · have hlower := ((hsafe.settled other).heights.bounds hblock).1
      omega
  · rcases hparent with ⟨hfirst, -⟩ | ⟨other, block', hblock', hbelow', hparent⟩
    · have hlower := ((hsafe.settled party).heights.bounds hblock).1
      rw [hfirst] at hnext
      omega
    · have hlevel : block.height = block'.height := Fin.ext (by omega)
      have hhash := hsafe.agree party block hblock other block' hblock' hlevel
      obtain ⟨first, hfirst, -, hfirstHash, hfirstHeader⟩ :=
        hsafe.proposed party block hblock
      obtain ⟨second, hsecond, -, hsecondHash, hsecondHeader⟩ :=
        hsafe.proposed other block' hblock'
      have hheader := hfree first hfirst second hsecond
        (by rw [hfirstHash, hsecondHash, hhash])
      rw [hparent, hlink, Committed.link, Committed.link, hhash, ← hfirstHeader,
        ← hsecondHeader, hheader]

/-- A validator commits what consensus has decided. -/
theorem Safe.decided (hsafe : Safe deployment genesis start cluster)
    (hfree : cluster.CollisionFree) {party : P} {height : OpenHlHeight} {blockTime : U64}
    {id : ℕ} {payload : PendingPayload E} (hworks : cluster.Works party height)
    (hdecide : cluster.MayDecide height payload.hash)
    (htime : (cluster.appState party).blockTimes.get? payload.hash = some blockTime)
    (hpending : (cluster.appState party).bridge.pending.get? id = some payload)
    {block : Committed E}
    (hblock : block = { hash := payload.hash, height := height, blockTime := blockTime
                        payload := payload })
    (hfrom : Provenance deployment (cluster.advance party
      (OpenHl.Consensus.decided (cluster.appState party) height payload) (some block))) :
    Safe deployment genesis start (cluster.advance party
      (OpenHl.Consensus.decided (cluster.appState party) height payload)
      (some block)) := by
  obtain ⟨proposal, hmem, hheight, hhash⟩ := hdecide.proposed
  obtain ⟨hheader, hstamp⟩ :=
    hsafe.provenance.header_eq hfree hpending htime hmem hhash
  obtain ⟨tip, hlast, hchild⟩ := hsafe.extends_tip hfree hworks hmem hheight
  have hsettled := hsafe.settled party
  have hcommitted := fun other => cluster.committed_advance party other
    (OpenHl.Consensus.decided (cluster.appState party) height payload) (some block)
  have hcases : ∀ {other : P} {entry : Committed E},
      entry ∈ (cluster.advance party (OpenHl.Consensus.decided (cluster.appState party)
        height payload) (some block)).committed other →
      entry ∈ cluster.committed other ∨ entry = block := by
    intro other entry hentry
    rw [hcommitted] at hentry
    split_ifs at hentry with hother
    · rw [hother]
      simpa using hentry
    · exact .inl hentry
  refine ⟨hfrom, ?_, hsafe.hashes, ?_, ?_, ?_⟩
  · intro other
    rw [Cluster.validators_advance]
    split_ifs with hother
    · rw [hother, hblock]
      refine hsettled.decided (hsettled.height_eq hworks.1 hworks.2) ?_ hstamp hlast ?_
      · rw [← hheader, ← hhash]
        exact hsafe.hashes proposal hmem
      · rw [← hheader]
        exact hchild
    · exact hsafe.settled other
  · intro other hother
    refine (hsafe.extend other hother).mono fun third entry hentry => ?_
    rw [hcommitted]
    split_ifs with hthird
    · rw [hthird] at hentry
      exact List.mem_append_left _ hentry
    · exact hentry
  · intro other entry hentry
    rcases hcases hentry with hold | hnew
    · exact hsafe.proposed other entry hold
    · rw [hnew, hblock]
      exact ⟨proposal, hmem, hheight, hhash, hheader⟩
  · -- only the new block is compared with blocks that consensus has agreed on before
    intro other entry hentry third entry' hentry' hlevel
    rcases hcases hentry with hold | hnew
    · rcases hcases hentry' with hold' | hnew'
      · exact hsafe.agree other entry hold third entry' hold' hlevel
      · rw [hnew', hblock] at hlevel ⊢
        exact hdecide.agreed other entry hold hlevel
    · rw [hnew, hblock] at hlevel ⊢
      rcases hcases hentry' with hold' | hnew'
      · exact (hdecide.agreed third entry' hold' hlevel.symm).symm
      · rw [hnew', hblock]

theorem ClusterStep.collisionFree {before after : Cluster P E}
    (hstep : ClusterStep deployment before after) (hfree : after.CollisionFree) :
    before.CollisionFree := by
  have hsubset := hstep.proposals_prefix.subset
  intro proposal hmem other hother
  exact hfree proposal (hsubset hmem) other (hsubset hother)

theorem ClusterStep.continuable {before after : Cluster P E}
    (hstep : ClusterStep deployment before after)
    (hcontinues : after.Continuable deployment genesis) :
    before.Continuable deployment genesis := by
  intro party header hheader
  refine hcontinues party header (hheader.imp_right ?_)
  rintro ⟨proposal, hmem, rfl⟩
  exact ⟨proposal, hstep.proposals_prefix.subset hmem, rfl⟩

theorem ClusterStep.safe (hcodec : deployment.RoundTrips)
    (hlawful : ∀ party, (deployment.reth party).Lawful deployment.layer)
    {before after : Cluster P E} (hstep : ClusterStep deployment before after)
    (hfree : after.CollisionFree) (hcontinues : after.Continuable deployment genesis)
    (hsafe : Safe deployment genesis start before) :
    Safe deployment genesis start after := by
  have hfrom := hstep.provenance hcodec hsafe.provenance
  have hbefore := hstep.continuable hcontinues
  cases hstep with
  | startedRound hworks => exact hsafe.keep ⟨rfl, rfl, hworks.1⟩ hfrom
  | getValue hworks hbuild hannounce =>
      obtain ⟨part, hstate, -⟩ := announce_eq_ok hannounce
      exact hsafe.propose (hlawful _) hworks hbuild hbefore hstate rfl rfl hfrom
  | part hnetwork hpart => exact hsafe.keep (receivedProposalPart_chain hpart) hfrom
  | decided hworks hdecide htime hpending =>
      exact hsafe.decided hfree hworks hdecide htime hpending rfl hfrom

theorem safe_initial {bridges : P → ChainState E}
    (hempty : ∀ party, (bridges party).pending = SortedMap.empty)
    (hchain : ∀ party, (bridges party).chain.All fun hash header =>
      deployment.layer.hashSlow header = hash)
    (hparent : ∀ party, parentHeader (deployment.reth party) (bridges party)
      genesis.hash = .ok (some genesis.header)) :
    Safe deployment genesis start (Cluster.initial bridges genesis.hash start) where
  provenance := provenance_initial _ _ hempty
  settled party :=
    { heights := Consecutive.nil
      current := by
        have hstart := start.isLt
        change start.val = min (2 ^ 64 - 1) (start.val + 0)
        omega
      hashes := hchain party
      chained := ⟨List.isChain_singleton _, fun block hblock => by cases hblock⟩
      tip := ⟨genesis, rfl, rfl, hparent party⟩ }
  hashes proposal hmem := by cases hmem
  extend proposal hmem := by cases hmem
  proposed party block hblock := by cases hblock
  agree party block hblock := by cases hblock

theorem safe_of_reaches (hcodec : deployment.RoundTrips)
    (hlawful : ∀ party, (deployment.reth party).Lawful deployment.layer)
    {first last : Cluster P E}
    (hreaches : Relation.ReflTransGen (ClusterStep deployment) first last)
    (hfree : last.CollisionFree) (hcontinues : last.Continuable deployment genesis)
    (hsafe : Safe deployment genesis start first) :
    Safe deployment genesis start last := by
  induction hreaches with
  | refl => exact hsafe
  | tail _ hstep ih =>
      exact hstep.safe hcodec hlawful hfree hcontinues
        (ih (hstep.collisionFree hfree) (hstep.continuable hcontinues))

/-- Blocks of one height are handed on alike by all validators. -/
theorem Safe.handed_eq (hsafe : Safe deployment genesis start cluster)
    (hfree : cluster.CollisionFree) {party other : P} {block block' : Committed E}
    (hblock : block ∈ cluster.committed party) (hblock' : block' ∈ cluster.committed other)
    (hlevel : block.height.val = block'.height.val) : block.handed = block'.handed := by
  have hheight : block.height = block'.height := Fin.ext hlevel
  have hhash := hsafe.agree party block hblock other block' hblock' hheight
  obtain ⟨first, hfirst, -, hfirstHash, hfirstHeader⟩ := hsafe.proposed party block hblock
  obtain ⟨second, hsecond, -, hsecondHash, hsecondHeader⟩ :=
    hsafe.proposed other block' hblock'
  have hheader : block.payload.header = block'.payload.header := by
    rw [← hfirstHeader, ← hsecondHeader]
    exact hfree first hfirst second hsecond (by rw [hfirstHash, hsecondHash, hhash])
  rw [Committed.handed, Committed.handed, hhash, hheight, hheader,
    (hsafe.settled party).chained.times block hblock,
    (hsafe.settled other).chained.times block' hblock', hheader]

end Safety

/-- Validators that start on one genesis, and a network that delivers what they publish in
any order, repeatedly or not at all: at any point of any run, if no two proposed blocks
share a hash and the next block can count on from each, the blocks of each validator form a
chain on genesis with the times of their headers, each was proposed for its height, and of
any two validators the one that has committed less has handed on the beginning of what the
other has. -/
theorem cluster_safe {P E PublicKey : Type} [LinearOrder P]
    (deployment : Deployment P E PublicKey) (hcodec : deployment.RoundTrips)
    (hlawful : ∀ party, (deployment.reth party).Lawful deployment.layer)
    (bridges : P → ChainState E) (genesis : ChainLink) (start : OpenHlHeight)
    (hempty : ∀ party, (bridges party).pending = SortedMap.empty)
    (hchain : ∀ party, (bridges party).chain.All fun hash header =>
      deployment.layer.hashSlow header = hash)
    (hparent : ∀ party, parentHeader (deployment.reth party) (bridges party)
      genesis.hash = .ok (some genesis.header))
    (cluster : Cluster P E)
    (hrun : Relation.ReflTransGen (ClusterStep deployment)
      (Cluster.initial bridges genesis.hash start) cluster)
    (hfree : cluster.CollisionFree)
    (hcontinues : cluster.Continuable deployment genesis) :
    (∀ party, (cluster.validators party).progress.Chained genesis ∧
      Consecutive (fun block => block.height.val) start.val (cluster.committed party) ∧
      ∀ block ∈ cluster.committed party, ∃ proposal ∈ cluster.proposals,
        proposal.height = block.height ∧ proposal.payload.hash = block.hash ∧
          proposal.payload.header = block.payload.header) ∧
    ∀ party other, (cluster.committed party).length ≤ (cluster.committed other).length →
      (cluster.committed party).map Committed.handed <+:
        (cluster.committed other).map Committed.handed := by
  have hsafe := safe_of_reaches hcodec hlawful hrun hfree hcontinues
    (safe_initial hempty hchain hparent)
  refine ⟨fun party => ⟨(hsafe.settled party).chained, (hsafe.settled party).heights,
    hsafe.proposed party⟩, ?_⟩
  intro party other hlength
  refine (hsafe.settled party).heights.map_prefix (hsafe.settled other).heights ?_ hlength
  intro block hblock block' hblock' hlevel
  exact hsafe.handed_eq hfree hblock hblock' hlevel

/-! ## Two validators and the block on genesis -/

/-- Serialisation as it acts on the wire of that block. -/
def encodeChildWire (wire : ProposedBlockWire Unit) : Except String (List U8) :=
  if wire.header = childHeader ∧ wire.block = executedBlock childHash childHeader ∧
      wire.executionData = none then .ok (bytesOf childText) else .error "unsupported"

def pairDeployment : Deployment (Fin 2) Unit U8 :=
  { layer := childLayer, encode := encodeChildWire, reth := fun _ => genesisNode
    validatorSet :=
      { validators := [{ address := 10, publicKey := 0, votingPower := 1 },
          { address := 20, publicKey := 1, votingPower := 1 }]
        sorted := by decide }
    checks := .on }

theorem pairDeployment_roundTrips : pairDeployment.RoundTrips := by
  rintro ⟨header, block, executionData⟩ bytes hencode
  simp only [pairDeployment, encodeChildWire] at hencode
  split_ifs at hencode with hwire
  obtain ⟨rfl, rfl, rfl⟩ := hwire
  rw [← Except.ok.inj hencode]
  exact if_pos rfl

def pairStart : Cluster (Fin 2) Unit :=
  Cluster.initial (fun _ => emptyChain) defaultHash 1

def childStream : StreamId := streamIdBytes 1 (some 0) 0

/-- The part in which the block is streamed. -/
def childPart : OpenHlProposalPart :=
  { height := 1, round := some 0, polRound := none, proposer := 20
    blockBytes := bytesOf childText }

def childAnnounced : Announced (StreamKey (Fin 2)) Unit :=
  { state := getValue (pairStart.appState 0) childPayload, nextStreamId := 1
    reply := { height := 1, round := some 0, value := childHash }
    messages := [{ streamId := childStream, sequence := 0, content := .data childPart },
      { streamId := childStream, sequence := 1, content := .fin }] }

theorem announce_child :
    announce encodeChildWire pairDeployment.validatorSet .on (pairStart.appState 0) 0 1
      (some 0) childPayload = .ok childAnnounced := by
  have hencode : encodeProposedBlock encodeChildWire
      (getValue (pairStart.appState 0) childPayload).bridge 0 =
        .ok (bytesOf childText) := rfl
  have hproposer : selectProposerAddress pairDeployment.validatorSet 1 (some 0) =
      some 20 := by decide
  have hstream : makeStreamId .on 1 (some 0) 0 = .ok (childStream, 1) := rfl
  rw [announce]
  simp only [hproposer, hstream]
  rw [show (pairStart.appState 0).bridge.nextPayloadId = 0 from rfl, hencode]
  rfl

theorem advance_advance {P E : Type} [LinearOrder P] (cluster : Cluster P E) (party : P)
    (first second : AppState (StreamKey P) E) (block : Option (Committed E)) :
    (cluster.advance party first none).advance party second block =
      cluster.advance party second block := by
  cases block with
  | none => simp [Cluster.advance, Progress.advance]
  | some block => simp [Cluster.advance, Progress.advance]

/-- A validator that gets both messages of a stream stores the block. -/
theorem clusterStep_deliver {P E PublicKey : Type} [LinearOrder P]
    {deployment : Deployment P E PublicKey} {cluster : Cluster P E} {sender : P} (party : P)
    {data fin : StreamMessage} (hdata : (sender, data) ∈ cluster.network)
    (hfin : (sender, fin) ∈ cluster.network) (hid : fin.streamId = data.streamId)
    {part : OpenHlProposalPart} (hpart : data.content = .data part)
    (hend : fin.content = .fin)
    (hfree : (cluster.appState party).streams.get? (toLex (sender, data.streamId)) = none)
    {block : ExecutedBlock} {bridge : ChainState E}
    (haccept : registerProposedBlock deployment.layer (cluster.appState party).bridge
      part.blockBytes = .ok (block, bridge)) :
    ∃ streams, Relation.ReflTransGen (ClusterStep deployment) cluster
      (cluster.advance party
        { cluster.appState party with
          bridge := bridge
          streams := streams
          blockTimes := (cluster.appState party).blockTimes.insert block.hash
            block.timestamp } none) := by
  let key : StreamKey P := toLex (sender, data.streamId)
  let stream : InProgressStream := { data := some part, finSeen := false }
  let buffered : AppState (StreamKey P) E :=
    { cluster.appState party with
      streams := (cluster.appState party).streams.insert key stream }
  have hstored : buffered.streams.get? key = some stream := by
    rw [SortedMap.get?_insert, if_pos rfl]
  have hfirst : receivedProposalPart deployment.layer (cluster.appState party) key
      data.content = .ok (buffered, none) := by
    rw [hpart, receivedProposalPart, hfree]
    rfl
  have hcompleted : completedPart buffered key .fin = some part := by
    rw [completedPart, hstored]
    rfl
  have hsecond : receivedProposalPart deployment.layer buffered key .fin = .ok (_, _) :=
    (receivedProposalPart_of_completedPart hcompleted).trans (by rw [haccept])
  have hbuffers : ClusterStep deployment cluster (cluster.advance party buffered none) :=
    .part hdata hfirst
  have hregisters : ∀ {after : AppState (StreamKey P) E} {reply : Option ProposedValue},
      receivedProposalPart deployment.layer buffered key .fin = .ok (after, reply) →
        ClusterStep deployment (cluster.advance party buffered none)
          (cluster.advance party after none) := by
    intro after reply hreceived
    have hpart : receivedProposalPart deployment.layer
        ((cluster.advance party buffered none).appState party)
        (toLex (sender, fin.streamId)) fin.content = .ok (after, reply) := by
      rw [Cluster.appState_advance, if_pos rfl, hid, hend]
      exact hreceived
    rw [← advance_advance cluster party buffered after none]
    exact ClusterStep.part hfin hpart
  exact ⟨_, (Relation.ReflTransGen.single hbuffers).tail (hregisters hsecond)⟩

def childCommitted : Committed Unit :=
  { hash := childHash, height := 1, blockTime := 1, payload := childPayload }

def childProposal : Proposal (Fin 2) Unit :=
  { proposer := 0, height := 1, round := some 0, payload := childPayload
    streamId := childStream }

theorem childPayload_registers :
    registerProposedBlock childLayer emptyChain (bytesOf childText) =
      .ok (executedBlock childHash childHeader, emptyChain.insertPending childPayload) :=
  @registerProposedBlock_proposedWire Unit childLayer childPayload _ rfl (if_pos rfl)
    emptyChain

theorem childPayload_built :
    buildPayload .on childLayer genesisNode emptyChain [] defaultHash defaultAttrs =
      .ok childPayload := rfl

/-- One validator builds the block on genesis, the other receives it, and both commit
it. -/
theorem pair_commits :
    ∃ cluster, Relation.ReflTransGen (ClusterStep pairDeployment) pairStart cluster ∧
      cluster.committed 0 = [childCommitted] ∧ cluster.committed 1 = [childCommitted] ∧
      cluster.proposals = [childProposal] := by
  let proposed : Cluster (Fin 2) Unit := pairStart.propose 0 childAnnounced childProposal
  have hpropose : ClusterStep pairDeployment pairStart proposed :=
    .getValue ⟨rfl, fun block hblock => by cases hblock⟩ childPayload_built announce_child
  obtain ⟨streams, hdeliver⟩ := @clusterStep_deliver _ _ _ _ pairDeployment proposed 0 1
    _ _ List.mem_cons_self (List.mem_cons_of_mem _ List.mem_cons_self) rfl childPart rfl
    rfl rfl _ _ childPayload_registers
  let follower : AppState (StreamKey (Fin 2)) Unit :=
    { proposed.appState 1 with
      bridge := emptyChain.insertPending childPayload, streams := streams
      blockTimes := SortedMap.empty.insert childHash 1 }
  let received : Cluster (Fin 2) Unit := proposed.advance 1 follower none
  have hundecided : ∀ party, received.committed party = [] := by
    intro party
    fin_cases party
    · rfl
    · rfl
  have hmem : childProposal ∈ received.proposals := List.mem_singleton_self _
  have htime : (received.appState 0).blockTimes.get? childPayload.hash = some 1 := rfl
  have hpending : (received.appState 0).bridge.pending.get? 0 = some childPayload := rfl
  have hfirst : ClusterStep pairDeployment received (received.advance 0
      (decided (received.appState 0) 1 childPayload) (some childCommitted)) :=
    .decided ⟨rfl, by simp [hundecided]⟩ ⟨⟨_, hmem, rfl, rfl⟩, by simp [hundecided]⟩
      htime hpending
  let half : Cluster (Fin 2) Unit := received.advance 0
    (decided (received.appState 0) 1 childPayload) (some childCommitted)
  have htime' : (half.appState 1).blockTimes.get? childPayload.hash = some 1 := rfl
  have hpending' : (half.appState 1).bridge.pending.get? 0 = some childPayload := rfl
  have hagreed : ∀ party, ∀ block ∈ half.committed party, block.hash = childHash := by
    intro party block hblock
    rw [Cluster.committed_advance, hundecided, hundecided] at hblock
    split_ifs at hblock
    · rw [List.mem_singleton.1 hblock]
      rfl
    · cases hblock
  have hsecond : ClusterStep pairDeployment half (half.advance 1
      (decided (half.appState 1) 1 childPayload) (some childCommitted)) :=
    .decided ⟨rfl, fun block hblock => by cases hblock⟩
      ⟨⟨_, hmem, rfl, rfl⟩, fun party block hblock _ => hagreed party block hblock⟩
      htime' hpending'
  exact ⟨_, (((Relation.ReflTransGen.single hpropose).trans hdeliver).tail hfirst).tail
    hsecond, rfl, rfl, rfl⟩

/-- On that run the theorem gives two equal chains. -/
theorem cluster_safe_pair :
    ∃ cluster : Cluster (Fin 2) Unit, cluster.committed 0 = [childCommitted] ∧
      cluster.committed 1 = [childCommitted] ∧
      (cluster.committed 0).map Committed.handed <+:
        (cluster.committed 1).map Committed.handed := by
  obtain ⟨cluster, hrun, hfirst, hsecond, hproposals⟩ := pair_commits
  refine ⟨cluster, hfirst, hsecond, (cluster_safe pairDeployment pairDeployment_roundTrips
    (fun _ => genesisNode_lawful rfl) (fun _ => emptyChain)
    { hash := defaultHash, header := defaultHeader } 1 (fun _ => rfl)
    (fun _ => SortedMap.All.empty) (fun _ => rfl) cluster hrun ?_ ?_).2 0 1 ?_⟩
  · intro proposal hproposal other hother _
    rw [hproposals, List.mem_singleton] at hproposal hother
    rw [hproposal, hother]
  · rintro party header (rfl | ⟨proposal, hproposal, rfl⟩)
    · exact genesisNode_continues fun _ => by decide
    · rw [hproposals, List.mem_singleton] at hproposal
      rw [hproposal]
      exact genesisNode_continues fun _ => by decide
  · rw [hfirst, hsecond]

end OpenHl.Consensus
