import OpenHl.Consensus.Chain
import OpenHl.Evm.Bridge

/-!
# Where drained fills end up

`submit_order` buffers its fills, `build_payload` moves the buffer into the payload it
stores, and `commit` takes some pending payload of the decided hash.  On the path that
synthesizes the header, two builds on one parent have the same hash, and a payload that
is passed over keeps the fills it took.

`drainedFills_kept`: no fill is left behind in the runs in which, at each decision, any
payload of the height that has fills is all there is under the decided hash.
-/

namespace OpenHl.Consensus

open Machine OpenHl.Clob OpenHl.Evm

section Fills

variable {K E : Type} [LinearOrder K]

/-- The application over the live bridge, with the history of its fills: what each
build drained into the payload of which id, the ids of the payloads that commits have
found, and the payload id at which the current height began. -/
structure FillRun (K E : Type) [LinearOrder K] where
  app : AppState K E
  bridge : BridgeState
  drained : List (ℕ × Fill)
  found : List ℕ
  opened : ℕ

def FillRun.initial (app : AppState K E) (bridge : BridgeState) : FillRun K E :=
  { app := app, bridge := bridge, drained := [], found := []
    opened := app.bridge.nextPayloadId }

inductive FillMsg (K E : Type) where
  | submitOrder (order : Order)
  | app (msg : AppMsg K E)

variable (checks : U64.OverflowChecks) (layer : ExecutionLayer E) (reth : RethNode E)

/-- An order or a message of the loop, without a payload builder installed. -/
inductive FillStep : FillRun K E → FillMsg K E → FillRun K E → Prop
  | submitOrder {run : FillRun K E} {order : Order} {bridge : BridgeState}
      {result : FillResult}
      (hsubmit : submitOrder run.bridge order = .ok (bridge, result)) :
      FillStep run (.submitOrder order) { run with bridge := bridge }
  | startedRound (run : FillRun K E) (height : OpenHlHeight) :
      FillStep run (.app (.startedRound height))
        { run with app := { run.app with currentHeight := height } }
  | getValue {run : FillRun K E} {built : PendingPayload E}
      (hbuilder : reth.payloadBuilder = none)
      (hbuild : buildPayload checks layer reth run.app.bridge run.bridge.pendingFills
        run.app.currentParent defaultAttrs = .ok built) :
      FillStep run (.app (.getValue built))
        { run with
          app := getValue run.app built
          bridge := { run.bridge with pendingFills := [] }
          drained := run.drained ++
            run.bridge.pendingFills.map fun fill => (run.app.bridge.nextPayloadId, fill) }
  | part {run : FillRun K E} {after : AppState K E} {key : K} {content : StreamContent}
      {reply : Option ProposedValue}
      (hpart : receivedProposalPart layer run.app key content = .ok (after, reply)) :
      FillStep run (.app (.receivedProposalPart key content)) { run with app := after }
  | decided {run : FillRun K E} {height : OpenHlHeight} {blockTime : U64} {id : ℕ}
      {payload : PendingPayload E}
      (htime : run.app.blockTimes.get? payload.hash = some blockTime)
      (hpending : run.app.bridge.pending.get? id = some payload) :
      FillStep run (.app (.decided payload.hash height))
        { run with
          app := decided run.app height payload
          found := run.found ++ [id]
          opened := run.app.bridge.nextPayloadId }

/-- Every fill that a build has drained is attached to that payload or a later one
which a commit has found, or which still waits for the decision of its height. -/
def FillRun.Kept (run : FillRun K E) : Prop :=
  ∀ id fill, (id, fill) ∈ run.drained → ∃ later payload, id ≤ later ∧
    run.app.bridge.pending.get? later = some payload ∧ fill ∈ payload.fills ∧
      (later ∈ run.found ∨ run.opened ≤ later)

/-- Before a decision, a payload that was stored since the last one and has fills is
the only pending payload of the decided hash. -/
def SoleFills (run : FillRun K E) : FillMsg K E → Prop
  | .app (.decided hash _) =>
      ∀ id payload, run.app.bridge.pending.get? id = some payload → run.opened ≤ id →
        payload.fills ≠ [] → payload.hash = hash ∧
          ∀ other entry, run.app.bridge.pending.get? other = some entry →
            entry.hash = hash → other = id
  | _ => True

def FillAdvances (before after : FillRun K E) : Prop :=
  ∃ msg, FillStep checks layer reth before msg after

def SoleAdvances (before after : FillRun K E) : Prop :=
  ∃ msg, SoleFills before msg ∧ FillStep checks layer reth before msg after

/-! ## Runs that keep their fills -/

/-- Ids are handed out in order, and no drained fill has been left behind. -/
structure FillRun.Inv (run : FillRun K E) : Prop where
  ids : run.app.bridge.pending.All fun id _ => id < run.app.bridge.nextPayloadId
  opened : run.opened ≤ run.app.bridge.nextPayloadId
  kept : run.Kept

variable {checks layer reth} {run : FillRun K E}

/-- Storing a payload under the next id leaves the others in place. -/
theorem get?_insertPending_of_get? {bridge : ChainState E}
    (hids : bridge.pending.All fun id _ => id < bridge.nextPayloadId)
    (payload : PendingPayload E) {id : ℕ} {entry : PendingPayload E}
    (hentry : bridge.pending.get? id = some entry) :
    (bridge.insertPending payload).pending.get? id = some entry := by
  have hne : id ≠ bridge.nextPayloadId := (hids id entry hentry).ne
  rw [ChainState.get?_insertPending, if_neg hne, hentry]

theorem insertPending_ids {bridge : ChainState E}
    (hids : bridge.pending.All fun id _ => id < bridge.nextPayloadId)
    (payload : PendingPayload E) :
    (bridge.insertPending payload).pending.All fun id _ =>
      id < (bridge.insertPending payload).nextPayloadId := by
  refine SortedMap.All.insert ?_ (Nat.lt_succ_self _)
  exact fun id entry hentry => Nat.lt_succ_of_lt (hids id entry hentry)

/-- A message that at most stores a payload and drains nothing. -/
theorem FillRun.Inv.store (hinv : run.Inv) {app : AppState K E}
    (payload : PendingPayload E)
    (hbridge : app.bridge = run.app.bridge.insertPending payload) :
    ({ run with app := app } : FillRun K E).Inv := by
  refine ⟨?_, ?_, ?_⟩
  · simp only [hbridge]
    exact insertPending_ids hinv.ids payload
  · simp only [hbridge]
    exact hinv.opened.trans (Nat.le_succ _)
  · intro id fill hdrained
    obtain ⟨later, entry, hle, hentry, hfill, hwhere⟩ := hinv.kept id fill hdrained
    refine ⟨later, entry, hle, ?_, hfill, hwhere⟩
    simp only [hbridge]
    exact get?_insertPending_of_get? hinv.ids payload hentry

theorem FillRun.Inv.of_bridge (hinv : run.Inv) {app : AppState K E}
    (hbridge : app.bridge = run.app.bridge) :
    ({ run with app := app } : FillRun K E).Inv := by
  refine ⟨?_, ?_, ?_⟩
  · simp only [hbridge]
    exact hinv.ids
  · simp only [hbridge]
    exact hinv.opened
  · intro id fill hdrained
    simp only [hbridge]
    exact hinv.kept id fill hdrained

theorem FillRun.Inv.part (hinv : run.Inv) {key : K} {content : StreamContent}
    {after : AppState K E} {reply : Option ProposedValue}
    (hpart : receivedProposalPart layer run.app key content = .ok (after, reply)) :
    ({ run with app := after } : FillRun K E).Inv := by
  obtain ⟨-, -, rfl⟩ | ⟨part, wire, -, -, -, rfl, -⟩ := receivedProposalPart_eq_ok hpart
  · exact hinv.of_bridge rfl
  · exact hinv.store _ rfl

theorem buildPayload_fills {bridge : ChainState E} {fills : List Fill} {parent : B256}
    {attrs : PayloadAttrs} {built : PendingPayload E}
    (hbuild : buildPayload checks layer reth bridge fills parent attrs = .ok built) :
    built.fills = fills := by
  rw [buildPayload] at hbuild
  split at hbuild
  · obtain ⟨payload, -, hbuild⟩ := bind_eq_ok.1 hbuild
    rw [← Except.ok.inj hbuild]
  · obtain ⟨header, -, hbuild⟩ := bind_eq_ok.1 hbuild
    rw [← Except.ok.inj hbuild]

/-- What a build drains goes into a payload of the current height. -/
theorem FillRun.Inv.getValue (hinv : run.Inv) {built : PendingPayload E}
    (hfills : built.fills = run.bridge.pendingFills) :
    FillRun.Inv
      { run with
        app := OpenHl.Consensus.getValue run.app built
        bridge := { run.bridge with pendingFills := [] }
        drained := run.drained ++
          run.bridge.pendingFills.map fun fill =>
            (run.app.bridge.nextPayloadId, fill) } := by
  have hstored := hinv.store built (rfl : (OpenHl.Consensus.getValue run.app built).bridge =
    run.app.bridge.insertPending built)
  refine ⟨hstored.ids, hstored.opened, ?_⟩
  intro id fill hdrained
  rcases List.mem_append.1 hdrained with hold | hnew
  · exact hstored.kept id fill hold
  · obtain ⟨drained, hmem, heq⟩ := List.mem_map.1 hnew
    obtain ⟨rfl, rfl⟩ := Prod.mk.inj heq
    refine ⟨run.app.bridge.nextPayloadId, built, le_refl _, ?_, ?_, .inr hinv.opened⟩
    · exact run.app.bridge.get?_insertPending_self built
    · rw [hfills]
      exact hmem

/-- The payload that is decided is the one that has the fills. -/
theorem FillRun.Inv.decided (hinv : run.Inv) {height : OpenHlHeight} {id : ℕ}
    {payload : PendingPayload E}
    (hsole : SoleFills run (.app (.decided payload.hash height)))
    (hpending : run.app.bridge.pending.get? id = some payload) :
    FillRun.Inv
      { run with
        app := OpenHl.Consensus.decided run.app height payload
        found := run.found ++ [id]
        opened := run.app.bridge.nextPayloadId } := by
  refine ⟨hinv.ids, le_refl _, ?_⟩
  intro first fill hdrained
  obtain ⟨later, entry, hle, hentry, hfill, hwhere⟩ := hinv.kept first fill hdrained
  refine ⟨later, entry, hle, hentry, hfill, .inl ?_⟩
  rcases hwhere with hfound | hopened
  · exact List.mem_append_left _ hfound
  · obtain ⟨-, honly⟩ := hsole later entry hentry hopened (List.ne_nil_of_mem hfill)
    rw [honly id payload hpending rfl]
    exact List.mem_append_right _ List.mem_cons_self

theorem SoleAdvances.inv {before after : FillRun K E}
    (hstep : SoleAdvances checks layer reth before after) (hinv : before.Inv) :
    after.Inv := by
  obtain ⟨msg, hsole, hstep⟩ := hstep
  cases hstep with
  | submitOrder hsubmit => exact ⟨hinv.ids, hinv.opened, hinv.kept⟩
  | startedRound height => exact hinv.of_bridge rfl
  | getValue hbuilder hbuild => exact hinv.getValue (buildPayload_fills hbuild)
  | part hpart => exact hinv.part hpart
  | decided htime hpending => exact hinv.decided hsole hpending

theorem inv_of_reaches {start finish : FillRun K E}
    (hreaches : Relation.ReflTransGen (SoleAdvances checks layer reth) start finish)
    (hstart : start.Inv) : finish.Inv := by
  induction hreaches with
  | refl => exact hstart
  | tail _ hstep ih => exact hstep.inv ih

end Fills

/-- In every run in which each decision finds the payload of its height that has fills,
if there is one, alone under the decided hash, no drained fill is ever left behind. -/
theorem drainedFills_kept {K E : Type} [LinearOrder K] (checks : U64.OverflowChecks)
    (layer : ExecutionLayer E) (reth : RethNode E) (app : AppState K E)
    (bridge : BridgeState)
    (hids : app.bridge.pending.All fun id _ => id < app.bridge.nextPayloadId)
    (finish : FillRun K E)
    (hrun : Relation.ReflTransGen (SoleAdvances checks layer reth) (.initial app bridge)
      finish) :
    finish.Kept := by
  refine (inv_of_reaches hrun ⟨hids, le_refl _, ?_⟩).kept
  intro id fill hdrained
  cases hdrained

/-! ## A fill in an abandoned round -/

/-- A fill of ten at 100 between a resting buyer and a seller. -/
def tradedFill : Fill :=
  { makerOrderId := 1, takerOrderId := 2, makerAccount := 1, takerAccount := 2
    price := 100, qty := 10, makerSide := .buy }

/-- A bridge that has buffered it. -/
def tradedBridge : BridgeState :=
  { clob := Book.new, pendingFills := [tradedFill]
    accounts := OpenHl.Clearing.applyFillsToAccounts .empty [tradedFill] }

def genesisRun : FillRun ℕ Unit :=
  .initial (.initial emptyChain defaultHash 1)
    { clob := Book.new, pendingFills := [], accounts := .empty }

/-- The block on genesis with the fill attached. -/
def tradedPayload : PendingPayload Unit := { childPayload with fills := [tradedFill] }

theorem genesisRun_trades {step : FillRun ℕ Unit → FillRun ℕ Unit → Prop}
    (hstep : ∀ before order after,
      FillStep .on chainLayer genesisNode before (.submitOrder order) after →
        step before after) :
    Relation.ReflTransGen step genesisRun { genesisRun with bridge := tradedBridge } := by
  have hmaker := hstep genesisRun
    { id := 1, account := 1, side := .buy, qty := 10, orderType := .limit 100 } _
    (.submitOrder rfl)
  exact (Relation.ReflTransGen.single hmaker).tail (hstep _
    { id := 2, account := 2, side := .sell, qty := 10, orderType := .limit 100 } _
    (.submitOrder rfl))

/-- The run after the first round has built the block. -/
def tradedRun : FillRun ℕ Unit :=
  { genesisRun with
    app := getValue genesisRun.app tradedPayload
    bridge := { tradedBridge with pendingFills := [] }
    drained := [(0, tradedFill)] }

theorem genesisRun_builds :
    FillStep .on chainLayer genesisNode { genesisRun with bridge := tradedBridge }
      (.app (.getValue tradedPayload)) tradedRun :=
  .getValue rfl rfl

theorem tradedRun_pending {id : ℕ} {entry : PendingPayload Unit}
    (hentry : tradedRun.app.bridge.pending.get? id = some entry) :
    id = 0 ∧ entry = tradedPayload := by
  have hmem : (id, entry) ∈ [(0, tradedPayload)] :=
    (SortedMap.get?_eq_some_iff _).1 hentry
  rw [List.mem_singleton, Prod.mk.injEq] at hmem
  exact hmem

/-- The only round of the height builds the block with the fill, and it is decided. -/
theorem drainedFills_kept_decided :
    ∃ finish : FillRun ℕ Unit, (0, tradedFill) ∈ finish.drained ∧ finish.found = [0] ∧
      finish.Kept := by
  have htime : tradedRun.app.blockTimes.get? tradedPayload.hash = some 1 := rfl
  have hpending : tradedRun.app.bridge.pending.get? 0 = some tradedPayload := rfl
  have hsole : SoleFills tradedRun (.app (.decided tradedPayload.hash 1)) := by
    intro id payload hentry _ _
    obtain ⟨rfl, rfl⟩ := tradedRun_pending hentry
    exact ⟨rfl, fun other found hfound _ => (tradedRun_pending hfound).1⟩
  have hbuilt : Relation.ReflTransGen (SoleAdvances .on chainLayer genesisNode) genesisRun
      tradedRun :=
    (genesisRun_trades fun before order after hstep =>
      ⟨.submitOrder order, trivial, hstep⟩).tail
        ⟨.app (.getValue tradedPayload), trivial, genesisRun_builds⟩
  exact ⟨_, by decide, rfl, drainedFills_kept .on chainLayer genesisNode _ _
    SortedMap.All.empty _ (hbuilt.tail ⟨_, hsole, .decided htime hpending⟩)⟩

/-- The run after a second round has built the block again, without the fill. -/
def rebuiltRun : FillRun ℕ Unit :=
  { tradedRun with app := getValue tradedRun.app childPayload }

/-- The commit finds the block of the second round, and the fill stays with the
first. -/
theorem not_forall_drainedFills_kept :
    ¬ ∀ (checks : U64.OverflowChecks) (layer : ExecutionLayer Unit)
      (reth : RethNode Unit) (app : AppState ℕ Unit) (bridge : BridgeState)
      (finish : FillRun ℕ Unit),
      (app.bridge.pending.All fun id _ => id < app.bridge.nextPayloadId) →
      Relation.ReflTransGen (FillAdvances checks layer reth) (.initial app bridge) finish →
      finish.Kept := by
  intro hkept
  have hbuilt : Relation.ReflTransGen (FillAdvances .on chainLayer genesisNode) genesisRun
      tradedRun :=
    (genesisRun_trades fun before order after hstep => ⟨_, hstep⟩).tail
      ⟨_, genesisRun_builds⟩
  have hrebuild : FillStep .on chainLayer genesisNode tradedRun
      (.app (.getValue childPayload)) rebuiltRun := .getValue rfl rfl
  have htime : rebuiltRun.app.blockTimes.get? childPayload.hash = some 1 := rfl
  have hfound : rebuiltRun.app.bridge.pending.get? 1 = some childPayload := rfl
  have hdecide : FillStep .on chainLayer genesisNode rebuiltRun
      (.app (.decided childPayload.hash 1)) _ := .decided htime hfound
  obtain ⟨later, payload, -, hpending, hfill, hwhere⟩ :=
    hkept .on chainLayer genesisNode _ _ _ SortedMap.All.empty
      ((hbuilt.tail ⟨_, hrebuild⟩).tail ⟨_, hdecide⟩) 0 tradedFill (by decide)
  have hmem : (later, payload) ∈ [(0, tradedPayload), (1, childPayload)] :=
    (SortedMap.get?_eq_some_iff _).1 hpending
  replace hwhere : later ∈ [1] ∨ 2 ≤ later := hwhere
  simp only [List.mem_cons, Prod.mk.injEq, List.not_mem_nil, or_false] at hmem hwhere
  rcases hmem with ⟨rfl, rfl⟩ | ⟨rfl, rfl⟩
  · omega
  · cases hfill

end OpenHl.Consensus
