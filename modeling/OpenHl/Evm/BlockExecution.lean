import OpenHl.Evm.Payload
import OpenHl.Evm.RevertGuard

/-!
# One block on two validators

The validator that builds a block runs its transactions in the payload builder
and again when `commit` hands the payload to the engine.  A validator that
receives the block runs them once, at `commit`.  Precompile calls change the
bridge state each time they run, and only the builder moves its buffered fills
into the payload.

`roles_agree_iff`: for a block none of whose precompile calls has a lasting
effect where it runs, the two end with the same bridge state exactly if no fill was
buffered.
-/

namespace OpenHl.Evm

open Machine OpenHl.Clob OpenHl.Clearing Savepoint

section Roles

variable {E : Type} (checks : U64.OverflowChecks) (globals : ProcessGlobals)
  (frames : E → EvmState → Trace FrameKind PrecompileCall)

/-- Run the transactions of a payload once.  Which frames they run through may
depend on what the precompiles answer. -/
def executePayload (data : E) (state : EvmState) : Except Stop EvmState :=
  OpenHlRevertGuard.execute checks globals (frames data state) state

/-- The fills move out of the buffer. -/
def drainFills (state : EvmState) : List Fill × EvmState :=
  (state.shared.pendingFills,
    { state with shared := { state.shared with pendingFills := [] } })

/-- `build_payload` with a payload builder installed: the block is executed while
it is built, and then takes the buffered fills. -/
def storeBuilt (built : BuiltPayload E) (state : EvmState) :
    Except Stop (PendingPayload E × EvmState) := do
  let executed ← executePayload checks globals frames built.executionData state
  let (fills, drained) := drainFills executed
  return ({ hash := built.hash, header := built.header, fills := fills
            executionData := some built.executionData }, drained)

/-- What `register_proposed_block` stores for an accepted wire; nothing runs. -/
def storeProposed (wire : ProposedBlockWire E) : PendingPayload E :=
  { hash := wire.block.hash, header := wire.header, fills := []
    executionData := wire.executionData }

/-- `commit` hands the execution data of the pending payload to the engine, which
executes it. -/
def commitPending (payload : PendingPayload E) (state : EvmState) :
    Except Stop EvmState :=
  match payload.executionData with
  | none => .ok state
  | some data => executePayload checks globals frames data state

/-- The bridge state of the validator that built the block. -/
def builderRole (built : BuiltPayload E) (state : EvmState) : Except Stop EvmState := do
  let (payload, after) ← storeBuilt checks globals frames built state
  commitPending checks globals frames payload after

/-- The bridge state of a validator that received it. -/
def receiverRole (built : BuiltPayload E) (fills : List Fill) (state : EvmState) :
    Except Stop EvmState :=
  commitPending checks globals frames
    (storeProposed (proposedWire
      { hash := built.hash, header := built.header, fills := fills
        executionData := some built.executionData })) state

/-- The entry that a receiver commits is the one that it registered. -/
theorem registerProposedBlock_stores {layer : ExecutionLayer E}
    {chain after : ChainState E} {bytes : List U8} {block : ExecutedBlock}
    {wire : ProposedBlockWire E} (hdecode : layer.decode bytes = .ok wire)
    (haccept : registerProposedBlock layer chain bytes = .ok (block, after)) :
    after.pending.get? chain.nextPayloadId = some (storeProposed wire) := by
  obtain ⟨other, hother, -, -, rfl⟩ := registerProposedBlock_eq_ok haccept
  obtain rfl := Except.ok.inj (hdecode.symm.trans hother)
  exact chain.get?_insertPending_self _

/-! ## Blocks without a lasting effect -/

/-- Of the calls in no failed `CALL` frame, none takes effect on the state in which it
runs. -/
def NothingLasts (trace : Trace FrameKind PrecompileCall) (state : EvmState) : Prop :=
  (journal checks globals).EachKept (fun state occurrence =>
    ¬ TakesEffect checks globals state.shared occurrence.action) [] trace state

/-- The state with the order ids of the calls taken, and nothing else changed. -/
def skims (occurrences : List (Occurrence FrameKind PrecompileCall)) (state : EvmState) :
    EvmState :=
  occurrences.foldl (fun state occurrence => skim globals occurrence.action state) state

/-- The state in which a block of which nothing lasts leaves the builder: its order ids
are taken and the buffer is drained. -/
def builtState (data : E) (state : EvmState) : EvmState :=
  (drainFills (skims globals ((frames data state).occurrences []) state)).2

variable {checks globals frames}

theorem skims_shared (occurrences : List (Occurrence FrameKind PrecompileCall))
    (state : EvmState) : (skims globals occurrences state).shared = state.shared := by
  induction occurrences generalizing state with
  | nil => rfl
  | cons occurrence rest ih =>
      rw [skims, List.foldl_cons]
      exact ih _

theorem replay_eq_skims {occurrences : List (Occurrence FrameKind PrecompileCall)}
    {state after : EvmState}
    (hlasts : (journal checks globals).Meets (fun state occurrence =>
      ¬ TakesEffect checks globals state.shared occurrence.action) state occurrences)
    (hreplay : (journal checks globals).replay occurrences state = .ok after) :
    after = skims globals occurrences state := by
  induction occurrences generalizing state with
  | nil => exact (Except.ok.inj hreplay).symm
  | cons occurrence rest ih =>
      rw [Journal.replay, List.foldlM_cons] at hreplay
      obtain ⟨middle, hstep, hrest⟩ := bind_eq_ok.1 hreplay
      rw [skims, List.foldl_cons, ← replayStep_eq_skim hlasts.1 hstep]
      exact ih (hlasts.2 middle hstep) hrest

theorem execute_eq_skims {trace : Trace FrameKind PrecompileCall} {state after : EvmState}
    (hlasts : NothingLasts checks globals trace state)
    (hexecute : OpenHlRevertGuard.execute checks globals trace state = .ok after) :
    after = skims globals (trace.occurrences []) state := by
  have hlawful := journal_lawful checks globals
  have heval := eval_of_execute hexecute
  exact replay_eq_skims (Journal.meets_of_eachKept hlawful List.any_nil heval hlasts)
    (Journal.replay_of_eval hlawful List.any_nil heval)

/-- If nothing that the block calls lasts, neither where it is built nor where the builder
commits it, the builder and a receiver end alike exactly if there were no fills to
drain. -/
theorem roles_agree_iff {built : BuiltPayload E} {fills : List Fill}
    {state building receiving : EvmState}
    (hbuild : NothingLasts checks globals (frames built.executionData state) state)
    (hcommit : NothingLasts checks globals
      (frames built.executionData (builtState globals frames built.executionData state))
      (builtState globals frames built.executionData state))
    (hbuilder : builderRole checks globals frames built state = .ok building)
    (hreceiver : receiverRole checks globals frames built fills state = .ok receiving) :
    building.shared = receiving.shared ↔ state.shared.pendingFills = [] := by
  have hreceiving : receiving.shared = state.shared := by
    rw [execute_eq_skims hbuild hreceiver, skims_shared]
  have hbuilding : building.shared = { state.shared with pendingFills := [] } := by
    rw [builderRole] at hbuilder
    obtain ⟨⟨payload, after⟩, hstore, hcommitted⟩ := bind_eq_ok.1 hbuilder
    rw [storeBuilt] at hstore
    obtain ⟨executed, hexecuted, hreturn⟩ := bind_eq_ok.1 hstore
    obtain ⟨rfl, rfl⟩ := Prod.mk.inj (Except.ok.inj hreturn)
    obtain rfl := execute_eq_skims hbuild hexecuted
    rw [execute_eq_skims hcommit hcommitted, skims_shared, builtState, drainFills,
      skims_shared]
  rw [hbuilding, hreceiving]
  constructor
  · intro hsame
    exact (congrArg BridgeState.pendingFills hsame).symm
  · intro hempty
    rw [← hempty]

end Roles

/-! ## Blocks that deposit -/

/-- One transaction that deposits and succeeds. -/
def depositTrace (account : AccountId) (amount : I64) :
    Trace FrameKind PrecompileCall :=
  .frame .call true (.act (.deposit (depositCalldata account amount)) .done) .done

theorem execute_depositTrace {checks : U64.OverflowChecks} {globals : ProcessGlobals}
    (hinstalled : globals.accountsInstalled = true) (account : AccountId) (amount : I64)
    (state : EvmState) :
    OpenHlRevertGuard.execute checks globals (depositTrace account amount) state =
      .ok { state with shared := deposit state.shared account amount } := by
  rw [← depositPrecompile_calldata hinstalled]
  rfl

/-- A deposit is credited once by the validator that received the block and twice by
the one that built it. -/
theorem roles_deposit {E : Type} (checks : U64.OverflowChecks) {globals : ProcessGlobals}
    (hinstalled : globals.accountsInstalled = true) (built : BuiltPayload E)
    (fills : List Fill) (account : AccountId) (amount : I64) (state : EvmState) :
    let frames := fun (_ : E) (_ : EvmState) => depositTrace account amount
    ∃ building receiving,
      builderRole checks globals frames built state = .ok building ∧
      receiverRole checks globals frames built fills state = .ok receiving ∧
      receiving.shared = deposit state.shared account amount ∧
      building.shared = { deposit (deposit state.shared account amount) account amount with
        pendingFills := [] } := by
  intro frames
  have hexecute := @execute_depositTrace checks globals hinstalled account amount
  have hbuilder : builderRole checks globals frames built state =
      .ok { state with
        shared := { deposit (deposit state.shared account amount) account amount with
          pendingFills := [] } } := by
    rw [builderRole, storeBuilt, executePayload, hexecute, ok_bind]
    exact hexecute _
  exact ⟨_, _, hbuilder, hexecute state, rfl, rfl⟩

theorem installedGlobals_accounts : installedGlobals.accountsInstalled = true := rfl

/-- A payload; its header plays no part in what the roles execute. -/
def depositPayload : BuiltPayload Unit :=
  { hash := 0
    header := { parentHash := 0, number := 1, timestamp := 1, beneficiary := 0
                mixHash := 0, gasLimit := 0, difficulty := 0, baseFeePerGas := none
                stateRoot := emptyRootHash, rest := [] }
    executionData := () }

/-- A frame that succeeds although its withdrawal is refused, and in it a frame that
deposits and fails. -/
def refusedWithdraw : Trace FrameKind PrecompileCall :=
  .frame .call true
    (.act (.withdraw (withdrawCalldata 9 1))
      (.frame .call false (.act (.deposit (depositCalldata 1 500)) .done) .done))
    .done

theorem refusedWithdraw_lastsNot (checks : U64.OverflowChecks) {state : EvmState}
    (hunknown : state.shared.accounts.get? 9 = none) :
    NothingLasts checks installedGlobals refusedWithdraw state := by
  refine ⟨⟨fun _ => withdraw_unknown hunknown 1, fun _ _ =>
    ⟨⟨fun hkept => ?_, fun _ _ => trivial⟩, fun _ _ => trivial⟩⟩, fun _ _ => trivial⟩
  exact absurd hkept (by simp [Journal.rolledBack, journal])

/-- The refused withdrawal survives and the deposit does not; the validators agree. -/
theorem roles_agree_iff_refusedWithdraw :
    survivors refusedWithdraw = [.withdraw (withdrawCalldata 9 1)] ∧
    ∃ building receiving,
      builderRole .on installedGlobals (fun _ _ => refusedWithdraw) depositPayload
        newEvmState = .ok building ∧
      receiverRole .on installedGlobals (fun _ _ => refusedWithdraw) depositPayload []
        newEvmState = .ok receiving ∧
      building.shared = receiving.shared := by
  have hbuilder : builderRole .on installedGlobals (fun _ _ => refusedWithdraw)
      depositPayload newEvmState = .ok _ := rfl
  have hreceiver : receiverRole .on installedGlobals (fun _ _ => refusedWithdraw)
      depositPayload [] newEvmState = .ok _ := rfl
  exact ⟨rfl, _, _, hbuilder, hreceiver, (roles_agree_iff
    (refusedWithdraw_lastsNot .on rfl) (refusedWithdraw_lastsNot .on rfl) hbuilder
    hreceiver).2 rfl⟩

/-- The validator that built a block with a deposit of 500 has credited 1000. -/
theorem not_forall_roles_agree :
    ¬ ∀ (checks : U64.OverflowChecks) (globals : ProcessGlobals)
      (frames : Unit → EvmState → Trace FrameKind PrecompileCall)
      (built : BuiltPayload Unit) (fills : List Fill)
      (state building receiving : EvmState),
      builderRole checks globals frames built state = .ok building →
      receiverRole checks globals frames built fills state = .ok receiving →
      building.shared = receiving.shared := by
  intro hagree
  obtain ⟨building, receiving, hbuilder, hreceiver, hreceived, hbuilt⟩ :=
    roles_deposit .on installedGlobals_accounts depositPayload [] 1 500 newEvmState
  have hsame := hagree _ _ _ _ _ _ _ _ hbuilder hreceiver
  rw [hbuilt, hreceived] at hsame
  have hcollateral := congrArg
    (fun shared => (shared.accounts.getOrFlat 1).collateral) hsame
  exact absurd hcollateral (by decide)

end OpenHl.Evm
