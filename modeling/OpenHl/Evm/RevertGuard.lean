import OpenHl.Core.Savepoint
import OpenHl.Evm.AccountPrecompiles

/-!
# Precompile calls in reverting frames

The mutating precompiles write to process globals, which the EVM does not roll
back.  `OpenHlRevertGuard` snapshots the bridge state on entry to a call frame
and restores it when the frame fails.  Its hooks are `call` and `call_end`: it
does not see `CREATE` frames, and it does not restore `NEXT_ORDER_ID`.

`execute_eq_survivors`: in a trace where nothing takes effect in a failed
`CREATE` frame alone, and no order follows one that was rolled back, the bridge
state is that of the calls whose frames all succeed.  Whether a call takes effect
is judged on the state in which it runs (`run_eq_self_iff`).
-/

namespace OpenHl.Evm

open Machine OpenHl.Clob OpenHl.Clearing Savepoint

/-- A call of one of the mutating precompiles with its calldata. -/
inductive PrecompileCall where
  | placeOrder (input : List U8)
  | deposit (input : List U8)
  | withdraw (input : List U8)
  deriving DecidableEq

/-- What precompiles change: the shared bridge state and `NEXT_ORDER_ID`. -/
structure EvmState where
  nextOrderId : OrderId
  shared : BridgeState

/-- Run a precompile of a process with the given globals. -/
def PrecompileCall.run (checks : U64.OverflowChecks) (globals : ProcessGlobals)
    (state : EvmState) : PrecompileCall → Except Stop EvmState
  | .placeOrder input =>
      match Evm.placeOrder { globals.toGlobals with nextOrderId := state.nextOrderId }
          state.shared input with
      | .error panic => .error (.panic panic)
      | .ok (after, shared, _) =>
          .ok { nextOrderId := after.nextOrderId, shared := shared }
  | .deposit input =>
      .ok { state with shared := (depositPrecompile globals state.shared input).1 }
  | .withdraw input =>
      match withdrawCall checks globals state.shared input with
      | .error fault => .error (.fault fault)
      | .ok (shared, _) => .ok { state with shared := shared }

/-! ## The guard -/

inductive FrameKind where
  | call
  | create
  deriving DecidableEq

/-- The contents of the installed globals. -/
structure BridgeStateSnapshot where
  accounts : Option AccountMap
  book : Option Book
  fills : Option (List Fill)

def snapshotBridgeState (globals : ProcessGlobals) (shared : BridgeState) :
    BridgeStateSnapshot :=
  { accounts := if globals.accountsInstalled then some shared.accounts else none
    book := if globals.clobInstalled then some shared.clob else none
    fills := if globals.fillSinkInstalled then some shared.pendingFills else none }

/-- Overwrite the installed globals; what was not captured stays. -/
def restoreBridgeState (globals : ProcessGlobals) (shared : BridgeState)
    (snapshot : BridgeStateSnapshot) : BridgeState :=
  { accounts := match snapshot.accounts with
      | some accounts => if globals.accountsInstalled then accounts else shared.accounts
      | none => shared.accounts
    clob := match snapshot.book with
      | some book => if globals.clobInstalled then book else shared.clob
      | none => shared.clob
    pendingFills := match snapshot.fills with
      | some fills => if globals.fillSinkInstalled then fills else shared.pendingFills
      | none => shared.pendingFills }

/-- The state under the guard, with its `savepoints`. -/
abbrev Guarded := Journaled EvmState BridgeStateSnapshot

namespace OpenHlRevertGuard

def call (globals : ProcessGlobals) (guarded : Guarded) : Guarded :=
  { guarded with
    savepoints := snapshotBridgeState globals guarded.state.shared :: guarded.savepoints }

def callEnd (globals : ProcessGlobals) (guarded : Guarded) (isOk : Bool) : Guarded :=
  match guarded.savepoints with
  | [] => guarded
  | snapshot :: savepoints =>
      { state := if !isOk then
          { guarded.state with
            shared := restoreBridgeState globals guarded.state.shared snapshot }
          else guarded.state
        savepoints := savepoints }

/-- What happens at an event of the EVM; `create` and `create_end` keep their
empty default. -/
def inspect (checks : U64.OverflowChecks) (globals : ProcessGlobals)
    (guarded : Guarded) : Event FrameKind PrecompileCall → Except Stop Guarded
  | .enter .call => .ok (call globals guarded)
  | .leave .call isOk => .ok (callEnd globals guarded isOk)
  | .enter .create => .ok guarded
  | .leave .create _ => .ok guarded
  | .act precompile =>
      (precompile.run checks globals guarded.state).map fun state =>
        { guarded with state := state }

/-- The state after a trace of frames, run by an EVM with a fresh guard. -/
def execute (checks : U64.OverflowChecks) (globals : ProcessGlobals)
    (trace : Trace FrameKind PrecompileCall) (state : EvmState) :
    Except Stop EvmState :=
  (trace.events.foldlM (inspect checks globals)
    { state := state, savepoints := [] }).map Journaled.state

end OpenHlRevertGuard

/-! ## What one call does -/

/-- The order that calldata asks for, without its id. -/
def decodeOrder (input : List U8) : Option Order :=
  if input.length < 128 then none
  else
    match sideOfByte (input.getD 63 0) with
    | none => none
    | some side =>
        let qty := u64FromBeChunk ((input.drop 96).take 32)
        if qty = 0 then none
        else
          some { id := 0, account := u64FromBeChunk (input.take 32), side := side
                 qty := qty
                 orderType := .limit (u64FromBeChunk ((input.drop 64).take 32)) }

/-- The call takes an order id. -/
def places (globals : ProcessGlobals) : PrecompileCall → Bool
  | .placeOrder input => globals.clobInstalled && (decodeOrder input).isSome
  | .deposit _ => false
  | .withdraw _ => false

/-- The call changes the state: it places an order, opens an account or moves its
balance by a deposit, or withdraws something. -/
def TakesEffect (checks : U64.OverflowChecks) (globals : ProcessGlobals)
    (shared : BridgeState) : PrecompileCall → Prop
  | .placeOrder input => places globals (.placeOrder input) = true
  | .deposit input =>
      globals.accountsInstalled = true ∧ 64 ≤ input.length ∧
        ∀ account, shared.accounts.get? (u64FromBeChunk (input.take 32)) = some account →
          account.collateral.saturatingAdd (i64FromBeChunk ((input.drop 32).take 32)) ≠
            account.collateral
  | .withdraw input =>
      u64FromBeChunk ((input.drop 32).take 32) ≠ 0 ∧
        ∃ after balance, withdrawCall checks globals shared input =
          .ok (after, some balance)

section Calls

variable {checks : U64.OverflowChecks} {globals : ProcessGlobals}

theorem placeOrder_run (checks : U64.OverflowChecks) (globals : ProcessGlobals)
    (state : EvmState) (input : List U8) :
    (PrecompileCall.placeOrder input).run checks globals state =
      match decodeOrder input with
      | none => .ok state
      | some order =>
          if globals.clobInstalled then
            match state.shared.clob.submit { order with id := state.nextOrderId } with
            | .error panic => .error (.panic panic)
            | .ok (book, result) =>
                .ok { nextOrderId := state.nextOrderId + 1
                      shared := { state.shared with
                        clob := book
                        pendingFills :=
                          if result.fills.isEmpty || !globals.fillSinkInstalled then
                            state.shared.pendingFills
                          else state.shared.pendingFills ++ result.fills } }
          else .ok state := by
  rw [PrecompileCall.run, Evm.placeOrder, decodeOrder]
  dsimp only
  by_cases hlength : input.length < 128
  · rw [if_pos hlength, if_pos hlength]
  · rw [if_neg hlength, if_neg hlength]
    cases sideOfByte (input.getD 63 0) with
    | none => rfl
    | some side =>
        by_cases hqty : u64FromBeChunk ((input.drop 96).take 32) = 0
        · simp only [hqty, if_true]
        · simp only [hqty, if_false]
          cases globals.clobInstalled with
          | false => rfl
          | true =>
              simp only [Bool.not_true, Bool.false_eq_true, if_false, if_true]
              cases state.shared.clob.submit _ with
              | error panic => rfl
              | ok result => rfl

/-- What no precompile changes: the part of the state whose global is not
installed. -/
structure KeepsUninstalled (globals : ProcessGlobals) (before after : BridgeState) :
    Prop where
  accounts : globals.accountsInstalled = false → after.accounts = before.accounts
  clob : globals.clobInstalled = false → after.clob = before.clob
  fills : globals.fillSinkInstalled = false → after.pendingFills = before.pendingFills

theorem KeepsUninstalled.refl (globals : ProcessGlobals) (shared : BridgeState) :
    KeepsUninstalled globals shared shared :=
  ⟨fun _ => rfl, fun _ => rfl, fun _ => rfl⟩

theorem KeepsUninstalled.withAccounts
    (hinstalled : globals.accountsInstalled = true) (shared : BridgeState)
    (accounts : AccountMap) :
    KeepsUninstalled globals shared { shared with accounts := accounts } where
  accounts hmissing := by
    rw [hinstalled] at hmissing
    cases hmissing
  clob _ := rfl
  fills _ := rfl

/-- What the deposit precompile leaves behind. -/
theorem depositPrecompile_state (globals : ProcessGlobals) (shared : BridgeState)
    (input : List U8) :
    (depositPrecompile globals shared input).1 =
      if globals.accountsInstalled = true ∧ 64 ≤ input.length then
        deposit shared (u64FromBeChunk (input.take 32))
          (i64FromBeChunk ((input.drop 32).take 32))
      else shared := by
  rw [depositPrecompile]
  by_cases hlength : input.length < 64
  · rw [if_pos hlength, if_neg fun haccepted => absurd hlength (not_lt.2 haccepted.2)]
  · rw [if_neg hlength]
    cases hinstalled : globals.accountsInstalled with
    | false => simp
    | true => simp [not_lt.1 hlength, deposit]

theorem withdrawCall_cases {shared after : BridgeState} {input : List U8}
    {balance : Option I64}
    (hwithdraw : withdrawCall checks globals shared input = .ok (after, balance)) :
    after = shared ∨ globals.accountsInstalled = true ∧
      ∃ accounts, after = { shared with accounts := accounts } := by
  rw [withdrawCall] at hwithdraw
  split_ifs at hwithdraw with hlength hinstalled
  · exact .inl (Prod.mk.inj (Except.ok.inj hwithdraw)).1.symm
  · exact .inl (Prod.mk.inj (Except.ok.inj hwithdraw)).1.symm
  · exact .inr ⟨by simpa using hinstalled, after.accounts,
      debitInstalled_accounts hwithdraw⟩

/-! ## Which calls take effect -/

theorem takesEffect_of_places {call : PrecompileCall}
    (hplaces : places globals call = true) (shared : BridgeState) :
    TakesEffect checks globals shared call := by
  cases call with
  | placeOrder input => exact hplaces
  | deposit input => cases hplaces
  | withdraw input => cases hplaces

theorem placeOrder_of_not_places {input : List U8}
    (hplaces : places globals (.placeOrder input) = false) (state : EvmState) :
    (PrecompileCall.placeOrder input).run checks globals state = .ok state := by
  rw [places] at hplaces
  rw [placeOrder_run]
  cases horder : decodeOrder input with
  | none => rfl
  | some order =>
      rw [horder, Option.isSome_some, Bool.and_true] at hplaces
      simp only [hplaces, Bool.false_eq_true, if_false]

theorem placeOrder_orderId {input : List U8} {state after : EvmState}
    (hplaces : places globals (.placeOrder input) = true)
    (hrun : (PrecompileCall.placeOrder input).run checks globals state = .ok after) :
    after.nextOrderId = state.nextOrderId + 1 := by
  rw [places, Bool.and_eq_true] at hplaces
  obtain ⟨hinstalled, hdecodes⟩ := hplaces
  obtain ⟨order, horder⟩ := Option.isSome_iff_exists.1 hdecodes
  rw [placeOrder_run, horder] at hrun
  simp only [hinstalled, if_true] at hrun
  cases hsubmit : state.shared.clob.submit { order with id := state.nextOrderId } with
  | error panic =>
      rw [hsubmit] at hrun
      cases hrun
  | ok result =>
      rw [hsubmit] at hrun
      rw [← Except.ok.inj hrun]

/-- A deposit changes nothing exactly if the account is there and keeps its balance. -/
theorem deposit_eq_self_iff {shared : BridgeState} {key : AccountId} {amount : I64} :
    deposit shared key amount = shared ↔
      ∃ account, shared.accounts.get? key = some account ∧
        account.collateral.saturatingAdd amount = account.collateral := by
  have hmap : deposit shared key amount = shared ↔
      shared.accounts.map.upsert key (fun entry =>
        depositCollateral amount (entry.getD (Account.flat key))) = shared.accounts.map := by
    constructor
    · intro hsame
      exact congrArg (fun state => state.accounts.map) hsame
    · intro hsame
      have haccounts : shared.accounts.upsert key (depositCollateral amount)
          (depositCollateral_account amount) = shared.accounts := AccountMap.ext hsame
      rw [deposit, haccounts]
  rw [hmap, SortedMap.upsert_eq_self_iff, AccountMap.get?]
  cases shared.accounts.map.get? key with
  | none => simp
  | some account =>
      rw [Option.getD_some, Option.some.injEq]
      constructor
      · intro hkept
        exact ⟨account, rfl, (congrArg Account.collateral hkept).symm⟩
      · rintro ⟨found, hfound, hbalance⟩
        obtain rfl := Option.some.inj hfound
        rw [depositCollateral, hbalance]

/-- An accepted withdrawal changes nothing exactly if it is of nothing. -/
theorem withdrawCall_eq_self_iff {shared after : BridgeState} {input : List U8}
    {balance : I64}
    (haccept : withdrawCall checks globals shared input = .ok (after, some balance)) :
    after = shared ↔ u64FromBeChunk ((input.drop 32).take 32) = 0 := by
  rw [withdrawCall] at haccept
  dsimp only at haccept
  split_ifs at haccept
  · cases (Prod.mk.inj (Except.ok.inj haccept)).2
  · cases (Prod.mk.inj (Except.ok.inj haccept)).2
  · obtain ⟨account, hfound, hbalance, rfl⟩ := debitInstalled_accepted haccept
    have hkept := @debited_eq_self_iff _ _ _ hfound balance
    constructor
    · intro hsame
      obtain rfl := hkept.1 (congrArg BridgeState.accounts hsame)
      apply Fin.ext
      change _ = 0
      omega
    · intro hzero
      rw [hzero] at hbalance
      have hsame : balance = account.collateral := I64.ext (hbalance.trans (sub_zero _))
      rw [hkept.2 hsame]

theorem withShared_eq_self_iff {state : EvmState} {shared : BridgeState} :
    ({ state with shared := shared } : EvmState) = state ↔ shared = state.shared :=
  ⟨fun hsame => congrArg EvmState.shared hsame, fun hsame => by rw [hsame]⟩

theorem withdraw_run_eq_ok {input : List U8} {state after : EvmState}
    (hrun : (PrecompileCall.withdraw input).run checks globals state = .ok after) :
    ∃ shared balance,
      withdrawCall checks globals state.shared input = .ok (shared, balance) ∧
        after = { state with shared := shared } := by
  rw [PrecompileCall.run] at hrun
  split at hrun
  · cases hrun
  · next shared balance hwithdraw =>
    exact ⟨shared, balance, hwithdraw, (Except.ok.inj hrun).symm⟩

theorem placeOrder_run_eq_self_iff {input : List U8} {state after : EvmState}
    (hrun : (PrecompileCall.placeOrder input).run checks globals state = .ok after) :
    after = state ↔ places globals (.placeOrder input) = false := by
  cases hplaces : places globals (.placeOrder input) with
  | false =>
      rw [placeOrder_of_not_places hplaces] at hrun
      exact iff_of_true (Except.ok.inj hrun).symm rfl
  | true =>
      refine iff_of_false (fun hsame => ?_) (by decide)
      have hnext := placeOrder_orderId hplaces hrun
      rw [hsame, left_eq_add] at hnext
      exact absurd hnext (by decide)

theorem depositPrecompile_eq_self_iff {shared : BridgeState} {input : List U8} :
    (depositPrecompile globals shared input).1 = shared ↔
      ¬ TakesEffect checks globals shared (.deposit input) := by
  rw [depositPrecompile_state, TakesEffect]
  split_ifs with haccepted
  · rw [deposit_eq_self_iff]
    simp [haccepted]
  · exact iff_of_true rfl fun heffect => haccepted ⟨heffect.1, heffect.2.1⟩

theorem withdrawCall_unchanged_iff {shared after : BridgeState} {input : List U8}
    {balance : Option I64}
    (hwithdraw : withdrawCall checks globals shared input = .ok (after, balance)) :
    after = shared ↔ ¬ TakesEffect checks globals shared (.withdraw input) := by
  cases balance with
  | none =>
      obtain rfl := withdrawCall_rejected hwithdraw
      refine iff_of_true rfl ?_
      rintro ⟨-, other, balance, haccept⟩
      rw [hwithdraw] at haccept
      cases (Prod.mk.inj (Except.ok.inj haccept)).2
  | some balance =>
      have haccepted : ∃ after balance, withdrawCall checks globals shared input =
          .ok (after, some balance) := ⟨after, balance, hwithdraw⟩
      rw [withdrawCall_eq_self_iff hwithdraw, TakesEffect, and_iff_left haccepted, not_not]

/-- `TakesEffect` says which calls leave another state than they met. -/
theorem run_eq_self_iff {call : PrecompileCall} {state after : EvmState}
    (hrun : call.run checks globals state = .ok after) :
    after = state ↔ ¬ TakesEffect checks globals state.shared call := by
  cases call with
  | placeOrder input =>
      rw [placeOrder_run_eq_self_iff hrun, TakesEffect, Bool.not_eq_true]
  | deposit input =>
      obtain rfl := Except.ok.inj hrun
      rw [withShared_eq_self_iff, depositPrecompile_eq_self_iff]
  | withdraw input =>
      obtain ⟨shared, balance, hwithdraw, rfl⟩ := withdraw_run_eq_ok hrun
      rw [withShared_eq_self_iff, withdrawCall_unchanged_iff hwithdraw]

/-- What is left of a call when its effect on the bridge state is rolled back. -/
def skim (globals : ProcessGlobals) (call : PrecompileCall) (state : EvmState) :
    EvmState :=
  { state with
    nextOrderId :=
      if places globals call then state.nextOrderId + 1 else state.nextOrderId }

theorem skim_of_not_places {globals : ProcessGlobals} {call : PrecompileCall}
    (hplaces : places globals call = false) (state : EvmState) :
    skim globals call state = state := by
  rw [skim, hplaces]
  rfl

theorem placeOrder_spec {input : List U8} {state after : EvmState}
    (hrun : (PrecompileCall.placeOrder input).run checks globals state = .ok after) :
    after.nextOrderId = (skim globals (.placeOrder input) state).nextOrderId ∧
      KeepsUninstalled globals state.shared after.shared := by
  rw [placeOrder_run] at hrun
  rw [skim, places]
  cases horder : decodeOrder input with
  | none =>
      rw [horder] at hrun
      rw [← Except.ok.inj hrun]
      exact ⟨by simp, .refl globals _⟩
  | some order =>
      rw [horder] at hrun
      cases hinstalled : globals.clobInstalled with
      | false =>
          simp only [hinstalled, Bool.false_eq_true, if_false] at hrun
          rw [← Except.ok.inj hrun]
          exact ⟨by simp, .refl globals _⟩
      | true =>
          simp only [hinstalled, if_true] at hrun
          cases hsubmit : state.shared.clob.submit
              { order with id := state.nextOrderId } with
          | error panic =>
              rw [hsubmit] at hrun
              cases hrun
          | ok result =>
              rw [hsubmit] at hrun
              rw [← Except.ok.inj hrun]
              refine ⟨by simp, fun _ => rfl, fun hclob => ?_, fun hsink => ?_⟩
              · rw [hinstalled] at hclob
                cases hclob
              · simp [hsink]

/-- A call advances the order id if it places an order, and leaves what is not
installed. -/
theorem run_spec {call : PrecompileCall} {state after : EvmState}
    (hrun : call.run checks globals state = .ok after) :
    after.nextOrderId = (skim globals call state).nextOrderId ∧
      KeepsUninstalled globals state.shared after.shared := by
  cases call with
  | placeOrder input => exact placeOrder_spec hrun
  | deposit input =>
      rw [PrecompileCall.run] at hrun
      rw [← Except.ok.inj hrun, skim_of_not_places rfl]
      refine ⟨rfl, ?_⟩
      rw [depositPrecompile_state]
      split_ifs with haccepted
      · exact .withAccounts haccepted.1 _ _
      · exact .refl globals _
  | withdraw input =>
      obtain ⟨shared, balance, hwithdraw, rfl⟩ := withdraw_run_eq_ok hrun
      rw [skim_of_not_places rfl]
      refine ⟨rfl, ?_⟩
      obtain rfl | ⟨hinstalled, accounts, rfl⟩ := withdrawCall_cases hwithdraw
      · exact .refl globals _
      · exact .withAccounts hinstalled _ accounts

/-- A call that places no order does not look at the order id. -/
theorem run_withOrderId {call : PrecompileCall} (hplaces : places globals call = false)
    (state : EvmState) (orderId : OrderId) :
    call.run checks globals { state with nextOrderId := orderId } =
      (call.run checks globals state).map fun after =>
        { after with nextOrderId := orderId } := by
  cases call with
  | placeOrder input =>
      rw [placeOrder_of_not_places hplaces, placeOrder_of_not_places hplaces]
      rfl
  | deposit input => rfl
  | withdraw input =>
      rw [PrecompileCall.run, PrecompileCall.run]
      cases withdrawCall checks globals state.shared input with
      | error fault => rfl
      | ok result => rfl

end Calls

/-! ## The guard as a journal -/

def journal (checks : U64.OverflowChecks) (globals : ProcessGlobals) :
    Journal FrameKind PrecompileCall EvmState BridgeStateSnapshot Stop :=
  { act := fun call state => call.run checks globals state
    hooked := fun kind => kind = .call
    save := fun state => snapshotBridgeState globals state.shared
    restore := fun snapshot state =>
      { state with shared := restoreBridgeState globals state.shared snapshot }
    skim := skim globals }

theorem inspect_eq_step (checks : U64.OverflowChecks) (globals : ProcessGlobals) :
    OpenHlRevertGuard.inspect checks globals = (journal checks globals).step := by
  funext guarded event
  cases event with
  | enter kind =>
      cases kind with
      | call => rfl
      | create => rfl
  | leave kind isOk =>
      cases kind with
      | call =>
          obtain ⟨state, savepoints⟩ := guarded
          cases savepoints with
          | nil => rfl
          | cons snapshot savepoints =>
              cases isOk with
              | true => rfl
              | false => rfl
      | create => rfl
  | act call => rfl

theorem restore_snapshot (globals : ProcessGlobals) (saved shared : BridgeState) :
    restoreBridgeState globals shared (snapshotBridgeState globals saved) =
      { accounts := if globals.accountsInstalled then saved.accounts else shared.accounts
        clob := if globals.clobInstalled then saved.clob else shared.clob
        pendingFills :=
          if globals.fillSinkInstalled then saved.pendingFills
          else shared.pendingFills } := by
  rw [restoreBridgeState, snapshotBridgeState]
  cases globals.accountsInstalled <;> cases globals.clobInstalled <;>
    cases globals.fillSinkInstalled <;> rfl

theorem ite_kept {α : Type} {installed : Bool} {saved before after : α}
    (hkept : installed = false → after = before) :
    (if installed then saved else after) = if installed then saved else before := by
  cases installed with
  | false => exact hkept rfl
  | true => rfl

theorem journal_lawful (checks : U64.OverflowChecks) (globals : ProcessGlobals) :
    (journal checks globals).Lawful := by
  constructor
  · intro state
    simp only [journal, restore_snapshot, ite_self]
  · intro outer inner state
    simp only [journal, restore_snapshot]
    cases globals.accountsInstalled <;> cases globals.clobInstalled <;>
      cases globals.fillSinkInstalled <;> rfl
  · intro call before after saved hrun
    obtain ⟨horderId, hkeeps⟩ := run_spec hrun
    simp only [journal, restore_snapshot, skim] at horderId ⊢
    rw [horderId, ite_kept hkeeps.accounts, ite_kept hkeeps.clob, ite_kept hkeeps.fills]

/-! ## The calls that survive -/

/-- The calls all of whose frames succeed, in their order. -/
def survivors (trace : Trace FrameKind PrecompileCall) : List PrecompileCall :=
  ((trace.occurrences []).filter Occurrence.survives).map Occurrence.action

section Survivors

variable (checks : U64.OverflowChecks) (globals : ProcessGlobals)

/-- Calls one after the other, outside of any frame. -/
def executeCalls (calls : List PrecompileCall) (state : EvmState) :
    Except Stop EvmState :=
  calls.foldlM (fun state call => call.run checks globals state) state

/-- The call takes effect only if it survives. -/
def EffectSurvives (state : EvmState) (occurrence : Occurrence FrameKind PrecompileCall) :
    Prop :=
  TakesEffect checks globals state.shared occurrence.action →
    occurrence.survives = true

/-- Of the calls in no failed `CALL` frame, those in a failed `CREATE` frame do not take
effect on the state in which they run. -/
def CreatesCovered (trace : Trace FrameKind PrecompileCall) (state : EvmState) : Prop :=
  (journal checks globals).EachKept (EffectSurvives checks globals) [] trace state

/-- No order of a failed frame comes before one of frames that succeed. -/
def OrdersAhead (occurrences : List (Occurrence FrameKind PrecompileCall)) : Prop :=
  occurrences.Pairwise fun earlier later =>
    places globals earlier.action = true → places globals later.action = true →
      later.survives = true → earlier.survives = true

variable {checks globals}
variable {occurrence : Occurrence FrameKind PrecompileCall}
  {rest : List (Occurrence FrameKind PrecompileCall)}

theorem rolledBack_iff : (journal checks globals).rolledBack occurrence = true ↔
    (FrameKind.call, false) ∈ occurrence.enclosing := by
  simp [Journal.rolledBack, journal, and_comm, Prod.exists]

theorem not_rolledBack_of_survives (hsurvives : occurrence.survives = true) :
    (journal checks globals).rolledBack occurrence = false := by
  rw [← Bool.not_eq_true, rolledBack_iff]
  intro hmem
  exact absurd (List.all_eq_true.1 hsurvives _ hmem) (by decide)

theorem replayStep_of_survives (hsurvives : occurrence.survives = true)
    (state : EvmState) :
    (journal checks globals).replayStep state occurrence =
      occurrence.action.run checks globals state := by
  rw [Journal.replayStep, not_rolledBack_of_survives hsurvives]
  rfl

/-- Of a call that is rolled back, or takes no effect, only the skim is left. -/
theorem replayStep_eq_skim {state next : EvmState}
    (hnone : (journal checks globals).rolledBack occurrence = false →
      ¬ TakesEffect checks globals state.shared occurrence.action)
    (hstep : (journal checks globals).replayStep state occurrence = .ok next) :
    next = skim globals occurrence.action state := by
  cases hrolledBack : (journal checks globals).rolledBack occurrence with
  | true =>
      rw [Journal.replayStep, hrolledBack] at hstep
      exact (Except.ok.inj hstep).symm
  | false =>
      have hkept := hnone hrolledBack
      have hplaces : places globals occurrence.action = false := by
        rw [← Bool.not_eq_true]
        exact fun hplaces => hkept (takesEffect_of_places hplaces state.shared)
      rw [Journal.replayStep, hrolledBack] at hstep
      rw [skim_of_not_places hplaces]
      exact (run_eq_self_iff hstep).2 hkept

/-- No order of frames that succeed is left. -/
def NoOrderSurvives (globals : ProcessGlobals)
    (occurrences : List (Occurrence FrameKind PrecompileCall)) : Prop :=
  ∀ occurrence ∈ occurrences, places globals occurrence.action = true →
    occurrence.survives = false

theorem NoOrderSurvives.tail (hnone : NoOrderSurvives globals (occurrence :: rest)) :
    NoOrderSurvives globals rest :=
  fun other hother => hnone other (List.mem_cons_of_mem _ hother)

theorem NoOrderSurvives.not_places (hnone : NoOrderSurvives globals (occurrence :: rest))
    (hsurvives : occurrence.survives = true) :
    places globals occurrence.action = false := by
  rw [← Bool.not_eq_true]
  intro hplaces
  rw [hnone occurrence List.mem_cons_self hplaces] at hsurvives
  cases hsurvives

/-- An order of a failed frame is the last one that could have survived. -/
theorem OrdersAhead.noOrderSurvives (horders : OrdersAhead globals (occurrence :: rest))
    (hplaces : places globals occurrence.action = true)
    (hfails : occurrence.survives = false) : NoOrderSurvives globals rest := by
  intro other hother hotherPlaces
  rw [← Bool.not_eq_true]
  intro hotherSurvives
  have hahead :=
    (List.pairwise_cons.1 horders).1 other hother hplaces hotherPlaces hotherSurvives
  rw [hfails] at hahead
  cases hahead

/-- Replaying the calls of a trace, next to executing its survivors.  The order ids
agree until an order is rolled back, and are not used afterwards. -/
theorem executeCalls_of_replay {occurrences : List (Occurrence FrameKind PrecompileCall)}
    {state after : EvmState}
    (hcreates : (journal checks globals).Meets (EffectSurvives checks globals) state
      occurrences)
    (horders : OrdersAhead globals occurrences)
    (hreplay : (journal checks globals).replay occurrences state = .ok after)
    {orderId : OrderId}
    (hid : orderId = state.nextOrderId ∨ NoOrderSurvives globals occurrences) :
    ∃ finalId, executeCalls checks globals
        ((occurrences.filter Occurrence.survives).map Occurrence.action)
        { state with nextOrderId := orderId } =
      .ok { after with nextOrderId := finalId } := by
  induction occurrences generalizing state orderId with
  | nil =>
      rw [← Except.ok.inj hreplay]
      exact ⟨orderId, rfl⟩
  | cons occurrence rest ih =>
      rw [Journal.replay, List.foldlM_cons] at hreplay
      obtain ⟨middle, hstep, hrest⟩ := bind_eq_ok.1 hreplay
      have hcreatesRest := hcreates.2 middle hstep
      have hordersRest : OrdersAhead globals rest := (List.pairwise_cons.1 horders).2
      cases hsurvives : occurrence.survives with
      | true =>
          rw [replayStep_of_survives hsurvives] at hstep
          rw [List.filter_cons_of_pos hsurvives, List.map_cons, executeCalls,
            List.foldlM_cons]
          rcases hid with rfl | hnone
          · rw [hstep, ok_bind]
            exact ih hcreatesRest hordersRest hrest (.inl rfl)
          · rw [run_withOrderId (hnone.not_places hsurvives), hstep]
            exact ih hcreatesRest hordersRest hrest (.inr hnone.tail)
      | false =>
          have hskim : middle = skim globals occurrence.action state := by
            apply replayStep_eq_skim _ hstep
            intro hkept heffect
            have hother := hcreates.1 hkept heffect
            rw [hsurvives] at hother
            cases hother
          rw [List.filter_cons_of_neg (by rw [hsurvives]; decide)]
          cases hplaces : places globals occurrence.action with
          | true =>
              rw [hskim] at hcreatesRest hrest
              exact ih hcreatesRest hordersRest hrest
                (.inr (horders.noOrderSurvives hplaces hsurvives))
          | false =>
              rw [skim_of_not_places hplaces] at hskim
              rw [hskim] at hcreatesRest hrest
              exact ih hcreatesRest hordersRest hrest
                (hid.imp_right NoOrderSurvives.tail)

theorem eval_of_execute {trace : Trace FrameKind PrecompileCall} {state after : EvmState}
    (hexecute : OpenHlRevertGuard.execute checks globals trace state = .ok after) :
    (journal checks globals).eval trace state = .ok after := by
  rw [OpenHlRevertGuard.execute, inspect_eq_step] at hexecute
  change ((journal checks globals).run _ trace.events).map _ = _ at hexecute
  rw [Journal.run_events] at hexecute
  cases heval : (journal checks globals).eval trace state with
  | error stop =>
      rw [heval] at hexecute
      cases hexecute
  | ok final =>
      rw [heval] at hexecute
      exact hexecute

/-- Where no call leaks from a failed `CREATE` frame and no order comes after one
that was rolled back, the guard leaves the bridge state of the surviving calls. -/
theorem execute_eq_survivors {trace : Trace FrameKind PrecompileCall}
    {state after : EvmState} (hcreates : CreatesCovered checks globals trace state)
    (horders : OrdersAhead globals (trace.occurrences []))
    (hexecute : OpenHlRevertGuard.execute checks globals trace state = .ok after) :
    ∃ expected, executeCalls checks globals (survivors trace) state = .ok expected ∧
      expected.shared = after.shared := by
  have hlawful := journal_lawful checks globals
  have heval := eval_of_execute hexecute
  obtain ⟨finalId, hfinal⟩ := executeCalls_of_replay
    (Journal.meets_of_eachKept hlawful List.any_nil heval hcreates) horders
    (Journal.replay_of_eval hlawful List.any_nil heval) (.inl rfl)
  exact ⟨_, hfinal, rfl⟩

/-- A withdrawal from an account that is not there is refused. -/
theorem withdraw_unknown {shared : BridgeState} {account : AccountId}
    (hunknown : shared.accounts.get? account = none) (amount : U64) :
    ¬ TakesEffect checks globals shared (.withdraw (withdrawCalldata account amount)) := by
  rintro ⟨-, after, balance, haccept⟩
  rw [withdrawCall] at haccept
  dsimp only at haccept
  split_ifs at haccept
  · cases (Prod.mk.inj (Except.ok.inj haccept)).2
  · cases (Prod.mk.inj (Except.ok.inj haccept)).2
  · rw [withdrawCalldata_account, debitInstalled, hunknown] at haccept
    cases (Prod.mk.inj (Except.ok.inj haccept)).2

end Survivors

/-- A process with a new bridge. -/
def installedGlobals : ProcessGlobals := ProcessGlobals.fresh.installBridge

def newEvmState : EvmState :=
  { nextOrderId := 1, shared := LiveBridge.new.toBridgeState }

/-- Inside a frame that succeeds: a constructor whose withdrawal is refused and which
fails, a deposit of 100, and a call that fails after two deposits, one of them in a
frame of its own. -/
def nestedDeposits : Trace FrameKind PrecompileCall :=
  .frame .call true
    (.frame .create false (.act (.withdraw (withdrawCalldata 9 1)) .done)
      (.act (.deposit (depositCalldata 1 100))
        (.frame .call false
          (.act (.deposit (depositCalldata 1 500))
            (.frame .create true (.act (.deposit (depositCalldata 2 7)) .done) .done))
          .done)))
    .done

/-- Of three deposits and a refused withdrawal, one deposit survives. -/
theorem execute_eq_survivors_nestedDeposits :
    survivors nestedDeposits = [.deposit (depositCalldata 1 100)] ∧
    ∃ expected after,
      OpenHlRevertGuard.execute .on installedGlobals nestedDeposits newEvmState =
        .ok after ∧
      executeCalls .on installedGlobals (survivors nestedDeposits) newEvmState =
        .ok expected ∧ expected.shared = after.shared := by
  have hexecute : OpenHlRevertGuard.execute .on installedGlobals nestedDeposits
      newEvmState = .ok _ := rfl
  have hcreates : CreatesCovered .on installedGlobals nestedDeposits newEvmState := by
    refine ⟨⟨⟨fun _ heffect => absurd heffect (withdraw_unknown rfl 1),
      fun _ _ => trivial⟩, fun _ _ => ⟨fun _ _ => rfl, fun _ _ => ⟨?_, fun _ _ => trivial⟩⟩⟩,
      fun _ _ => trivial⟩
    -- the calls of the failed frame are rolled back
    refine ⟨fun hkept => ?_, fun _ _ => ⟨⟨fun hkept => ?_, fun _ _ => trivial⟩,
      fun _ _ => trivial⟩⟩
    · exact absurd hkept (by decide)
    · exact absurd hkept (by decide)
  obtain ⟨expected, hexpected, hshared⟩ := execute_eq_survivors hcreates
    (by simp [OrdersAhead, nestedDeposits, Trace.occurrences, places]) hexecute
  exact ⟨rfl, expected, _, hexecute, hexpected, hshared⟩

/-- A constructor that deposits into account 1 and reverts. -/
def failedConstructor : Trace FrameKind PrecompileCall :=
  .frame .create false (.act (.deposit (depositCalldata 1 500)) .done) .done

/-- The constructor has minted its deposit. -/
theorem not_forall_execute_eq_survivors :
    ¬ ∀ (checks : U64.OverflowChecks) (globals : ProcessGlobals)
      (trace : Trace FrameKind PrecompileCall) (state after : EvmState),
      OpenHlRevertGuard.execute checks globals trace state = .ok after →
      ∃ expected, executeCalls checks globals (survivors trace) state = .ok expected ∧
        expected.shared = after.shared := by
  intro hsame
  obtain ⟨expected, hexpected, hshared⟩ :=
    hsame .on installedGlobals failedConstructor newEvmState _ rfl
  have hnone : newEvmState = expected := Except.ok.inj hexpected
  have hminted : expected.shared = deposit newEvmState.shared 1 500 :=
    hshared.trans (depositPrecompile_calldata rfl newEvmState.shared 1 500)
  rw [← hnone] at hminted
  have hcount := congrArg (fun shared => shared.accounts.map.entries.length) hminted
  exact absurd hcount (by decide)

end OpenHl.Evm
