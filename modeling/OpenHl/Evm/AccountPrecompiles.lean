import OpenHl.Evm.Margin
import OpenHl.Evm.Precompiles

/-!
# Accounts from contracts

The `openhl_deposit`, `openhl_withdraw` and `openhl_margin_health` precompiles.
They share the bridge's account map and book, but read the margin rates and the
oracle price from process globals, where the bridge keeps its own copies.

Every setter writes both copies.  But a bridge withdrawal reads the mark first and
the precompile only once the account and the amount pass, and in a build with
overflow checks the midpoint can panic.

`routes_agree_iff`: the bridge and the precompiles are interchangeable in a
sequence of operations exactly if no withdrawal of it meets a midpoint that one
route would read in vain and the other not at all.
-/

namespace OpenHl.Evm

open Machine OpenHl.Clob OpenHl.Clearing OpenHl.Funding OpenHl.Liquidation

structure ProcessGlobals extends Globals where
  accountsInstalled : Bool
  initialMarginBps : U32
  maintenanceMarginBps : U32
  oracleIndexPrice : Option U64

/-- The globals of a process that has built no bridge. -/
def ProcessGlobals.fresh : ProcessGlobals :=
  { clobInstalled := false, fillSinkInstalled := false, nextOrderId := 1
    accountsInstalled := false, initialMarginBps := 1000, maintenanceMarginBps := 200
    oracleIndexPrice := none }

/-- `LiveRethEvmBridge::new` installs its book, fill buffer and account map. -/
def ProcessGlobals.installBridge (globals : ProcessGlobals) : ProcessGlobals :=
  { globals with clobInstalled := true, fillSinkInstalled := true
                 accountsInstalled := true }

section Mark

variable (checks : U64.OverflowChecks) (globals : ProcessGlobals) (state : BridgeState)

def ProcessGlobals.currentMark : Checked (Option MarkPrice) :=
  if globals.clobInstalled then Evm.currentMark checks state.clob else .ok none

def ProcessGlobals.effectiveMark : Checked (Option MarkPrice) :=
  match globals.oracleIndexPrice with
  | some price => .ok (some price)
  | none => globals.currentMark checks state

end Mark

def depositBaseGasCost : ℕ := 500

def withdrawBaseGasCost : ℕ := 500

def marginHealthBaseGasCost : ℕ := 500

/-! ## Signed words -/

/-- The byte that extends the sign of a 64-bit value to 32 bytes. -/
def signExtension (negative : Bool) : U8 := if negative then 255 else 0

/-- A signed 64-bit value as a 32-byte ABI word. -/
def signedWord (value : I64) : List U8 :=
  List.replicate 24 (signExtension (value.val < 0)) ++
    BigEndian.toBytes 8 (BigEndian.bitsOf value).val

/-- A signed 64-bit value from an ABI word; values out of range saturate. -/
def i64FromBeChunk (chunk : List U8) : I64 :=
  let negative : Bool := 128 ≤ (chunk.getD 24 0).val
  if (chunk.take 24).any (· ≠ signExtension negative) then
    if negative then I64.minValue else I64.maxValue
  else BigEndian.readI64 ((chunk.drop 24).take 8)

@[simp]
theorem signedWord_length (value : I64) : (signedWord value).length = 32 := by
  simp [signedWord]

@[simp]
theorem i64FromBeChunk_signedWord (value : I64) :
    i64FromBeChunk (signedWord value) = value := by
  have htake : (signedWord value).take 24 =
      List.replicate 24 (signExtension (value.val < 0)) := List.take_left' (by simp)
  have hdrop : (signedWord value).drop 24 =
      BigEndian.toBytes 8 (BigEndian.bitsOf value).val := List.drop_left' (by simp)
  have hbyte : (signedWord value).getD 24 0 =
      (BigEndian.toBytes 8 (BigEndian.bitsOf value).val).getD 0 0 := by
    rw [signedWord, List.getD_append_right _ _ _ _ (by simp), List.length_replicate]
  have hsign : decide (128 ≤ ((signedWord value).getD 24 0).val) =
      decide (value.val < 0) := by
    rw [hbyte, decide_eq_decide]
    exact BigEndian.signByte_toBytes value 0
  have hbytes : (BigEndian.toBytes 8 (BigEndian.bitsOf value).val).take 8 =
      BigEndian.toBytes 8 (BigEndian.bitsOf value).val :=
    List.take_of_length_le (by simp)
  rw [i64FromBeChunk]
  simp only [hsign, htake, hdrop, hbytes, BigEndian.readI64_toBytes]
  simp

/-! ## The precompiles -/

/-- A rejection: a word of zeroes. -/
def zeroOutput (gasUsed : ℕ) : PrecompileOutput :=
  { gasUsed := gasUsed, bytes := List.replicate 32 0 }

/-- The `openhl_deposit` precompile. -/
def depositPrecompile (globals : ProcessGlobals) (state : BridgeState)
    (input : List U8) : BridgeState × PrecompileOutput :=
  if input.length < 64 then (state, zeroOutput depositBaseGasCost)
  else
    let accountId := u64FromBeChunk (input.take 32)
    let amount := i64FromBeChunk ((input.drop 32).take 32)
    if !globals.accountsInstalled then (state, zeroOutput depositBaseGasCost)
    else
      let accounts := state.accounts.upsert accountId (depositCollateral amount)
        (depositCollateral_account amount)
      ({ state with accounts := accounts },
        { gasUsed := depositBaseGasCost
          bytes := signedWord (accounts.getOrFlat accountId).collateral })

/-- The debit of the `openhl_withdraw` precompile, with the new balance or nothing
on rejection.  The mark is read only once the account is found. -/
def debitInstalled (checks : U64.OverflowChecks) (globals : ProcessGlobals)
    (state : BridgeState) (account : AccountId) (amount : U64) :
    Checked (BridgeState × Option I64) :=
  match state.accounts.get? account with
  | none => .ok (state, none)
  | some found =>
      match amount.toI64? with
      | none => .ok (state, none)
      | some amountI64 => do
          let mark ← globals.effectiveMark checks state
          let free := withdrawFreeCollateral found mark globals.initialMarginBps
          if free.val < amountI64.val then return (state, none)
          else
            let collateral ← checkedSub found.collateral amountI64
            return ({ state with accounts := debited state.accounts account collateral },
              some collateral)

/-- What the `openhl_withdraw` precompile does with its calldata. -/
def withdrawCall (checks : U64.OverflowChecks) (globals : ProcessGlobals)
    (state : BridgeState) (input : List U8) : Checked (BridgeState × Option I64) :=
  if input.length < 64 then .ok (state, none)
  else
    let accountId := u64FromBeChunk (input.take 32)
    let amount := u64FromBeChunk ((input.drop 32).take 32)
    if !globals.accountsInstalled then .ok (state, none)
    else debitInstalled checks globals state accountId amount

/-- The `openhl_withdraw` precompile; a balance of zero looks like a rejection. -/
def withdrawPrecompile (checks : U64.OverflowChecks) (globals : ProcessGlobals)
    (state : BridgeState) (input : List U8) :
    Checked (BridgeState × PrecompileOutput) := do
  let (after, balance) ← withdrawCall checks globals state input
  match balance with
  | none => return (after, zeroOutput withdrawBaseGasCost)
  | some balance =>
      return (after, { gasUsed := withdrawBaseGasCost, bytes := signedWord balance })

/-- The discriminator of a health in the last byte of the output. -/
def marginHealthTag : Option MarginHealth → U8
  | none => 0
  | some .safe => 1
  | some .atRisk => 2
  | some .liquidatable => 3
  | some .underwater => 4

def marginHealthOutput (health : Option MarginHealth) : PrecompileOutput :=
  { gasUsed := marginHealthBaseGasCost
    bytes := List.replicate 31 0 ++ [marginHealthTag health] }

/-- The `openhl_margin_health` precompile. -/
def marginHealthPrecompile (checks : U64.OverflowChecks) (globals : ProcessGlobals)
    (state : BridgeState) (input : List U8) : Checked PrecompileOutput :=
  if input.length < 32 then .ok (marginHealthOutput none)
  else do
    let accountId := u64FromBeChunk (input.take 32)
    match ← globals.effectiveMark checks state with
    | none => return marginHealthOutput none
    | some mark =>
        if !globals.accountsInstalled then return marginHealthOutput none
        else
          return marginHealthOutput ((state.accounts.get? accountId).map fun found =>
            Liquidation.marginHealth
              { account := found.account, positionSize := found.positionSize
                avgEntry := found.avgEntry, collateral := found.collateral }
              mark
              { initialMarginBps := globals.initialMarginBps
                maintenanceMarginBps := globals.maintenanceMarginBps
                liquidationFeeBps := 0 })

/-- The ABI encoding of `(uint64 account, int64 amount)`. -/
def depositCalldata (account : AccountId) (amount : I64) : List U8 :=
  abiWord account.val ++ signedWord amount

/-- The ABI encoding of `(uint64 account, uint64 amount)`. -/
def withdrawCalldata (account : AccountId) (amount : U64) : List U8 :=
  abiWord account.val ++ abiWord amount.val

theorem depositPrecompile_calldata {globals : ProcessGlobals}
    (hinstalled : globals.accountsInstalled = true) (state : BridgeState)
    (account : AccountId) (amount : I64) :
    (depositPrecompile globals state (depositCalldata account amount)).1 =
      deposit state account amount := by
  have hlength : ¬ (depositCalldata account amount).length < 64 := by
    simp [depositCalldata]
  have haccount : (depositCalldata account amount).take 32 = abiWord account.val :=
    List.take_left' (by simp)
  have hamount : ((depositCalldata account amount).drop 32).take 32 =
      signedWord amount := by
    rw [depositCalldata, List.drop_left' (by simp), List.take_of_length_le (by simp)]
  rw [depositPrecompile, if_neg hlength, haccount, hamount]
  simp only [hinstalled, Bool.not_true, Bool.false_eq_true, if_false,
    u64FromBeChunk_abiWord, i64FromBeChunk_signedWord]
  rfl

@[simp]
theorem withdrawCalldata_account (account : AccountId) (amount : U64) :
    u64FromBeChunk ((withdrawCalldata account amount).take 32) = account := by
  rw [withdrawCalldata, List.take_left' (by simp), u64FromBeChunk_abiWord]

@[simp]
theorem withdrawCalldata_amount (account : AccountId) (amount : U64) :
    u64FromBeChunk (((withdrawCalldata account amount).drop 32).take 32) = amount := by
  rw [withdrawCalldata, List.drop_left' (by simp), List.take_of_length_le (by simp),
    u64FromBeChunk_abiWord]

section Debit

variable {checks : U64.OverflowChecks} {globals : ProcessGlobals}

theorem withdrawCall_calldata (hinstalled : globals.accountsInstalled = true)
    (state : BridgeState) (account : AccountId) (amount : U64) :
    withdrawCall checks globals state (withdrawCalldata account amount) =
      debitInstalled checks globals state account amount := by
  have hlength : ¬ (withdrawCalldata account amount).length < 64 := by
    simp [withdrawCalldata]
  rw [withdrawCall, if_neg hlength]
  simp only [hinstalled, Bool.not_true, Bool.false_eq_true, if_false,
    withdrawCalldata_account, withdrawCalldata_amount]

/-- A rejected debit changes nothing. -/
theorem debitInstalled_rejected {state after : BridgeState} {key : AccountId}
    {amount : U64} (hreject : debitInstalled checks globals state key amount =
      .ok (after, none)) : after = state := by
  rw [debitInstalled] at hreject
  split at hreject
  · exact (Prod.mk.inj (Except.ok.inj hreject)).1.symm
  · split at hreject
    · exact (Prod.mk.inj (Except.ok.inj hreject)).1.symm
    · obtain ⟨mark, -, hreject⟩ := bind_eq_ok.1 hreject
      dsimp only at hreject
      split_ifs at hreject
      · exact (Prod.mk.inj (Except.ok.inj hreject)).1.symm
      · obtain ⟨collateral, -, hreject⟩ := bind_eq_ok.1 hreject
        cases (Prod.mk.inj (Except.ok.inj hreject)).2

/-- An accepted debit takes the amount off the balance. -/
theorem debitInstalled_accepted {state after : BridgeState} {account : AccountId}
    {amount : U64} {balance : I64} (haccept : debitInstalled checks globals state account
      amount = .ok (after, some balance)) :
    ∃ found, state.accounts.get? account = some found ∧
      balance.val = found.collateral.val - amount.val ∧
      after = { state with accounts := debited state.accounts account balance } := by
  rw [debitInstalled] at haccept
  split at haccept
  · cases (Prod.mk.inj (Except.ok.inj haccept)).2
  · next found hfound =>
    split at haccept
    · cases (Prod.mk.inj (Except.ok.inj haccept)).2
    · next amountI64 hamount =>
      have hword : amountI64.val = amount.val := by
        rw [U64.toI64?] at hamount
        split_ifs at hamount
        rw [← Option.some.inj hamount]
      obtain ⟨mark, -, haccept⟩ := bind_eq_ok.1 haccept
      dsimp only at haccept
      split_ifs at haccept
      · cases (Prod.mk.inj (Except.ok.inj haccept)).2
      · obtain ⟨collateral, hsub, haccept⟩ := bind_eq_ok.1 haccept
        obtain ⟨rfl, hbalance⟩ := Prod.mk.inj (Except.ok.inj haccept)
        obtain rfl := Option.some.inj hbalance
        rw [checkedSub] at hsub
        split_ifs at hsub
        refine ⟨found, hfound, ?_, rfl⟩
        rw [← Except.ok.inj hsub, ← hword]

/-- A debit changes nothing but the account map. -/
theorem debitInstalled_accounts {state after : BridgeState} {account : AccountId}
    {amount : U64} {balance : Option I64}
    (hdebit : debitInstalled checks globals state account amount = .ok (after, balance)) :
    after = { state with accounts := after.accounts } := by
  cases balance with
  | none => rw [debitInstalled_rejected hdebit]
  | some balance =>
      obtain ⟨found, -, -, rfl⟩ := debitInstalled_accepted hdebit
      rfl

theorem withdrawCall_rejected {state after : BridgeState} {input : List U8}
    (hreject : withdrawCall checks globals state input = .ok (after, none)) :
    after = state := by
  rw [withdrawCall] at hreject
  dsimp only at hreject
  split_ifs at hreject
  · exact (Prod.mk.inj (Except.ok.inj hreject)).1.symm
  · exact (Prod.mk.inj (Except.ok.inj hreject)).1.symm
  · exact debitInstalled_rejected hreject

/-- The account is there and the amount is a signed word, so that a debit reads the
mark. -/
def DebitReads (accounts : AccountMap) (account : AccountId) (amount : U64) : Prop :=
  (accounts.get? account).isSome ∧ amount.toI64?.isSome

/-- A debit within its free collateral goes through, so only the mark can stop
one that reads it. -/
theorem debitInstalled_eq_error_iff {state : BridgeState} {account : AccountId}
    {amount : U64} {fault : Fault} :
    debitInstalled checks globals state account amount = .error fault ↔
      globals.effectiveMark checks state = .error fault ∧
        DebitReads state.accounts account amount := by
  rw [debitInstalled, DebitReads]
  cases state.accounts.get? account with
  | none => simp
  | some found =>
      cases hamount : amount.toI64? with
      | none => simp
      | some amountI64 =>
          cases hmark : globals.effectiveMark checks state with
          | error other => simp [Bind.bind, Except.bind]
          | ok mark =>
              dsimp only
              rw [ok_bind]
              split_ifs with hfree
              · simp [pure, Except.pure]
              · obtain ⟨collateral, hsub, -⟩ :=
                  checkedSub_eq_ok (toI64?_nonneg hamount) (not_lt.1 hfree)
                rw [hsub]
                simp [Bind.bind, Except.bind, pure, Except.pure]

end Debit

/-! ## One process, two routes -/

/-- The one bridge of a process, and the globals its precompiles read. -/
structure Process where
  bridge : LiveBridge
  globals : ProcessGlobals

inductive Route where
  | bridge
  | precompile
  deriving DecidableEq

inductive Operation where
  | submitOrder (order : Order)
  | setOracleIndexPrice (price : U64)
  | clearOracleIndexPrice
  | deposit (account : AccountId) (amount : I64)
  | withdraw (account : AccountId) (amount : U64)

/-- How an operation can stop the process. -/
inductive Stop where
  | panic (panic : Panic)
  | fault (fault : Fault)
  deriving DecidableEq

namespace Process

/-- `LiveRethEvmBridge::new(..).with_liquidation_params(params)` in a fresh
process. -/
def new (params : LiquidationParams) : Process :=
  { bridge := LiveBridge.new.withLiquidationParams params
    globals := { ProcessGlobals.fresh.installBridge with
      initialMarginBps := params.initialMarginBps
      maintenanceMarginBps := params.maintenanceMarginBps } }

/-- The process with another shared state behind its handles. -/
def withShared (process : Process) (state : BridgeState) : Process :=
  { process with bridge := { process.bridge with toBridgeState := state } }

section Step

variable (checks : U64.OverflowChecks)

/-- One operation by a route, and whether a withdrawal was accepted. -/
def step (process : Process) (route : Route) :
    Operation → Except Stop (Process × Option Bool)
  | .submitOrder order =>
      match submitOrder process.bridge.toBridgeState order with
      | .error panic => .error (.panic panic)
      | .ok (state, _) => .ok (process.withShared state, none)
  | .setOracleIndexPrice price =>
      .ok ({ bridge := process.bridge.setOracleIndexPrice price
             globals := { process.globals with oracleIndexPrice := some price } }, none)
  | .clearOracleIndexPrice =>
      .ok ({ bridge := process.bridge.clearOracleIndexPrice
             globals := { process.globals with oracleIndexPrice := none } }, none)
  | .deposit account amount =>
      match route with
      | .bridge =>
          .ok (process.withShared
            (deposit process.bridge.toBridgeState account amount), none)
      | .precompile =>
          .ok (process.withShared (depositPrecompile process.globals
            process.bridge.toBridgeState (depositCalldata account amount)).1, none)
  | .withdraw account amount =>
      match route with
      | .bridge =>
          match process.bridge.withdraw checks account amount with
          | .error fault => .error (.fault fault)
          | .ok (bridge, balance) =>
              .ok ({ process with bridge := bridge }, some balance.isSome)
      | .precompile =>
          match withdrawCall checks process.globals process.bridge.toBridgeState
              (withdrawCalldata account amount) with
          | .error fault => .error (.fault fault)
          | .ok (state, balance) =>
              .ok (process.withShared state, some balance.isSome)

/-- A sequence of operations, with the accounts and the answer after each. -/
def run (process : Process) :
    List (Operation × Route) → Except Stop (Process × List (AccountMap × Option Bool))
  | [] => .ok (process, [])
  | (operation, route) :: rest => do
      let (next, answer) ← process.step checks route operation
      let (last, observed) ← next.run rest
      return (last, (next.bridge.accounts, answer) :: observed)

end Step

/-- The globals repeat what the bridge holds. -/
structure Lockstep (process : Process) : Prop where
  clob : process.globals.clobInstalled = true
  accounts : process.globals.accountsInstalled = true
  initialMargin : process.globals.initialMarginBps =
    process.bridge.liquidationParams.initialMarginBps
  maintenanceMargin : process.globals.maintenanceMarginBps =
    process.bridge.liquidationParams.maintenanceMarginBps
  oracle : process.globals.oracleIndexPrice = process.bridge.oracleIndexPrice

theorem new_lockstep (params : LiquidationParams) : (new params).Lockstep :=
  ⟨rfl, rfl, rfl, rfl, rfl⟩

theorem Lockstep.withShared {process : Process} (hlockstep : process.Lockstep)
    (state : BridgeState) : (process.withShared state).Lockstep :=
  ⟨hlockstep.clob, hlockstep.accounts, hlockstep.initialMargin,
    hlockstep.maintenanceMargin, hlockstep.oracle⟩

section Agreement

variable {checks : U64.OverflowChecks} {process : Process}

theorem Lockstep.effectiveMark (hlockstep : process.Lockstep) :
    process.globals.effectiveMark checks process.bridge.toBridgeState =
      process.bridge.effectiveMark checks := by
  rw [ProcessGlobals.effectiveMark, LiveBridge.effectiveMark, hlockstep.oracle,
    ProcessGlobals.currentMark, hlockstep.clob]
  rfl

/-- Where there is an effective mark, or definitely none, the precompile debits as
the bridge withdraws. -/
theorem Lockstep.withdraw_eq (hlockstep : process.Lockstep) {mark : Option MarkPrice}
    (hmark : process.bridge.effectiveMark checks = .ok mark) (account : AccountId)
    (amount : U64) :
    process.bridge.withdraw checks account amount =
      (debitInstalled checks process.globals process.bridge.toBridgeState account
        amount).map
        fun result => ({ process.bridge with toBridgeState := result.1 }, result.2) := by
  rw [LiveBridge.withdraw, debitInstalled, hlockstep.effectiveMark, hmark, ok_bind]
  cases process.bridge.accounts.get? account with
  | none => rfl
  | some found =>
      cases amount.toI64? with
      | none => rfl
      | some amountI64 =>
          dsimp only
          rw [ok_bind, hlockstep.initialMargin]
          split_ifs
          · rfl
          · cases checkedSub found.collateral amountI64 with
            | error fault => rfl
            | ok collateral => rfl

/-- With an effective mark, or definitely none, both routes withdraw alike. -/
theorem Lockstep.step_withdraw (hlockstep : process.Lockstep) {mark : Option MarkPrice}
    (hmark : process.bridge.effectiveMark checks = .ok mark) (account : AccountId)
    (amount : U64) :
    process.step checks .precompile (.withdraw account amount) =
      process.step checks .bridge (.withdraw account amount) := by
  simp only [step, withdrawCall_calldata hlockstep.accounts, hlockstep.withdraw_eq hmark]
  cases debitInstalled checks process.globals process.bridge.toBridgeState account
      amount with
  | error fault => rfl
  | ok result => rfl

/-- The operation stops on neither route or on both: the sum of the best prices is
not added, or it is a word, or both routes add it. -/
def ReadsAlike (checks : U64.OverflowChecks) (process : Process) : Operation → Prop
  | .withdraw account amount =>
      checks = .off ∨ process.bridge.oracleIndexPrice.isSome ∨
        MidpointFits process.bridge.clob ∨
        DebitReads process.bridge.accounts account amount
  | .submitOrder _ => True
  | .setOracleIndexPrice _ => True
  | .clearOracleIndexPrice => True
  | .deposit _ _ => True

/-- Where the mark cannot be computed, the bridge panics, and the precompile does if it
reads the mark. -/
theorem Lockstep.step_withdraw_iff (hlockstep : process.Lockstep) {fault : Fault}
    (hmark : process.bridge.effectiveMark checks = .error fault) (account : AccountId)
    (amount : U64) :
    process.step checks .precompile (.withdraw account amount) =
        process.step checks .bridge (.withdraw account amount) ↔
      DebitReads process.bridge.accounts account amount := by
  have hbridge : process.step checks .bridge (.withdraw account amount) =
      .error (.fault fault) := by
    rw [step, LiveBridge.withdraw, hmark]
    rfl
  have hpanics : debitInstalled checks process.globals process.bridge.toBridgeState account
      amount = .error fault ↔ DebitReads process.bridge.accounts account amount := by
    rw [debitInstalled_eq_error_iff, hlockstep.effectiveMark, hmark, eq_self, true_and]
  rw [hbridge, ← hpanics]
  simp only [step, withdrawCall_calldata hlockstep.accounts]
  cases debitInstalled checks process.globals process.bridge.toBridgeState account
      amount with
  | error other => simp
  | ok result => simp

theorem readsAlike_withdraw_iff {account : AccountId} {amount : U64} :
    ReadsAlike checks process (.withdraw account amount) ↔
      ∀ fault, process.bridge.effectiveMark checks = .error fault →
        DebitReads process.bridge.accounts account amount := by
  constructor
  · intro hreads fault hmark
    obtain ⟨horacle, hchecks, hlarge⟩ := LiveBridge.effectiveMark_eq_error_iff.1 hmark
    simpa [ReadsAlike, hchecks, horacle, hlarge] using hreads
  · intro hreads
    by_contra hparts
    simp only [ReadsAlike, not_or, Bool.not_eq_true, Option.isSome_eq_false_iff,
      Option.isNone_iff_eq_none] at hparts
    obtain ⟨hchecks, horacle, hlarge, hnone⟩ := hparts
    have hon : checks = .on := by
      cases checks with
      | on => rfl
      | off => exact absurd rfl hchecks
    exact hnone (hreads .overflow
      (LiveBridge.effectiveMark_eq_error_iff.2 ⟨horacle, hon, hlarge⟩))

/-- The routes part exactly where the bridge panics on a mark that the precompile
does not read. -/
theorem Lockstep.step_eq_iff (hlockstep : process.Lockstep) (operation : Operation) :
    process.step checks .precompile operation = process.step checks .bridge operation ↔
      ReadsAlike checks process operation := by
  cases operation with
  | submitOrder order => exact iff_of_true rfl trivial
  | setOracleIndexPrice price => exact iff_of_true rfl trivial
  | clearOracleIndexPrice => exact iff_of_true rfl trivial
  | deposit account amount =>
      refine iff_of_true ?_ trivial
      simp only [step, depositPrecompile_calldata hlockstep.accounts]
  | withdraw account amount =>
      rw [readsAlike_withdraw_iff]
      cases hmark : process.bridge.effectiveMark checks with
      | ok mark =>
          exact iff_of_true (hlockstep.step_withdraw hmark account amount)
            fun _ hfails => by cases hfails
      | error fault =>
          rw [hlockstep.step_withdraw_iff hmark]
          exact ⟨fun hreads _ _ => hreads, fun hreads => hreads fault rfl⟩

theorem Lockstep.step_routes (hlockstep : process.Lockstep) {operation : Operation}
    (hreads : ReadsAlike checks process operation) (left right : Route) :
    process.step checks left operation = process.step checks right operation := by
  have hsame := (hlockstep.step_eq_iff operation).2 hreads
  cases left with
  | bridge =>
      cases right with
      | bridge => rfl
      | precompile => exact hsame.symm
  | precompile =>
      cases right with
      | bridge => exact hsame
      | precompile => rfl

/-- A withdrawal changes nothing but the shared state. -/
theorem Lockstep.withdraw_shared (hlockstep : process.Lockstep) {account : AccountId}
    {amount : U64} {bridge : LiveBridge} {balance : Option I64}
    (hwithdraw : process.bridge.withdraw checks account amount = .ok (bridge, balance)) :
    ∃ state, bridge = { process.bridge with toBridgeState := state } := by
  obtain ⟨mark, hmark, -⟩ := bind_eq_ok.1 hwithdraw
  rw [hlockstep.withdraw_eq hmark] at hwithdraw
  cases hdebit : debitInstalled checks process.globals process.bridge.toBridgeState account
      amount with
  | error fault =>
      rw [hdebit] at hwithdraw
      cases hwithdraw
  | ok result =>
      rw [hdebit] at hwithdraw
      exact ⟨result.1, (Prod.mk.inj (Except.ok.inj hwithdraw)).1.symm⟩

theorem Lockstep.step (hlockstep : process.Lockstep) {route : Route}
    {operation : Operation} {result : Process × Option Bool}
    (hstep : process.step checks route operation = .ok result) : result.1.Lockstep := by
  cases operation with
  | submitOrder order =>
      simp only [Process.step] at hstep
      split at hstep
      · cases hstep
      · rw [← Except.ok.inj hstep]
        exact hlockstep.withShared _
  | setOracleIndexPrice price =>
      rw [← Except.ok.inj hstep]
      exact ⟨hlockstep.clob, hlockstep.accounts, hlockstep.initialMargin,
        hlockstep.maintenanceMargin, rfl⟩
  | clearOracleIndexPrice =>
      rw [← Except.ok.inj hstep]
      exact ⟨hlockstep.clob, hlockstep.accounts, hlockstep.initialMargin,
        hlockstep.maintenanceMargin, rfl⟩
  | deposit account amount =>
      have hroute := @Lockstep.step_routes checks process hlockstep
        (.deposit account amount) trivial route .bridge
      rw [hroute] at hstep
      rw [← Except.ok.inj hstep]
      exact hlockstep.withShared _
  | withdraw account amount =>
      cases route with
      | bridge =>
          simp only [Process.step] at hstep
          split at hstep
          · cases hstep
          · next bridge balance hwithdraw =>
            obtain ⟨state, rfl⟩ := hlockstep.withdraw_shared hwithdraw
            rw [← Except.ok.inj hstep]
            exact hlockstep.withShared state
      | precompile =>
          simp only [Process.step] at hstep
          split at hstep
          · cases hstep
          · rw [← Except.ok.inj hstep]
            exact hlockstep.withShared _

theorem run_cons {operation : Operation} {route : Route} {next : Process}
    {answer : Option Bool} (hstep : process.step checks route operation = .ok (next, answer))
    (rest : List (Operation × Route)) :
    process.run checks ((operation, route) :: rest) =
      (next.run checks rest).map fun result =>
        (result.1, (next.bridge.accounts, answer) :: result.2) := by
  rw [run, hstep, ok_bind]
  dsimp only
  cases next.run checks rest with
  | error stop => rfl
  | ok result => rfl

theorem run_cons_error {operation : Operation} {route : Route} {stop : Stop}
    (hstep : process.step checks route operation = .error stop)
    (rest : List (Operation × Route)) :
    process.run checks ((operation, route) :: rest) = .error stop := by
  rw [run, hstep]
  rfl

theorem run_cons_eq_ok {operation : Operation} {route : Route}
    {rest : List (Operation × Route)}
    {result : Process × List (AccountMap × Option Bool)}
    (hrun : process.run checks ((operation, route) :: rest) = .ok result) :
    ∃ next answer last observed, process.step checks route operation = .ok (next, answer) ∧
      next.run checks rest = .ok (last, observed) ∧
      result = (last, (next.bridge.accounts, answer) :: observed) := by
  rw [run] at hrun
  obtain ⟨⟨next, answer⟩, hstep, hrun⟩ := bind_eq_ok.1 hrun
  obtain ⟨⟨last, observed⟩, hrest, hrun⟩ := bind_eq_ok.1 hrun
  exact ⟨next, answer, last, observed, hstep, hrest, (Except.ok.inj hrun).symm⟩

theorem Lockstep.run (hlockstep : process.Lockstep) {calls : List (Operation × Route)}
    {result : Process × List (AccountMap × Option Bool)}
    (hrun : process.run checks calls = .ok result) : result.1.Lockstep := by
  induction calls generalizing process result with
  | nil =>
      rw [← Except.ok.inj hrun]
      exact hlockstep
  | cons call rest ih =>
      obtain ⟨next, answer, last, observed, hstep, hrest, rfl⟩ := run_cons_eq_ok hrun
      have hlast := ih (hlockstep.step hstep) hrest
      exact hlast

/-- In lockstep the precompile reports the bridge's health. -/
theorem Lockstep.marginHealth (hlockstep : process.Lockstep) (account : AccountId) :
    marginHealthPrecompile checks process.globals process.bridge.toBridgeState
        (abiWord account.val) =
      (process.bridge.marginHealth checks account).map marginHealthOutput := by
  have hlength : ¬ (abiWord account.val).length < 32 := by simp
  have haccount : (abiWord account.val).take 32 = abiWord account.val :=
    List.take_of_length_le (by simp)
  rw [marginHealthPrecompile, if_neg hlength, LiveBridge.marginHealth,
    hlockstep.effectiveMark, haccount]
  cases process.bridge.effectiveMark checks with
  | error fault => rfl
  | ok mark =>
      cases mark with
      | none => rfl
      | some mark =>
          simp only [ok_bind, hlockstep.accounts, Bool.not_true, Bool.false_eq_true,
            if_false, u64FromBeChunk_abiWord, hlockstep.initialMargin,
            hlockstep.maintenanceMargin]
          rfl

/-! ## Sequences of operations -/

/-- The operations through the bridge alone. -/
def throughBridge (operations : List Operation) : List (Operation × Route) :=
  operations.map fun operation => (operation, .bridge)

/-- Along the operations, run through the bridge, each stops on neither route or on
both. -/
def AllReadAlike (checks : U64.OverflowChecks) : Process → List Operation → Prop
  | _, [] => True
  | process, operation :: rest =>
      ReadsAlike checks process operation ∧
        ∀ next answer, process.step checks .bridge operation = .ok (next, answer) →
          AllReadAlike checks next rest

/-- Operations that read alike run on every route as they do through the bridge. -/
theorem Lockstep.run_eq_throughBridge (hlockstep : process.Lockstep)
    {calls : List (Operation × Route)}
    (hreads : AllReadAlike checks process (calls.map Prod.fst)) :
    process.run checks calls =
      process.run checks (throughBridge (calls.map Prod.fst)) := by
  induction calls generalizing process with
  | nil => rfl
  | cons call rest ih =>
      obtain ⟨operation, route⟩ := call
      obtain ⟨hfirst, hrest⟩ := hreads
      have hroute := hlockstep.step_routes hfirst route .bridge
      rw [throughBridge, List.map_cons, List.map_cons]
      cases hstep : process.step checks .bridge operation with
      | error stop =>
          rw [run_cons_error (hroute.trans hstep), run_cons_error hstep]
      | ok result =>
          rw [run_cons (hroute.trans hstep), run_cons hstep,
            ih (hlockstep.step hstep) (hrest _ _ hstep)]
          rfl

theorem AllReadAlike.prefix {operations done : List Operation}
    (hreads : AllReadAlike checks process operations) (hdone : done <+: operations) :
    AllReadAlike checks process done := by
  obtain ⟨rest, rfl⟩ := hdone
  induction done generalizing process with
  | nil => trivial
  | cons operation done ih =>
      exact ⟨hreads.1, fun next answer hstep => ih (hreads.2 next answer hstep)⟩

/-- An operation that runs alike on every route reads alike. -/
theorem Lockstep.readsAlike (hlockstep : process.Lockstep) {operation : Operation}
    (hagree : process.run checks [(operation, .precompile)] =
      process.run checks [(operation, .bridge)]) : ReadsAlike checks process operation := by
  rw [← hlockstep.step_eq_iff]
  cases hprecompile : process.step checks .precompile operation with
  | error stop =>
      rw [run_cons_error hprecompile] at hagree
      cases hbridge : process.step checks .bridge operation with
      | error other =>
          rw [run_cons_error hbridge] at hagree
          rw [Except.error.inj hagree]
      | ok result =>
          rw [run_cons hbridge] at hagree
          cases hagree
  | ok result =>
      rw [run_cons hprecompile] at hagree
      cases hbridge : process.step checks .bridge operation with
      | error other =>
          rw [run_cons_error hbridge] at hagree
          cases hagree
      | ok other =>
          rw [run_cons hbridge] at hagree
          obtain ⟨hprocess, hobserved⟩ := Prod.mk.inj (Except.ok.inj hagree)
          obtain ⟨hanswer, -⟩ := List.cons.inj hobserved
          exact congrArg Except.ok (Prod.ext hprocess (Prod.mk.inj hanswer).2)

/-- If the operations up to each point run alike on every route, each of them reads
alike. -/
theorem Lockstep.allReadAlike (hlockstep : process.Lockstep) {operations : List Operation}
    (hagree : ∀ left right : List (Operation × Route),
      left.map Prod.fst <+: operations → right.map Prod.fst = left.map Prod.fst →
        process.run checks left = process.run checks right) :
    AllReadAlike checks process operations := by
  induction operations generalizing process with
  | nil => trivial
  | cons operation rest ih =>
      refine ⟨hlockstep.readsAlike (hagree _ _
        (List.cons_prefix_cons.2 ⟨rfl, List.nil_prefix⟩) rfl), ?_⟩
      intro next answer hstep
      apply ih (hlockstep.step hstep)
      intro left right hleft hsame
      have hlonger := hagree ((operation, .bridge) :: left) ((operation, .bridge) :: right)
        (List.cons_prefix_cons.2 ⟨rfl, hleft⟩)
        (by rw [List.map_cons, List.map_cons, hsame])
      rw [run_cons hstep, run_cons hstep] at hlonger
      exact map_injective (fun first second hresult => by
        obtain ⟨hprocess, hobserved⟩ := Prod.mk.inj hresult
        exact Prod.ext hprocess (List.cons.inj hobserved).2) hlonger

end Agreement

end Process

/-! ## When the routes agree -/

/-- However the operations are routed, they have the same outcome up to each point:
the accounts after every step, the accepted withdrawals and where the process stops.
And wherever a run is, the margin precompile answers with the tag of the bridge's own
answer. -/
structure RoutesAgree (checks : U64.OverflowChecks) (params : LiquidationParams)
    (operations : List Operation) : Prop where
  outcome : ∀ left right : List (Operation × Route),
    left.map Prod.fst <+: operations → right.map Prod.fst = left.map Prod.fst →
      (Process.new params).run checks left = (Process.new params).run checks right
  marginHealth : ∀ calls process observed,
    (Process.new params).run checks calls = .ok (process, observed) →
      ∀ account, marginHealthPrecompile checks process.globals
          process.bridge.toBridgeState (abiWord account.val) =
        (process.bridge.marginHealth checks account).map marginHealthOutput

/-- In a fresh process the routes agree on a sequence of operations exactly if each
withdrawal finds an oracle price or best prices whose sum is a word, or else an account
and an amount with which the precompile reads the mark too; without overflow checks
they always agree. -/
theorem routes_agree_iff (checks : U64.OverflowChecks) (params : LiquidationParams)
    (operations : List Operation) :
    RoutesAgree checks params operations ↔
      Process.AllReadAlike checks (Process.new params) operations := by
  have hlockstep := Process.new_lockstep params
  constructor
  · intro hagree
    exact hlockstep.allReadAlike hagree.outcome
  · intro hreads
    constructor
    · intro left right hprefix hsame
      have hleft := hreads.prefix hprefix
      have hright := hleft
      rw [← hsame] at hright
      calc (Process.new params).run checks left
          = (Process.new params).run checks (Process.throughBridge (left.map Prod.fst)) :=
            hlockstep.run_eq_throughBridge hleft
        _ = (Process.new params).run checks
              (Process.throughBridge (right.map Prod.fst)) := by rw [hsame]
        _ = (Process.new params).run checks right :=
            (hlockstep.run_eq_throughBridge hright).symm
    · intro calls process observed hrun account
      exact (hlockstep.run hrun).marginHealth account

/-- Two resting orders whose prices sum to more than a word. -/
def highPrices : List Operation :=
  [.submitOrder (limitOrder 1 1 .buy (2 ^ 63) 1),
    .submitOrder (limitOrder 2 2 .sell (2 ^ 63 + 1) 1)]

/-- With an oracle price nobody reads the midpoint. -/
theorem routes_agree_iff_oracle :
    RoutesAgree .on .hyperliquidDefault
      (highPrices ++ [.setOracleIndexPrice 100, .withdraw 9 1]) := by
  rw [routes_agree_iff]
  refine ⟨trivial, fun bid _ _ => ⟨trivial, fun ask _ _ => ⟨trivial, ?_⟩⟩⟩
  intro priced answer hstep
  obtain ⟨rfl, -⟩ := Prod.mk.inj (Except.ok.inj hstep)
  exact ⟨.inr (.inl rfl), fun _ _ _ => trivial⟩

/-- A withdrawal from an account that does not exist. -/
def withdrawAtHighPrices : List Operation := highPrices ++ [.withdraw 9 1]

/-- The precompile rejects the withdrawal, the bridge panics on the midpoint. -/
theorem not_forall_routes_agree :
    ¬ ∀ (checks : U64.OverflowChecks) (params : LiquidationParams)
      (operations : List Operation), RoutesAgree checks params operations := by
  intro hagree
  have hsame := (hagree .on .hyperliquidDefault withdrawAtHighPrices).outcome
    (withdrawAtHighPrices.map fun operation => (operation, .precompile))
    (withdrawAtHighPrices.map fun operation => (operation, .bridge))
    (List.prefix_refl _) rfl
  have hanswers := congrArg
    (fun outcome => outcome.toOption.map fun result => result.2.map Prod.snd) hsame
  revert hanswers
  decide +kernel

end OpenHl.Evm
