import OpenHl.Core.Calls
import OpenHl.Evm.AccountPrecompiles

/-!
# Runs of withdrawals

Withdrawals of one account at a fixed mark, through the bridge or through the
precompile.  Each compares with the free collateral after the saturating cast;
because the amount is a 64-bit word as well, the cast never decides.

`withdrawals_exact`: a run of withdrawals debits what it accepts, and accepts all of
them exactly when each fits and their sum is within the free collateral before the
cast.
-/

namespace OpenHl.Evm

open Machine OpenHl.Clob OpenHl.Clearing OpenHl.Funding OpenHl.Liquidation

/-! ## The free collateral before its cast -/

/-- Collateral and profit less the initial margin, the last two as 64-bit words. -/
def freeBeforeCast (account : Account) (mark : Option MarkPrice) (imBps : U32) : ℤ :=
  match mark with
  | some mark =>
      account.collateral.val + (Clearing.unrealizedPnl account mark).val -
        (initialMarginRequirementAt account mark imBps).val
  | none => account.collateral.val - (initialMarginRequirement account imBps).val

/-- Collateral and profit less the initial margin, without bounds. -/
def exactFree (account : Account) (mark : Option MarkPrice) (imBps : U32) : ℤ :=
  match mark with
  | some mark =>
      account.collateral.val + exactProfit account mark - exactRequirement account mark imBps
  | none => account.collateral.val - exactRequirement account account.avgEntry imBps

/-- Profit and requirement of an account are 64-bit words. -/
def FitsWords (account : Account) (mark : Option MarkPrice) (imBps : U32) : Prop :=
  match mark with
  | some mark =>
      InI64 (exactProfit account mark) ∧ InI64 (exactRequirement account mark imBps)
  | none => InI64 (exactRequirement account account.avgEntry imBps)

theorem withdrawFreeCollateral_val (account : Account) (mark : Option MarkPrice)
    (imBps : U32) :
    (withdrawFreeCollateral account mark imBps).val =
      max (-2 ^ 63) (min (2 ^ 63 - 1) (freeBeforeCast account mark imBps)) := by
  have hlower := account.collateral.lower
  have hupper := account.collateral.upper
  cases mark with
  | none => rw [withdrawFreeCollateral, I64.saturatingSub_val, freeBeforeCast]
  | some mark =>
      have hloss := (Clearing.unrealizedPnl account mark).lower
      have hprofit := (Clearing.unrealizedPnl account mark).upper
      have hequity : InI128 (account.collateral.val +
          (Clearing.unrealizedPnl account mark).val) := ⟨by omega, by omega⟩
      rw [withdrawFreeCollateral, freeCollateral, saturateI128_of_inI128 hequity,
        I64.saturate_val, freeBeforeCast]

/-- Below the bounds of its words the free collateral is exact. -/
theorem freeBeforeCast_eq_exact {account : Account} {mark : Option MarkPrice}
    {imBps : U32} (hfits : FitsWords account mark imBps) :
    freeBeforeCast account mark imBps = exactFree account mark imBps := by
  cases mark with
  | none =>
      have hrequirement : InI64 (exactRequirement account account.avgEntry imBps) := hfits
      rw [InI64] at hrequirement
      rw [freeBeforeCast, exactFree, initialMarginRequirement,
        initialMarginRequirementAt_val]
      omega
  | some mark =>
      obtain ⟨hprofit, hrequirement⟩ : InI64 _ ∧ InI64 _ := hfits
      rw [InI64] at hprofit hrequirement
      rw [freeBeforeCast, exactFree, initialMarginRequirementAt_val, unrealizedPnl_val]
      omega

/-- A debit lowers the free collateral by as much. -/
theorem freeBeforeCast_setCollateral (collateral : I64) (account : Account)
    (mark : Option MarkPrice) (imBps : U32) :
    freeBeforeCast (setCollateral collateral account) mark imBps =
      freeBeforeCast account mark imBps - (account.collateral.val - collateral.val) := by
  cases mark with
  | none =>
      change collateral.val - (initialMarginRequirement account imBps).val = _
      rw [freeBeforeCast]
      ring
  | some mark =>
      change collateral.val + (Clearing.unrealizedPnl account mark).val -
        (initialMarginRequirementAt account mark imBps).val = _
      rw [freeBeforeCast]
      ring

/-! ## One withdrawal -/

/-- What a withdrawal does to its account: the account afterwards and the new balance,
or nothing on rejection. -/
def debit (mark : Option MarkPrice) (imBps : U32) (account : Account) (amount : U64) :
    Checked (Account × Option I64) :=
  match amount.toI64? with
  | none => .ok (account, none)
  | some amountI64 =>
      if (withdrawFreeCollateral account mark imBps).val < amountI64.val then
        .ok (account, none)
      else do
        let collateral ← checkedSub account.collateral amountI64
        return (setCollateral collateral account, some collateral)

/-- The amount fits and is within the free collateral. -/
def Admits (account : Account) (mark : Option MarkPrice) (imBps : U32) (amount : U64) :
    Prop :=
  (amount : ℕ) < 2 ^ 63 ∧ (amount.val : ℤ) ≤ freeBeforeCast account mark imBps

section Debit

variable {account : Account} {mark : Option MarkPrice} {imBps : U32} {amount : U64}

/-- The cast does not decide: an amount is below it exactly when it is below the sum. -/
theorem admits_iff : Admits account mark imBps amount ↔
    ∃ amountI64, amount.toI64? = some amountI64 ∧ amountI64.val = amount.val ∧
      amountI64.val ≤ (withdrawFreeCollateral account mark imBps).val := by
  rw [Admits, U64.toI64?, withdrawFreeCollateral_val]
  constructor
  · rintro ⟨hfits, hfree⟩
    refine ⟨_, dif_pos hfits, rfl, ?_⟩
    change (amount.val : ℤ) ≤ _
    omega
  · rintro ⟨amountI64, hamount, hval, hfree⟩
    split_ifs at hamount with hfits
    rw [hval] at hfree
    exact ⟨hfits, by omega⟩

theorem debit_of_admits (hadmits : Admits account mark imBps amount) :
    ∃ collateral, collateral.val = account.collateral.val - amount.val ∧
      debit mark imBps account amount =
        .ok (setCollateral collateral account, some collateral) := by
  obtain ⟨amountI64, hamount, hval, hfree⟩ := admits_iff.1 hadmits
  obtain ⟨collateral, hsub, hbalance⟩ := checkedSub_eq_ok (toI64?_nonneg hamount) hfree
  refine ⟨collateral, hbalance.trans (by rw [hval]), ?_⟩
  rw [debit, hamount]
  dsimp only
  rw [if_neg (not_lt.2 hfree), hsub, ok_bind]
  rfl

theorem debit_of_not_admits (hrejects : ¬ Admits account mark imBps amount) :
    debit mark imBps account amount = .ok (account, none) := by
  rw [debit]
  cases hamount : amount.toI64? with
  | none => rfl
  | some amountI64 =>
      have hval : amountI64.val = amount.val := by
        rw [U64.toI64?] at hamount
        split_ifs at hamount
        rw [Option.some.injEq] at hamount
        rw [← hamount]
      dsimp only
      rw [if_pos]
      by_contra hfree
      exact hrejects (admits_iff.2 ⟨amountI64, hamount, hval, not_lt.1 hfree⟩)

end Debit

/-! ## Withdrawals one after the other -/

/-- The sum of the amounts that were answered with a balance. -/
def accepted (amounts : List U64) (balances : List (Option I64)) : ℤ :=
  ((amounts.zip balances).map fun (amount, balance) =>
    if balance.isSome then (amount.val : ℤ) else 0).sum

/-- Every withdrawal was answered with a balance. -/
def AllAccepted (balances : List (Option I64)) : Prop :=
  ∀ balance ∈ balances, balance.isSome

/-- The sum of the amounts of a list. -/
def sumOf (amounts : List U64) : ℤ := (amounts.map fun amount => (amount.val : ℤ)).sum

theorem sumOf_nonneg (amounts : List U64) : 0 ≤ sumOf amounts := by
  apply List.sum_nonneg
  intro value hvalue
  obtain ⟨amount, -, rfl⟩ := List.mem_map.1 hvalue
  exact Int.natCast_nonneg _

/-- What a run of withdrawals leaves of an account, with the answers it gave. -/
structure Debited (account : Account) (mark : Option MarkPrice) (imBps : U32)
    (amounts : List U64) (after : Account) (balances : List (Option I64)) : Prop where
  answers : balances.length = amounts.length
  /-- Nothing but the collateral changes. -/
  rest : after = setCollateral after.collateral account
  /-- An accepted withdrawal takes its amount, a rejected one nothing. -/
  collateral : after.collateral.val = account.collateral.val - accepted amounts balances
  all_iff : amounts ≠ [] → (AllAccepted balances ↔
    (∀ amount ∈ amounts, (amount : ℕ) < 2 ^ 63) ∧
      sumOf amounts ≤ freeBeforeCast account mark imBps)

section Run

variable {account : Account} {mark : Option MarkPrice} {imBps : U32}

theorem debit_total (mark : Option MarkPrice) (imBps : U32) (account : Account)
    (amount : U64) : ∃ result, debit mark imBps account amount = .ok result := by
  by_cases hadmits : Admits account mark imBps amount
  · obtain ⟨collateral, -, hdebit⟩ := debit_of_admits hadmits
    exact ⟨_, hdebit⟩
  · exact ⟨_, debit_of_not_admits hadmits⟩

/-- After a first accepted amount the others are accepted against what it leaves. -/
theorem allAccepted_cons_iff {amount : U64} {rest : List U64}
    {balances : List (Option I64)} {free : ℤ} (hadmitted : (amount : ℕ) < 2 ^ 63)
    (hfree : (amount.val : ℤ) ≤ free) (hanswers : balances.length = rest.length)
    (hrest : rest ≠ [] → (AllAccepted balances ↔
      (∀ other ∈ rest, (other : ℕ) < 2 ^ 63) ∧ sumOf rest ≤ free - amount.val)) :
    AllAccepted balances ↔
      (∀ other ∈ amount :: rest, (other : ℕ) < 2 ^ 63) ∧ sumOf (amount :: rest) ≤ free := by
  rw [List.forall_mem_cons, sumOf, List.map_cons, List.sum_cons, ← sumOf]
  cases rest with
  | nil =>
      rw [List.length_nil, List.length_eq_zero_iff] at hanswers
      simpa [hanswers, AllAccepted, sumOf, hfree] using hadmitted
  | cons next others =>
      rw [hrest (List.cons_ne_nil next others)]
      constructor
      · rintro ⟨hfits, hsum⟩
        exact ⟨⟨hadmitted, hfits⟩, by omega⟩
      · rintro ⟨⟨-, hfits⟩, hsum⟩
        exact ⟨hfits, by omega⟩

/-- A run of withdrawals from one account, by induction on the amounts: the free
collateral falls by each accepted amount. -/
theorem run_debit {after : Account} {amounts : List U64} {balances : List (Option I64)}
    (hrun : Calls.run (debit mark imBps) account amounts = .ok (after, balances)) :
    Debited account mark imBps amounts after balances := by
  induction amounts generalizing account balances with
  | nil =>
      obtain ⟨rfl, rfl⟩ := Prod.mk.inj (Except.ok.inj hrun)
      exact ⟨rfl, rfl, by simp [accepted], fun hnil => absurd rfl hnil⟩
  | cons amount amounts ih =>
      obtain ⟨debited, output, others, hfirst, hrest, rfl⟩ := Calls.run_cons_eq_ok hrun
      obtain ⟨hanswers, hafter, hcollateral, hall⟩ := ih hrest
      have haccepted : accepted (amount :: amounts) (output :: others) =
          (if output.isSome then (amount.val : ℤ) else 0) + accepted amounts others := by
        simp [accepted]
      have hlength : (output :: others).length = (amount :: amounts).length := by
        simp [hanswers]
      by_cases hadmits : Admits account mark imBps amount
      · obtain ⟨collateral, hbalance, hdebit⟩ := debit_of_admits hadmits
        rw [hdebit] at hfirst
        obtain ⟨rfl, rfl⟩ := Prod.mk.inj (Except.ok.inj hfirst)
        have hfree := freeBeforeCast_setCollateral collateral account mark imBps
        rw [hbalance, sub_sub_cancel] at hfree
        refine ⟨hlength, hafter, ?_, fun _ => ?_⟩
        · change after.collateral.val = collateral.val - _ at hcollateral
          rw [hcollateral, haccepted, hbalance]
          simp only [Option.isSome_some, if_true]
          ring
        · rw [hfree] at hall
          rw [← allAccepted_cons_iff hadmits.1 hadmits.2 hanswers hall]
          simp [AllAccepted]
      · rw [debit_of_not_admits hadmits] at hfirst
        obtain ⟨rfl, rfl⟩ := Prod.mk.inj (Except.ok.inj hfirst)
        refine ⟨hlength, hafter, by simpa [haccepted] using hcollateral, fun _ => ?_⟩
        have hnot : ¬ AllAccepted (none :: others) := by simp [AllAccepted]
        refine iff_of_false hnot ?_
        rintro ⟨hfits, hsum⟩
        refine hadmits ⟨hfits amount (by simp), ?_⟩
        have hothers := sumOf_nonneg amounts
        rw [sumOf, List.map_cons, List.sum_cons, ← sumOf] at hsum
        omega

end Run

/-! ## The two routes -/

/-- The account map of a state with another balance for one account, and nothing else
changed. -/
structure OnlyAccount (key : AccountId) (accounts : AccountMap) (account : Account)
    (after : AccountMap) : Prop where
  found : after.get? key = some account
  others : ∀ other ≠ key, after.get? other = accounts.get? other

theorem OnlyAccount.refl {key : AccountId} {accounts : AccountMap} {account : Account}
    (hfound : accounts.get? key = some account) :
    OnlyAccount key accounts account accounts :=
  ⟨hfound, fun _ _ => rfl⟩

theorem OnlyAccount.debited {key : AccountId} {start accounts : AccountMap}
    {account : Account} (honly : OnlyAccount key start account accounts)
    (collateral : I64) :
    OnlyAccount key start (setCollateral collateral account)
      (debited accounts key collateral) := by
  have hfound := honly.found
  rw [AccountMap.get?] at hfound
  constructor
  · rw [AccountMap.get?, Evm.debited, AccountMap.modify, SortedMap.get?_modify, if_pos rfl,
      hfound]
    rfl
  · intro other hother
    rw [← honly.others other hother, AccountMap.get?, Evm.debited, AccountMap.modify,
      SortedMap.get?_modify, if_neg hother]
    rfl

section Routes

variable {checks : U64.OverflowChecks} {key : AccountId} {account after : Account}
  {mark : Option MarkPrice} {imBps : U32} {amount : U64} {balance : Option I64}

/-- The bridge withdraws as its account is debited. -/
theorem withdraw_of_debit {start bridge : LiveBridge}
    (hmark : start.effectiveMark checks = .ok mark)
    (himBps : start.liquidationParams.initialMarginBps = imBps)
    (hbridge : bridge = { start with accounts := bridge.accounts })
    (honly : OnlyAccount key start.accounts account bridge.accounts)
    (hdebit : debit mark imBps account amount = .ok (after, balance)) :
    ∃ last, bridge.withdraw checks key amount = .ok (last, balance) ∧
      last = { start with accounts := last.accounts } ∧
      OnlyAccount key start.accounts after last.accounts := by
  have hbridgeMark : bridge.effectiveMark checks = .ok mark := by
    rw [hbridge]
    exact hmark
  have hparams : bridge.liquidationParams.initialMarginBps = imBps := by
    rw [hbridge]
    exact himBps
  rw [LiveBridge.withdraw, hbridgeMark, ok_bind, honly.found]
  dsimp only
  rw [hparams]
  rw [debit] at hdebit
  cases hamount : amount.toI64? with
  | none =>
      rw [hamount] at hdebit
      obtain ⟨rfl, rfl⟩ := Prod.mk.inj (Except.ok.inj hdebit)
      exact ⟨bridge, rfl, hbridge, honly⟩
  | some amountI64 =>
      rw [hamount] at hdebit
      dsimp only at hdebit ⊢
      split_ifs at hdebit ⊢ with hfree
      · obtain ⟨rfl, rfl⟩ := Prod.mk.inj (Except.ok.inj hdebit)
        exact ⟨bridge, rfl, hbridge, honly⟩
      · obtain ⟨collateral, hsub, hdebit⟩ := bind_eq_ok.1 hdebit
        obtain ⟨rfl, rfl⟩ := Prod.mk.inj (Except.ok.inj hdebit)
        rw [hsub, ok_bind]
        exact ⟨_, rfl, by rw [hbridge], honly.debited collateral⟩

/-- The precompile debits its account the same way. -/
theorem debitInstalled_of_debit {globals : ProcessGlobals} {start state : BridgeState}
    (hmark : globals.effectiveMark checks start = .ok mark)
    (himBps : globals.initialMarginBps = imBps)
    (hstate : state = { start with accounts := state.accounts })
    (honly : OnlyAccount key start.accounts account state.accounts)
    (hdebit : debit mark imBps account amount = .ok (after, balance)) :
    ∃ last, debitInstalled checks globals state key amount = .ok (last, balance) ∧
      last = { start with accounts := last.accounts } ∧
      OnlyAccount key start.accounts after last.accounts := by
  have hstateMark : globals.effectiveMark checks state = .ok mark := by
    rw [hstate]
    exact hmark
  rw [debitInstalled, honly.found]
  dsimp only
  rw [debit] at hdebit
  cases hamount : amount.toI64? with
  | none =>
      rw [hamount] at hdebit
      obtain ⟨rfl, rfl⟩ := Prod.mk.inj (Except.ok.inj hdebit)
      exact ⟨state, rfl, hstate, honly⟩
  | some amountI64 =>
      rw [hamount] at hdebit
      dsimp only at hdebit ⊢
      rw [hstateMark, ok_bind, himBps]
      split_ifs at hdebit ⊢ with hfree
      · obtain ⟨rfl, rfl⟩ := Prod.mk.inj (Except.ok.inj hdebit)
        exact ⟨state, rfl, hstate, honly⟩
      · obtain ⟨collateral, hsub, hdebit⟩ := bind_eq_ok.1 hdebit
        obtain ⟨rfl, rfl⟩ := Prod.mk.inj (Except.ok.inj hdebit)
        rw [hsub, ok_bind]
        exact ⟨_, rfl, by rw [hstate], honly.debited collateral⟩

end Routes

/-! ## Runs through either route -/

/-- A route serves a run of withdrawals: it answers each, debits the account by the
accepted ones, and accepts the whole run exactly when it accepts the sum at once. -/
structure ServesRun {S : Type} (withdraw : S → U64 → Checked (S × Option I64))
    (frame : Account → S → Prop) (state : S) (account : Account)
    (mark : Option MarkPrice) (imBps : U32) (amounts : List U64) : Prop where
  run : ∃ last balances after, Calls.run withdraw state amounts = .ok (last, balances) ∧
    frame after last ∧ Debited account mark imBps amounts after balances
  /-- Splitting a withdrawal that fits allows no more and no less. -/
  whole_iff : amounts ≠ [] → ∀ total : U64, (total.val : ℤ) = sumOf amounts →
    (total : ℕ) < 2 ^ 63 → ∀ last balances other answer,
      Calls.run withdraw state amounts = .ok (last, balances) →
        withdraw state total = .ok (other, answer) →
          (AllAccepted balances ↔ answer.isSome)

section Serves

variable {S : Type} {withdraw : S → U64 → Checked (S × Option I64)}
  {frame : Account → S → Prop} {mark : Option MarkPrice} {imBps : U32}

theorem le_sumOf {amounts : List U64} {amount : U64} (hamount : amount ∈ amounts) :
    (amount.val : ℤ) ≤ sumOf amounts := by
  apply List.single_le_sum
  · intro value hvalue
    obtain ⟨other, -, rfl⟩ := List.mem_map.1 hvalue
    exact Int.natCast_nonneg _
  · exact List.mem_map_of_mem hamount

/-- A route that withdraws as its account is debited serves every run. -/
theorem servesRun_of_debit
    (hdebit : ∀ account state amount after balance, frame account state →
      debit mark imBps account amount = .ok (after, balance) →
        ∃ last, withdraw state amount = .ok (last, balance) ∧ frame after last)
    {account : Account} {state : S} (hframe : frame account state) (amounts : List U64) :
    ServesRun withdraw frame state account mark imBps amounts := by
  have hserved : ∀ amounts, ∃ last balances after,
      Calls.run withdraw state amounts = .ok (last, balances) ∧ frame after last ∧
        Debited account mark imBps amounts after balances := by
    intro amounts
    obtain ⟨⟨after, balances⟩, hrun⟩ :=
      Calls.run_total (debit_total mark imBps) account amounts
    obtain ⟨last, hlast, hafter⟩ := Calls.run_simulates hdebit hframe hrun
    exact ⟨last, balances, after, hlast, hafter, run_debit hrun⟩
  refine ⟨hserved amounts, ?_⟩
  intro hne total htotal hfits last balances other answer hsplit hwhole
  obtain ⟨_, _, _, hrun, -, hdebited⟩ := hserved amounts
  rw [hsplit] at hrun
  obtain ⟨-, rfl⟩ := Prod.mk.inj (Except.ok.inj hrun)
  obtain ⟨_, _, _, hone, -, hdebitedOne⟩ := hserved [total]
  rw [Calls.run_cons hwhole rfl] at hone
  obtain ⟨-, rfl⟩ := Prod.mk.inj (Except.ok.inj hone)
  have honeIff := hdebitedOne.all_iff (List.cons_ne_nil total [])
  have hsum : sumOf [total] = sumOf amounts := by
    rw [← htotal]
    simp [sumOf]
  have hall : ∀ amount ∈ amounts, (amount : ℕ) < 2 ^ 63 := by
    intro amount hamount
    have hle := le_sumOf hamount
    omega
  rw [hsum] at honeIff
  calc AllAccepted balances
      ↔ sumOf amounts ≤ freeBeforeCast account mark imBps := by
        rw [hdebited.all_iff hne, and_iff_right hall]
    _ ↔ AllAccepted [answer] := by
        rw [honeIff, and_iff_right (by simpa using hfits)]
    _ ↔ answer.isSome := by simp [AllAccepted]

end Serves

theorem withdraw_rejected {checks : U64.OverflowChecks} {bridge after : LiveBridge}
    {key : AccountId} {amount : U64}
    (hreject : bridge.withdraw checks key amount = .ok (after, none)) : after = bridge := by
  rw [LiveBridge.withdraw] at hreject
  obtain ⟨mark, -, hreject⟩ := bind_eq_ok.1 hreject
  dsimp only at hreject
  split at hreject
  · exact (Prod.mk.inj (Except.ok.inj hreject)).1.symm
  · split at hreject
    · exact (Prod.mk.inj (Except.ok.inj hreject)).1.symm
    · split_ifs at hreject
      · exact (Prod.mk.inj (Except.ok.inj hreject)).1.symm
      · obtain ⟨collateral, -, hreject⟩ := bind_eq_ok.1 hreject
        cases (Prod.mk.inj (Except.ok.inj hreject)).2

/-- A bridge that differs from another in one account. -/
def BridgeFrame (key : AccountId) (start : LiveBridge) (after : Account)
    (last : LiveBridge) : Prop :=
  last = { start with accounts := last.accounts } ∧
    OnlyAccount key start.accounts after last.accounts

/-- A shared state that differs from another in one account. -/
def StateFrame (key : AccountId) (start : BridgeState) (after : Account)
    (last : BridgeState) : Prop :=
  last = { start with accounts := last.accounts } ∧
    OnlyAccount key start.accounts after last.accounts

section Instances

variable {checks : U64.OverflowChecks} {account : Account} {mark : Option MarkPrice}
  {imBps : U32} {key : AccountId}

theorem bridge_servesRun {bridge : LiveBridge}
    (hmark : bridge.effectiveMark checks = .ok mark)
    (himBps : bridge.liquidationParams.initialMarginBps = imBps)
    (hfound : bridge.accounts.get? key = some account) (amounts : List U64) :
    ServesRun (fun state amount => LiveBridge.withdraw checks state key amount)
      (BridgeFrame key bridge) bridge account mark imBps amounts := by
  apply servesRun_of_debit _ ⟨rfl, OnlyAccount.refl hfound⟩
  intro account state amount after balance ⟨hstate, honly⟩ hdebit
  exact withdraw_of_debit hmark himBps hstate honly hdebit

theorem precompile_servesRun {globals : ProcessGlobals} {start : BridgeState}
    (hinstalled : globals.accountsInstalled = true)
    (hmark : globals.effectiveMark checks start = .ok mark)
    (himBps : globals.initialMarginBps = imBps)
    (hfound : start.accounts.get? key = some account) (amounts : List U64) :
    ServesRun (fun state amount =>
        withdrawCall checks globals state (withdrawCalldata key amount))
      (StateFrame key start) start account mark imBps amounts := by
  apply servesRun_of_debit _ ⟨rfl, OnlyAccount.refl hfound⟩
  intro account state amount after balance ⟨hstate, honly⟩ hdebit
  rw [withdrawCall_calldata hinstalled]
  exact debitInstalled_of_debit hmark himBps hstate honly hdebit

end Instances

/-- Withdrawals from an account at a fixed mark, through the bridge or through the
precompile: no subtraction overflows, what is rejected changes nothing, and a run is
accepted exactly when each amount fits and their sum is within the free collateral. -/
theorem withdrawals_exact (checks : U64.OverflowChecks) (account : Account)
    (mark : Option MarkPrice) (imBps : U32) (key : AccountId) (amounts : List U64) :
    (∀ bridge : LiveBridge, bridge.effectiveMark checks = .ok mark →
      bridge.liquidationParams.initialMarginBps = imBps →
      bridge.accounts.get? key = some account →
        ServesRun (fun state amount => LiveBridge.withdraw checks state key amount)
          (BridgeFrame key bridge) bridge account mark imBps amounts) ∧
      (∀ (globals : ProcessGlobals) (start : BridgeState),
        globals.accountsInstalled = true →
        globals.effectiveMark checks start = .ok mark →
        globals.initialMarginBps = imBps → start.accounts.get? key = some account →
          ServesRun (fun state amount =>
              withdrawCall checks globals state (withdrawCalldata key amount))
            (StateFrame key start) start account mark imBps amounts) ∧
      (∀ (bridge last : LiveBridge) (amount : U64),
        bridge.withdraw checks key amount = .ok (last, none) → last = bridge) ∧
      (∀ (globals : ProcessGlobals) (start last : BridgeState) (input : List U8),
        withdrawCall checks globals start input = .ok (last, none) → last = start) ∧
      (FitsWords account mark imBps →
        freeBeforeCast account mark imBps = exactFree account mark imBps) := by
  refine ⟨?_, ?_, fun _ _ _ => withdraw_rejected, fun _ _ _ _ => withdrawCall_rejected,
    freeBeforeCast_eq_exact⟩
  · intro bridge hmark himBps hfound
    exact bridge_servesRun hmark himBps hfound amounts
  · intro globals start hinstalled hmark himBps hfound
    exact precompile_servesRun hinstalled hmark himBps hfound amounts

/-- A bridge that prices one account by its oracle. -/
def oracleBridge (account : Account) (price : U64) (imBps : U32) : LiveBridge :=
  { LiveBridge.new with
    accounts := AccountMap.empty.insert account
    liquidationParams :=
      { initialMarginBps := imBps, maintenanceMarginBps := 0, liquidationFeeBps := 0 }
    oracleIndexPrice := some price }

/-- Ten units bought at 100 and worth 120, against a collateral of 50: with a margin of
120 a run may take 130. -/
theorem withdrawals_exact_hundredThirty :
    let account : Account :=
      { account := 1, positionSize := 10, avgEntry := 100, collateral := 50 }
    freeBeforeCast account (some 120) 1000 = 130 ∧
      ∃ last balances after,
        Calls.run (fun state amount => LiveBridge.withdraw .on state 1 amount)
            (oracleBridge account 120 1000) [100, 30] = .ok (last, balances) ∧
          BridgeFrame 1 (oracleBridge account 120 1000) after last ∧
          AllAccepted balances := by
  intro account
  have hserved := (withdrawals_exact .on account (some 120) 1000 1 [100, 30]).1
    (oracleBridge account 120 1000) rfl rfl rfl
  obtain ⟨last, balances, after, hrun, hframe, hdebited⟩ := hserved.run
  refine ⟨by decide, last, balances, after, hrun, hframe, ?_⟩
  rw [hdebited.all_iff (by decide)]
  exact ⟨by simp, by decide +kernel⟩

/-- The largest long, entered at zero: at a mark of `2^63` its profit of almost `2^126`
is cut to `2^63 - 1`. -/
def saturatedLong : Account :=
  { account := 1, positionSize := I64.maxValue, avgEntry := 0, collateral := 0 }

/-- A flat account in debt. -/
def indebted : Account :=
  { account := 1, positionSize := 0, avgEntry := 0, collateral := -1 }

/-- Against the profit without bounds two withdrawals of the largest word are far
within the free collateral, and the second is rejected; and no withdrawal at all is
accepted from an account whose free collateral is negative. -/
theorem not_forall_allAccepted_iff :
    (¬ ∀ (checks : U64.OverflowChecks) (account : Account) (price : U64) (imBps : U32)
        (amounts : List U64) (last : LiveBridge) (balances : List (Option I64)),
      Calls.run
          (fun state amount => LiveBridge.withdraw checks state account.account amount)
          (oracleBridge account price imBps) amounts = .ok (last, balances) →
        (AllAccepted balances ↔ (∀ amount ∈ amounts, (amount : ℕ) < 2 ^ 63) ∧
          sumOf amounts ≤ exactFree account (some price) imBps)) ∧
    (¬ ∀ (checks : U64.OverflowChecks) (account : Account) (price : U64) (imBps : U32)
        (amounts : List U64) (last : LiveBridge) (balances : List (Option I64)),
      Calls.run
          (fun state amount => LiveBridge.withdraw checks state account.account amount)
          (oracleBridge account price imBps) amounts = .ok (last, balances) →
        (AllAccepted balances ↔ (∀ amount ∈ amounts, (amount : ℕ) < 2 ^ 63) ∧
          sumOf amounts ≤ freeBeforeCast account (some price) imBps)) := by
  constructor
  · intro hall
    have hserved := @bridge_servesRun .on saturatedLong (some 9223372036854775808) 0 1
      (oracleBridge saturatedLong 9223372036854775808 0) rfl rfl rfl
      [9223372036854775807, 9223372036854775807]
    obtain ⟨last, balances, after, hrun, -, hdebited⟩ := hserved.run
    have hexact := hall .on saturatedLong 9223372036854775808 0 _ last balances hrun
    rw [hdebited.all_iff (by decide), and_congr_right_iff] at hexact
    have hsaturated := (hexact (by simp)).2 (by decide +kernel)
    exact absurd hsaturated (by decide +kernel)
  · intro hall
    have hempty := hall .on indebted 1 0 [] _ [] rfl
    have hfree := (hempty.1 (by simp [AllAccepted])).2
    exact absurd hfree (by decide +kernel)

end OpenHl.Evm
