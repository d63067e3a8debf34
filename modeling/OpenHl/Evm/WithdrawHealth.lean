import OpenHl.Evm.Withdrawals
import OpenHl.Liquidation.Classification

/-!
# Margin health after a withdrawal

Withdrawals compare amounts with an initial margin that is rounded down;
liquidation compares a ratio with the maintenance rate.  What a withdrawal leaves
covers the rounded requirement, so the account is never underwater; but the rounded
requirement may be less than the maintenance margin.

`withdraw_health`: which accounts no withdrawal makes liquidatable.
-/

namespace OpenHl.Evm

open Machine OpenHl.Clob OpenHl.Clearing OpenHl.Funding OpenHl.Liquidation

/-- The margin health of an account of the bridge. -/
def healthOf (account : Account) (mark : MarkPrice) (params : LiquidationParams) :
    MarginHealth :=
  Liquidation.marginHealth
    { account := account.account, positionSize := account.positionSize
      avgEntry := account.avgEntry, collateral := account.collateral }
    mark params

/-- Liquidation leaves the account alone. -/
def Healthy (health : MarginHealth) : Prop := health ≠ .liquidatable ∧ health ≠ .underwater

/-- `|size| × mark`, as an unsigned word. -/
def notionalAt (account : Account) (mark : MarkPrice) : ℤ :=
  (account.positionSize.unsignedAbs.saturatingMul mark).val

/-- Collateral and unrealized profit. -/
def equityAt (account : Account) (mark : MarkPrice) : ℤ :=
  account.collateral.val + (Clearing.unrealizedPnl account mark).val

section Health

variable {account : Account} {mark : MarkPrice}

/-- Health of an account with equity left: only the maintenance margin counts. -/
theorem healthOf_of_nonneg (hequity : 0 ≤ equityAt account mark)
    (params : LiquidationParams) :
    healthOf account mark params ≠ .underwater ∧
      (healthOf account mark params = .liquidatable ↔
        min (2 ^ 63 - 1) (equityAt account mark) * Liquidation.marginScale <
          params.maintenanceMarginBps.val * notionalAt account mark) := by
  let snapshot : AccountSnapshot :=
    { account := account.account, positionSize := account.positionSize
      avgEntry := account.avgEntry, collateral := account.collateral }
  have hsaturated : (accountEquity snapshot mark).val =
      max (-2 ^ 63) (min (2 ^ 63 - 1) (equityAt account mark)) := rfl
  have hval : (accountEquity snapshot mark).val =
      min (2 ^ 63 - 1) (equityAt account mark) := by omega
  have hnonneg : 0 ≤ (accountEquity snapshot mark).val := by omega
  rw [← hval]
  exact marginHealth_of_nonneg hnonneg params

theorem healthy_iff_of_nonneg (hequity : 0 ≤ equityAt account mark)
    (params : LiquidationParams) :
    Healthy (healthOf account mark params) ↔
      params.maintenanceMarginBps.val * notionalAt account mark ≤
        min (2 ^ 63 - 1) (equityAt account mark) * Liquidation.marginScale := by
  obtain ⟨hunder, hliquidatable⟩ := healthOf_of_nonneg hequity params
  rw [Healthy, Ne, hliquidatable, not_lt, and_iff_left hunder]

end Health

/-! ## After one withdrawal -/

/-- The equity a withdrawal of the largest admitted amount leaves: the requirement, or
what a single word cannot take. -/
def leastEquity (account : Account) (mark : MarkPrice) (imBps : U32) : ℤ :=
  max (initialMarginRequirementAt account mark imBps).val
    (equityAt account mark - (2 ^ 63 - 1))

/-- No withdrawal at a mark leaves an account below its maintenance margin: there is
none, or the margin is within the least equity that one can leave. -/
def WithdrawalsHealthy (account : Account) (mark : MarkPrice)
    (params : LiquidationParams) : Prop :=
  freeBeforeCast account (some mark) params.initialMarginBps < 0 ∨
    params.maintenanceMarginBps.val * notionalAt account mark ≤
      leastEquity account mark params.initialMarginBps * Liquidation.marginScale

section Debit

variable {account after : Account} {mark : MarkPrice} {params : LiquidationParams}
  {amount : U64} {balance : I64}

theorem freeBeforeCast_eq_equity (account : Account) (mark : MarkPrice) (imBps : U32) :
    freeBeforeCast account (some mark) imBps =
      equityAt account mark - (initialMarginRequirementAt account mark imBps).val := rfl

theorem notionalAt_setCollateral (collateral : I64) (account : Account)
    (mark : MarkPrice) :
    notionalAt (setCollateral collateral account) mark = notionalAt account mark := rfl

theorem equityAt_setCollateral {collateral : I64} {account : Account} {amount : ℤ}
    (hbalance : collateral.val = account.collateral.val - amount) (mark : MarkPrice) :
    equityAt (setCollateral collateral account) mark = equityAt account mark - amount := by
  change collateral.val + (Clearing.unrealizedPnl account mark).val = _
  rw [hbalance, equityAt]
  ring

/-- An accepted withdrawal is admitted and lowers the equity by its amount. -/
theorem admits_of_debit {imBps : U32}
    (hdebit : debit (some mark) imBps account amount = .ok (after, some balance)) :
    Admits account (some mark) imBps amount ∧
      notionalAt after mark = notionalAt account mark ∧
      equityAt after mark = equityAt account mark - amount.val := by
  by_cases hadmits : Admits account (some mark) imBps amount
  · obtain ⟨collateral, hbalance, hexact⟩ := debit_of_admits hadmits
    rw [hexact] at hdebit
    obtain ⟨rfl, -⟩ := Prod.mk.inj (Except.ok.inj hdebit)
    exact ⟨hadmits, notionalAt_setCollateral collateral account mark,
      equityAt_setCollateral hbalance mark⟩
  · rw [debit_of_not_admits hadmits] at hdebit
    cases (Prod.mk.inj (Except.ok.inj hdebit)).2

/-- What is left covers the requirement, and so the account is not underwater. -/
theorem debit_requirement {imBps : U32}
    (hdebit : debit (some mark) imBps account amount = .ok (after, some balance)) :
    (initialMarginRequirementAt account mark imBps).val ≤ equityAt after mark ∧
      leastEquity account mark imBps ≤ equityAt after mark := by
  obtain ⟨⟨hfits, hfree⟩, -, hequity⟩ := admits_of_debit hdebit
  rw [freeBeforeCast_eq_equity] at hfree
  rw [leastEquity, hequity]
  omega

theorem debit_not_underwater
    (hdebit : debit (some mark) params.initialMarginBps account amount =
      .ok (after, some balance)) :
    healthOf after mark params ≠ .underwater := by
  have hrequirement := (debit_requirement hdebit).1
  have hnonneg := initialMarginRequirementAt_nonneg account mark params.initialMarginBps
  exact (healthOf_of_nonneg (hnonneg.trans hrequirement) _).1

theorem leastEquity_range (account : Account) (mark : MarkPrice) (imBps : U32) :
    0 ≤ leastEquity account mark imBps ∧ leastEquity account mark imBps ≤ 2 ^ 63 - 1 := by
  have hnonneg := initialMarginRequirementAt_nonneg account mark imBps
  have hupper := (initialMarginRequirementAt account mark imBps).upper
  have hcollateral := account.collateral.upper
  have hprofit := (Clearing.unrealizedPnl account mark).upper
  rw [leastEquity, equityAt]
  omega

/-- The largest admitted amount leaves the least equity. -/
theorem exists_debit_leastEquity {imBps : U32}
    (hfree : 0 ≤ freeBeforeCast account (some mark) imBps) :
    ∃ amount after balance,
      debit (some mark) imBps account amount = .ok (after, some balance) ∧
        equityAt after mark = leastEquity account mark imBps := by
  have hlargest : min (2 ^ 63 - 1) (freeBeforeCast account (some mark) imBps) < 2 ^ 64 := by
    omega
  obtain ⟨value, hvalue⟩ := Int.eq_ofNat_of_zero_le
    (by omega : 0 ≤ min (2 ^ 63 - 1) (freeBeforeCast account (some mark) imBps))
  have hword : value < 2 ^ 64 := by omega
  let amount : U64 := ⟨value, hword⟩
  have hamount : (amount.val : ℤ) =
      min (2 ^ 63 - 1) (freeBeforeCast account (some mark) imBps) := hvalue.symm
  have hadmits : Admits account (some mark) imBps amount := ⟨by omega, by omega⟩
  obtain ⟨collateral, hbalance, hdebit⟩ := debit_of_admits hadmits
  refine ⟨amount, _, collateral, hdebit, ?_⟩
  rw [equityAt_setCollateral hbalance, hamount, freeBeforeCast_eq_equity, leastEquity]
  omega

/-- Every accepted withdrawal leaves the account healthy exactly under the
condition. -/
theorem debit_healthy_iff (account : Account) (mark : MarkPrice)
    (params : LiquidationParams) :
    (∀ amount after balance, debit (some mark) params.initialMarginBps account amount =
        .ok (after, some balance) → Healthy (healthOf after mark params)) ↔
      WithdrawalsHealthy account mark params := by
  obtain ⟨hleast, hword⟩ := leastEquity_range account mark params.initialMarginBps
  rw [WithdrawalsHealthy]
  constructor
  · intro hhealthy
    rw [or_iff_not_imp_left, not_lt]
    intro hfree
    obtain ⟨amount, after, balance, hdebit, hequity⟩ := exists_debit_leastEquity hfree
    have hafter := hhealthy amount after balance hdebit
    rw [healthy_iff_of_nonneg (by omega), hequity, (admits_of_debit hdebit).2.1,
      min_eq_right hword] at hafter
    exact hafter
  · intro hcondition amount after balance hdebit
    obtain ⟨⟨-, hfree⟩, hnotional, -⟩ := admits_of_debit hdebit
    have hequity := (debit_requirement hdebit).2
    rw [healthy_iff_of_nonneg (by omega), hnotional]
    rcases hcondition with hnone | hmargin
    · omega
    · rw [Liquidation.marginScale] at hmargin ⊢
      omega

end Debit

/-- Where nothing is cut to a word, only the part of a basis point that the requirement
drops counts against the distance of the two rates. -/
theorem withdrawalsHealthy_iff_exact {account : Account} {mark : MarkPrice}
    {params : LiquidationParams}
    (hnotional : |account.positionSize.val| * (mark.val : ℤ) < 2 ^ 64)
    (hrequirement : InI64 (exactRequirement account mark params.initialMarginBps))
    (hequity : InI64 (equityAt account mark)) :
    WithdrawalsHealthy account mark params ↔
      freeBeforeCast account (some mark) params.initialMarginBps < 0 ∨
        |account.positionSize.val| * mark.val * params.initialMarginBps.val %
            Liquidation.marginScale ≤
          ((params.initialMarginBps.val : ℤ) - params.maintenanceMarginBps.val) *
            (|account.positionSize.val| * mark.val) := by
  have hrounded := Int.mul_ediv_add_emod
    (|account.positionSize.val| * mark.val * params.initialMarginBps.val)
    Liquidation.marginScale
  have hnonneg := exactRequirement_nonneg account mark params.initialMarginBps
  have hword : notionalAt account mark = |account.positionSize.val| * mark.val := by
    have hsize : (account.positionSize.unsignedAbs.val : ℤ) =
        |account.positionSize.val| := by
      rw [I64.unsignedAbs_val, Int.natCast_natAbs]
    rw [← hsize] at hnotional ⊢
    exact U64.saturate_val_of_range (by positivity) hnotional
  have hleast : leastEquity account mark params.initialMarginBps =
      exactRequirement account mark params.initialMarginBps := by
    rw [InI64] at hrequirement hequity
    rw [leastEquity, initialMarginRequirementAt_val]
    omega
  rw [WithdrawalsHealthy, hword, hleast, exactRequirement]
  apply or_congr_right
  change _ ≤ _ / Liquidation.marginScale * Liquidation.marginScale ↔ _
  rw [sub_mul]
  constructor <;> intro hmargin <;> linarith

/-! ## Through either route -/

/-- Withdrawals of one account by a route, and the health they leave. -/
structure LeavesHealth {S : Type} (withdraw : U64 → Checked (S × Option I64))
    (frame : Account → S → Prop) (account : Account) (mark : MarkPrice)
    (params : LiquidationParams) : Prop where
  covered : ∀ amount last balance, withdraw amount = .ok (last, some balance) →
    ∃ after, frame after last ∧
      (initialMarginRequirementAt account mark params.initialMarginBps).val ≤
        equityAt after mark ∧
      healthOf after mark params ≠ .underwater
  healthy_iff : (∀ amount last balance after,
    withdraw amount = .ok (last, some balance) → frame after last →
      Healthy (healthOf after mark params)) ↔ WithdrawalsHealthy account mark params

section Routes

variable {account : Account} {mark : MarkPrice} {params : LiquidationParams}
  {key : AccountId}

/-- A route that withdraws as its account is debited leaves the health of a debit. -/
theorem leavesHealth_of_debit {S : Type} {withdraw : U64 → Checked (S × Option I64)}
    {frame : Account → S → Prop}
    (hdebit : ∀ amount after balance,
      debit (some mark) params.initialMarginBps account amount = .ok (after, balance) →
        ∃ last, withdraw amount = .ok (last, balance) ∧ frame after last)
    (hunique : ∀ first second last, frame first last → frame second last → first = second) :
    LeavesHealth withdraw frame account mark params := by
  have hconverse : ∀ amount last balance, withdraw amount = .ok (last, some balance) →
      ∃ after, frame after last ∧
        debit (some mark) params.initialMarginBps account amount =
          .ok (after, some balance) := by
    intro amount last balance hwithdraw
    obtain ⟨⟨after, answer⟩, hexact⟩ :=
      debit_total (some mark) params.initialMarginBps account amount
    obtain ⟨other, hother, hframe⟩ := hdebit amount after answer hexact
    rw [hwithdraw] at hother
    obtain ⟨rfl, rfl⟩ := Prod.mk.inj (Except.ok.inj hother)
    exact ⟨after, hframe, hexact⟩
  constructor
  · intro amount last balance hwithdraw
    obtain ⟨after, hframe, hexact⟩ := hconverse amount last balance hwithdraw
    exact ⟨after, hframe, (debit_requirement hexact).1, debit_not_underwater hexact⟩
  · rw [← debit_healthy_iff]
    constructor
    · intro hhealthy amount after balance hexact
      obtain ⟨last, hwithdraw, hframe⟩ := hdebit amount after (some balance) hexact
      exact hhealthy amount last balance after hwithdraw hframe
    · intro hhealthy amount last balance after hwithdraw hframe
      obtain ⟨debited, hother, hexact⟩ := hconverse amount last balance hwithdraw
      rw [hunique after debited last hframe hother]
      exact hhealthy amount debited balance hexact

theorem OnlyAccount.unique {accounts after : AccountMap} {first second : Account}
    (hfirst : OnlyAccount key accounts first after)
    (hsecond : OnlyAccount key accounts second after) : first = second :=
  Option.some.inj (hfirst.found.symm.trans hsecond.found)

/-- After an accepted withdrawal at a mark the equity covers the rounded initial margin,
so the account is not underwater; and no withdrawal leaves it liquidatable exactly when
the maintenance margin is within what the rounding leaves of the initial one. -/
theorem withdraw_health (checks : U64.OverflowChecks) (account : Account)
    (mark : MarkPrice) (params : LiquidationParams) (key : AccountId) :
    (∀ bridge : LiveBridge, bridge.effectiveMark checks = .ok (some mark) →
      bridge.liquidationParams = params → bridge.accounts.get? key = some account →
        LeavesHealth (fun amount => bridge.withdraw checks key amount)
          (BridgeFrame key bridge) account mark params) ∧
      (∀ (globals : ProcessGlobals) (start : BridgeState),
        globals.accountsInstalled = true →
        globals.effectiveMark checks start = .ok (some mark) →
        globals.initialMarginBps = params.initialMarginBps →
        start.accounts.get? key = some account →
          LeavesHealth
            (fun amount =>
              withdrawCall checks globals start (withdrawCalldata key amount))
            (StateFrame key start) account mark params) ∧
      (|account.positionSize.val| * (mark.val : ℤ) < 2 ^ 64 →
        InI64 (exactRequirement account mark params.initialMarginBps) →
        InI64 (equityAt account mark) →
          (WithdrawalsHealthy account mark params ↔
            freeBeforeCast account (some mark) params.initialMarginBps < 0 ∨
              |account.positionSize.val| * mark.val * params.initialMarginBps.val %
                  Liquidation.marginScale ≤
                ((params.initialMarginBps.val : ℤ) - params.maintenanceMarginBps.val) *
                  (|account.positionSize.val| * mark.val))) := by
  refine ⟨?_, ?_, withdrawalsHealthy_iff_exact⟩
  · intro bridge hmark hparams hfound
    apply leavesHealth_of_debit
    · intro amount after balance hdebit
      exact withdraw_of_debit hmark (by rw [hparams]) rfl (OnlyAccount.refl hfound) hdebit
    · intro first second last hfirst hsecond
      exact hfirst.2.unique hsecond.2
  · intro globals start hinstalled hmark himBps hfound
    apply leavesHealth_of_debit
    · intro amount after balance hdebit
      rw [withdrawCall_calldata hinstalled]
      exact debitInstalled_of_debit hmark himBps rfl (OnlyAccount.refl hfound) hdebit
    · intro first second last hfirst hsecond
      exact hfirst.2.unique hsecond.2

end Routes

/-- An oracle-priced bridge with the default margin rates. -/
def defaultBridge (account : Account) (price : U64) : LiveBridge :=
  { oracleBridge account price 1000 with liquidationParams := .hyperliquidDefault }

/-- Ten units at 120: a tenth of 1200 is not rounded, so no withdrawal hurts. -/
theorem withdraw_health_tenth :
    let account : Account :=
      { account := 1, positionSize := 10, avgEntry := 100, collateral := 50 }
    LeavesHealth (fun amount => (defaultBridge account 120).withdraw .on 1 amount)
        (BridgeFrame 1 (defaultBridge account 120)) account 120 .hyperliquidDefault ∧
      WithdrawalsHealthy account 120 .hyperliquidDefault := by
  intro account
  obtain ⟨hbridge, -, hexact⟩ := withdraw_health .on account 120 .hyperliquidDefault 1
  refine ⟨hbridge (defaultBridge account 120) rfl rfl rfl, ?_⟩
  rw [hexact (by decide) (by decide) (by decide)]
  exact .inr (by decide)

/-- One unit at 1, whose initial margin of a tenth is rounded down to nothing. -/
def roundedLong : Account :=
  { account := 1, positionSize := 1, avgEntry := 1, collateral := 100 }

/-- It may withdraw its whole collateral, and is liquidatable then. -/
theorem not_forall_withdraw_healthy :
    ¬ ∀ (checks : U64.OverflowChecks) (params : LiquidationParams)
        (account after : Account) (mark : MarkPrice) (bridge last : LiveBridge)
        (amount : U64) (balance : I64),
      params.maintenanceMarginBps ≤ params.initialMarginBps →
        bridge.effectiveMark checks = .ok (some mark) → bridge.liquidationParams = params →
          bridge.accounts.get? account.account = some account →
            bridge.withdraw checks account.account amount = .ok (last, some balance) →
              last.accounts.get? account.account = some after →
                Healthy (healthOf after mark params) := by
  intro hall
  have hhealthy := hall .on .hyperliquidDefault roundedLong (setCollateral 0 roundedLong) 1
    (defaultBridge roundedLong 1)
    { defaultBridge roundedLong 1 with
      accounts := debited (defaultBridge roundedLong 1).accounts 1 0 }
    100 0 (by decide) rfl rfl rfl rfl rfl
  exact hhealthy.1 (by decide)

end OpenHl.Evm
