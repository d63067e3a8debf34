import OpenHl.Clearing.FreeCollateral
import OpenHl.Evm.Bridge
import OpenHl.Liquidation.Margin

/-!
# Withdrawals and margin health

The bridge with its margin parameters and the oracle price that the coordinator
pushes.  Both withdrawals and margin health look at the effective mark: the
oracle price if one is installed, else the midpoint of the book.
-/

namespace OpenHl.Evm

open Machine OpenHl.Clob OpenHl.Clearing OpenHl.Funding OpenHl.Liquidation

structure LiveBridge extends BridgeState where
  liquidationParams : LiquidationParams
  oracleIndexPrice : Option U64

/-- The free collateral of an account, at its entry price when there is no
mark. -/
def withdrawFreeCollateral (account : Account) (mark : Option MarkPrice)
    (imBps : U32) : I64 :=
  match mark with
  | some mark => freeCollateral account mark imBps
  | none => account.collateral.saturatingSub (initialMarginRequirement account imBps)

/-- Subtraction that stops when the difference does not fit. -/
def checkedSub (left right : I64) : Checked I64 :=
  if hrange : InI64 (left.val - right.val) then
    .ok ⟨left.val - right.val, hrange.1, hrange.2⟩
  else .error .overflow

def setCollateral (collateral : I64) (account : Account) : Account :=
  { account with collateral := collateral }

theorem setCollateral_account (collateral : I64) (account : Account) :
    (setCollateral collateral account).account = account.account := rfl

/-- The account map with another balance for one of its accounts. -/
def debited (accounts : AccountMap) (account : AccountId) (collateral : I64) :
    AccountMap :=
  accounts.modify account (setCollateral collateral) (setCollateral_account collateral)

theorem debited_eq_self_iff {accounts : AccountMap} {key : AccountId} {account : Account}
    (hfound : accounts.get? key = some account) {collateral : I64} :
    debited accounts key collateral = accounts ↔ collateral = account.collateral := by
  rw [AccountMap.get?] at hfound
  constructor
  · intro hsame
    have hkept := SortedMap.modify_eq_self_iff.1 (congrArg AccountMap.map hsame)
    rw [hfound] at hkept
    exact congrArg Account.collateral (Option.some.inj hkept)
  · rintro rfl
    apply AccountMap.ext
    exact SortedMap.modify_eq_self_iff.2 (by rw [hfound]; rfl)

namespace LiveBridge

/-- A bridge in a fresh process. -/
def new : LiveBridge :=
  { clob := Book.new, pendingFills := [], accounts := .empty
    liquidationParams := .hyperliquidDefault, oracleIndexPrice := none }

def withLiquidationParams (bridge : LiveBridge) (params : LiquidationParams) :
    LiveBridge :=
  { bridge with liquidationParams := params }

def setOracleIndexPrice (bridge : LiveBridge) (price : U64) : LiveBridge :=
  { bridge with oracleIndexPrice := some price }

def clearOracleIndexPrice (bridge : LiveBridge) : LiveBridge :=
  { bridge with oracleIndexPrice := none }

section Mark

variable (checks : U64.OverflowChecks)

def currentMark (bridge : LiveBridge) : Checked (Option MarkPrice) :=
  Evm.currentMark checks bridge.clob

def effectiveMark (bridge : LiveBridge) : Checked (Option MarkPrice) :=
  match bridge.oracleIndexPrice with
  | some price => .ok (some price)
  | none => bridge.currentMark checks

/-- Debit collateral; the answer is the new balance, or nothing on rejection. -/
def withdraw (bridge : LiveBridge) (account : AccountId) (amount : U64) :
    Checked (LiveBridge × Option I64) := do
  let mark ← bridge.effectiveMark checks
  match bridge.accounts.get? account with
  | none => return (bridge, none)
  | some found =>
      match amount.toI64? with
      | none => return (bridge, none)
      | some amountI64 =>
          let free := withdrawFreeCollateral found mark
            bridge.liquidationParams.initialMarginBps
          if free.val < amountI64.val then return (bridge, none)
          else
            let collateral ← checkedSub found.collateral amountI64
            return ({ bridge with accounts := debited bridge.accounts account collateral },
              some collateral)

def marginHealth (bridge : LiveBridge) (account : AccountId) :
    Checked (Option MarginHealth) := do
  match ← bridge.effectiveMark checks with
  | none => return none
  | some mark =>
      return (bridge.accounts.get? account).map fun found =>
        Liquidation.marginHealth
          { account := found.account, positionSize := found.positionSize
            avgEntry := found.avgEntry, collateral := found.collateral }
          mark bridge.liquidationParams

end Mark

/-- Only the midpoint can fail. -/
theorem effectiveMark_eq_error_iff {checks : U64.OverflowChecks} {bridge : LiveBridge}
    {fault : Fault} :
    bridge.effectiveMark checks = .error fault ↔
      bridge.oracleIndexPrice = none ∧ checks = .on ∧ ¬ MidpointFits bridge.clob := by
  rw [effectiveMark, currentMark]
  cases bridge.oracleIndexPrice with
  | none =>
      dsimp only
      rw [currentMark_eq_error_iff, eq_self, true_and]
  | some price => simp

theorem marginHealth_of_noMark {checks : U64.OverflowChecks} {bridge : LiveBridge}
    (hmark : bridge.effectiveMark checks = .ok none) (account : AccountId) :
    bridge.marginHealth checks account = .ok none := by
  rw [marginHealth, hmark]
  rfl

end LiveBridge

/-! ## Accepted withdrawals stay in range -/

/-- The new balance is the exact difference whenever the withdrawal is within the
free collateral. -/
theorem checkedSub_eq_ok {account : Account} {mark : Option MarkPrice} {imBps : U32}
    {amount : I64} (hnonneg : 0 ≤ amount.val)
    (hfree : amount.val ≤ (withdrawFreeCollateral account mark imBps).val) :
    ∃ collateral, checkedSub account.collateral amount = .ok collateral ∧
      collateral.val = account.collateral.val - amount.val := by
  have hrange : InI64 (account.collateral.val - amount.val) := by
    have hupper := account.collateral.upper
    rw [InI64]
    cases mark with
    | some mark =>
        have hbound := le_of_le_freeCollateral hnonneg hfree
        have hprofit := (unrealizedPnl account mark).upper
        have hloss := (unrealizedPnl account mark).lower
        omega
    | none =>
        have hmargin := initialMarginRequirementAt_nonneg account account.avgEntry imBps
        rw [withdrawFreeCollateral, I64.saturatingSub_val, initialMarginRequirement]
          at hfree
        omega
  exact ⟨⟨_, hrange.1, hrange.2⟩, dif_pos hrange, rfl⟩

theorem toI64?_nonneg {amount : U64} {amountI64 : I64}
    (hamount : amount.toI64? = some amountI64) : 0 ≤ amountI64.val := by
  rw [U64.toI64?] at hamount
  split_ifs at hamount
  rw [Option.some.injEq] at hamount
  rw [← hamount]
  exact Int.natCast_nonneg _

end OpenHl.Evm
