import OpenHl.Devnet.OpenInterest
import OpenHl.Evm.Margin
import OpenHl.Evm.Precompiles

/-!
# Positions are the sums of fills

`apply_fills_to_accounts` goes through four cases of a position for each side of
a fill.  For the size they all do the same: they add the quantity bought or
subtract the quantity sold.

`filledSizes`: as long as no exact size leaves its word, every account holds what
it has bought less what it has sold, and after any run of orders on a new bridge
the sizes of all accounts sum to zero.
-/

namespace OpenHl.Devnet

open Machine OpenHl.Clob OpenHl.Clearing OpenHl.Evm

/-- The sides of some fills, in the order in which they are applied. -/
def sidesOf (fills : List Fill) : List SideFill :=
  fills.flatMap fun fill => [makerSide fill, takerSide fill]

def signedQty (trade : SideFill) : ℤ := trade.qty.val * sideSign trade.side

/-- What an account has bought less what it has sold. -/
def filledSize (key : AccountId) (trades : List SideFill) : ℤ :=
  ((trades.filter fun trade => trade.account = key).map signedQty).sum

def sizeOf (accounts : AccountMap) (key : AccountId) : ℤ :=
  (accounts.getOrFlat key).positionSize.val

/-- No account's exact size leaves the signed 64-bit range on the way. -/
def SizesFit (accounts : AccountMap) (trades : List SideFill) : Prop :=
  ∀ done, done <+: trades → ∀ key, InI64 (sizeOf accounts key + filledSize key done)

/-! ## One side of a fill -/

theorem filledSize_cons (key : AccountId) (trade : SideFill) (trades : List SideFill) :
    filledSize key (trade :: trades) =
      (if trade.account = key then signedQty trade else 0) + filledSize key trades := by
  rw [filledSize, filledSize]
  by_cases hkey : trade.account = key
  · simp [hkey]
  · simp [hkey]

theorem exactSize_eq (accounts : AccountMap) (trade : SideFill) :
    exactSize (accounts.getOrFlat trade.account) trade.qty trade.side =
      sizeOf accounts trade.account + signedQty trade := rfl

theorem sizeOf_applySide {accounts : AccountMap} {trade : SideFill}
    (hsize : InI64 (sizeOf accounts trade.account + signedQty trade))
    (key : AccountId) :
    sizeOf (applySide accounts trade) key =
      sizeOf accounts key + if trade.account = key then signedQty trade else 0 := by
  rw [← exactSize_eq] at hsize
  rw [sizeOf, AccountMap.getOrFlat, AccountMap.get?, applySide, AccountMap.upsert,
    SortedMap.get?_upsert]
  by_cases hkey : key = trade.account
  · rw [if_pos hkey, if_pos hkey.symm, hkey, ← exactSize_eq]
    exact settleFill_positionSize hsize
  · rw [if_neg hkey, if_neg (Ne.symm hkey), add_zero]
    rfl

/-- The first of the trades keeps its account in range, and leaves the others in
range after it. -/
theorem SizesFit.cons {accounts : AccountMap} {trade : SideFill}
    {trades : List SideFill} (hfit : SizesFit accounts (trade :: trades)) :
    InI64 (sizeOf accounts trade.account + signedQty trade) ∧
      SizesFit (applySide accounts trade) trades := by
  have hfirst : InI64 (sizeOf accounts trade.account + signedQty trade) := by
    have hsize := hfit [trade] (List.prefix_append [trade] trades) trade.account
    rw [filledSize_cons, if_pos rfl] at hsize
    simpa [filledSize] using hsize
  refine ⟨hfirst, fun done hdone key => ?_⟩
  have hsize := hfit (trade :: done) (List.cons_prefix_cons.2 ⟨rfl, hdone⟩) key
  rw [sizeOf_applySide hfirst, add_assoc, ← filledSize_cons]
  exact hsize

/-- An account fills no more than everything that is traded. -/
theorem abs_filledSize_le (key : AccountId) (trades : List SideFill) :
    |filledSize key trades| ≤ (trades.map fun trade => (trade.qty.val : ℤ)).sum := by
  induction trades with
  | nil => simp [filledSize]
  | cons trade trades ih =>
      have hqty : |if trade.account = key then signedQty trade else 0| ≤
          (trade.qty.val : ℤ) := by
        rw [signedQty]
        split_ifs
        · cases trade.side <;> simp [sideSign]
        · simp
      rw [filledSize_cons, List.map_cons, List.sum_cons]
      exact (abs_add_le _ _).trans (add_le_add hqty ih)

/-- From empty accounts, fewer than `2^63` contracts in all keep every size in
range. -/
theorem sizesFit_of_small {trades : List SideFill}
    (hsmall : (trades.map fun trade => (trade.qty.val : ℤ)).sum < 2 ^ 63) :
    SizesFit .empty trades := by
  rintro done ⟨rest, rfl⟩ key
  have hrest : 0 ≤ (rest.map fun trade => (trade.qty.val : ℤ)).sum := by
    apply List.sum_nonneg
    intro qty hqty
    obtain ⟨trade, -, rfl⟩ := List.mem_map.1 hqty
    exact Int.natCast_nonneg _
  rw [List.map_append, List.sum_append] at hsmall
  have hzero : sizeOf .empty key = 0 := rfl
  have habs := abs_le.1 (abs_filledSize_le key done)
  rw [hzero, zero_add, InI64]
  omega

/-! ## Runs of fills -/

theorem applyFillsToAccounts_eq_foldl (accounts : AccountMap) (fills : List Fill) :
    applyFillsToAccounts accounts fills = (sidesOf fills).foldl applySide accounts := by
  induction fills generalizing accounts with
  | nil => rfl
  | cons fill fills ih => exact ih _

theorem sizeOf_foldl_applySide {accounts : AccountMap} {trades : List SideFill}
    (hfit : SizesFit accounts trades) (key : AccountId) :
    sizeOf (trades.foldl applySide accounts) key =
      sizeOf accounts key + filledSize key trades := by
  induction trades generalizing accounts with
  | nil => simp [filledSize]
  | cons trade trades ih =>
      obtain ⟨hfirst, hrest⟩ := hfit.cons
      rw [List.foldl_cons, ih hrest, sizeOf_applySide hfirst, filledSize_cons, add_assoc]

theorem netSize_foldl_applySide {accounts : AccountMap} {trades : List SideFill}
    (hfit : SizesFit accounts trades) :
    netSize (trades.foldl applySide accounts) =
      netSize accounts + (trades.map signedQty).sum := by
  induction trades generalizing accounts with
  | nil => simp
  | cons trade trades ih =>
      obtain ⟨hfirst, hrest⟩ := hfit.cons
      rw [List.foldl_cons, ih hrest, netSize_applySide hfirst, List.map_cons,
        List.sum_cons, signedQty]
      ring

/-- The two sides of a fill cancel. -/
theorem sum_signedQty_sidesOf (fills : List Fill) :
    ((sidesOf fills).map signedQty).sum = 0 := by
  induction fills with
  | nil => rfl
  | cons fill fills ih =>
      have hsides : sidesOf (fill :: fills) =
          makerSide fill :: takerSide fill :: sidesOf fills := rfl
      rw [hsides, List.map_cons, List.map_cons, List.sum_cons, List.sum_cons, ih]
      simp only [signedQty, makerSide, takerSide, sideSign_opposite]
      ring

/-! ## Runs of orders -/

/-- Submit orders one after the other and collect their fills. -/
def submitOrders (bridge : BridgeState) :
    List Order → Except Panic (BridgeState × List Fill)
  | [] => .ok (bridge, [])
  | order :: orders => do
      let (submitted, result) ← submitOrder bridge order
      let (last, fills) ← submitOrders submitted orders
      return (last, result.fills ++ fills)

/-- No order panics, and the accounts are those after all the fills. -/
theorem submitOrders_eq_ok {bridge : BridgeState} (hbook : bridge.clob.NoEmptyLevel)
    (orders : List Order) :
    ∃ last fills, submitOrders bridge orders = .ok (last, fills) ∧
      last.accounts = applyFillsToAccounts bridge.accounts fills := by
  induction orders generalizing bridge with
  | nil => exact ⟨bridge, [], rfl, rfl⟩
  | cons order orders ih =>
      obtain ⟨book, hsubmit, hnext, -⟩ := submit_refines hbook order
      let matched := (bridge.clob.resting.submit order).2.fills
      let submitted : BridgeState :=
        { clob := book
          pendingFills := bridge.pendingFills ++ matched
          accounts := applyFillsToAccounts bridge.accounts matched }
      have hsubmitted : submitted.clob.NoEmptyLevel := hnext
      obtain ⟨last, fills, hrest, haccounts⟩ := ih hsubmitted
      refine ⟨last, matched ++ fills, ?_, ?_⟩
      · rw [submitOrders, submitOrder_eq hsubmit, ok_bind]
        simp only [submitted, matched] at hrest
        simp only [hrest, ok_bind]
        rfl
      · rw [haccounts, applyFillsToAccounts, applyFillsToAccounts, List.foldl_append]
        rfl

/-- Fills move every account by what it bought less what it sold, as long as no
exact size leaves its word.  So every account that a run of orders creates on a new
bridge holds the sum of its own fills, and these sums cancel. -/
theorem filledSizes :
    (∀ (accounts : AccountMap) (fills : List Fill), SizesFit accounts (sidesOf fills) →
      ∀ key, sizeOf (applyFillsToAccounts accounts fills) key =
        sizeOf accounts key + filledSize key (sidesOf fills)) ∧
    ∀ orders : List Order, ∃ last fills,
      submitOrders LiveBridge.new.toBridgeState orders = .ok (last, fills) ∧
      (SizesFit .empty (sidesOf fills) →
        (∀ key, sizeOf last.accounts key = filledSize key (sidesOf fills)) ∧
          netSize last.accounts = 0) := by
  refine ⟨fun accounts fills hfit key => ?_, fun orders => ?_⟩
  · rw [applyFillsToAccounts_eq_foldl]
    exact sizeOf_foldl_applySide hfit key
  · have hbook : LiveBridge.new.toBridgeState.clob.NoEmptyLevel := Book.new_noEmptyLevel
    obtain ⟨last, fills, hrun, haccounts⟩ := submitOrders_eq_ok hbook orders
    refine ⟨last, fills, hrun, fun hfit => ⟨fun key => ?_, ?_⟩⟩
    · rw [haccounts, applyFillsToAccounts_eq_foldl]
      change sizeOf ((sidesOf fills).foldl applySide .empty) key = _
      rw [sizeOf_foldl_applySide hfit]
      exact zero_add _
    · rw [haccounts, applyFillsToAccounts_eq_foldl]
      change netSize ((sidesOf fills).foldl applySide .empty) = _
      rw [netSize_foldl_applySide hfit, sum_signedQty_sidesOf]
      rfl

/-- Two accounts open a position, flip it, and one of them trades with itself. -/
def flippingFills : List Fill :=
  [{ makerOrderId := 1, takerOrderId := 2, makerAccount := 1, takerAccount := 2
     price := 100, qty := 5, makerSide := .sell },
   { makerOrderId := 3, takerOrderId := 4, makerAccount := 2, takerAccount := 1
     price := 110, qty := 8, makerSide := .sell },
   { makerOrderId := 5, takerOrderId := 6, makerAccount := 1, takerAccount := 1
     price := 120, qty := 4, makerSide := .buy }]

theorem filledSizes_flipping :
    sizeOf (applyFillsToAccounts .empty flippingFills) 1 = 3 :=
  (filledSizes.1 .empty flippingFills (sizesFit_of_small (by decide)) 1).trans
    (by decide)

end OpenHl.Devnet
