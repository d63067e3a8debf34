import OpenHl.Devnet.ForcedCloses

/-!
# Collateral after a block

The commit hook adds funding deltas and paid profits to the collateral but
assigns what a liquidation leaves, a number computed from the snapshot before
funding was applied.

`applyReport_collateral_iff`: an account ends with its collateral, its funding
delta and the change its record prescribes exactly when it is not liquidated or
receives no funding, and the sums fit a signed word.
-/

namespace OpenHl.Devnet

open Machine OpenHl.Clob OpenHl.Clearing OpenHl.Funding OpenHl.Liquidation OpenHl.Node
open OpenHl.Oracle

/-- The two lists of forced closes name different accounts. -/
def DisjointRecords (report : TickReport) : Prop :=
  (report.liquidation.records.map LiquidationRecord.account).Disjoint
    (report.adlRecords.map AdlRecord.account)

/-- The profit that a report pays to a deleveraged account. -/
def paidProfit (report : TickReport) (key : AccountId) : I64 :=
  ((adlFor report key).map AdlRecord.pnlPaid).getD 0

/-- The change of collateral that an account's record prescribes, relative to
the snapshot. -/
def prescribedChange (report : TickReport) (account : Account) : ℤ :=
  match liquidationFor report account.account with
  | some record => record.outcome.left.val - account.collateral.val
  | none => (paidProfit report account.account).val

/-- A liquidated account receives no funding; the sums of any other account fit
a signed word. -/
def KeepsFunding (report : TickReport) (account : Account) : Prop :=
  ((liquidationFor report account.account).isSome →
    fundingDelta report account.account = 0) ∧
  (liquidationFor report account.account = none →
    InI64 (account.collateral.val + (fundingDelta report account.account).val) ∧
      InI64 (account.collateral.val + (fundingDelta report account.account).val +
        (paidProfit report account.account).val))

instance (report : TickReport) (account : Account) :
    Decidable (KeepsFunding report account) :=
  inferInstanceAs (Decidable (_ ∧ _))

theorem applyLiquidation_collateral (record : LiquidationRecord) (account : Account) :
    (applyLiquidation record account).collateral = record.outcome.left := by
  rw [applyLiquidation]
  cases record.outcome <;> rfl

section Tick

variable {node after : OpenHlNode} {input : TickInput} {report : TickReport}

/-- With disjoint records a liquidated account is not deleveraged. -/
theorem adlFor_eq_none (htick : node.tick input = .ok (after, report))
    (hdisjoint : DisjointRecords report) {key : AccountId}
    {record : LiquidationRecord} (hrecord : liquidationFor report key = some record) :
    adlFor report key = none := by
  have hmem := List.mem_of_find?_eq_some hrecord
  have hkey : record.closeOrder.account = key := by
    simpa using List.find?_some hrecord
  have hsame : record.account = record.closeOrder.account := by
    rw [OpenHlNode.tick_liquidation_records htick] at hmem
    obtain ⟨snapshot, -, rfl⟩ := List.mem_map.1 hmem
    rfl
  rw [adlFor, List.find?_eq_none]
  intro other hother hfound
  have haccount : other.closeOrder.account = key := by simpa using hfound
  refine hdisjoint (List.mem_map_of_mem hmem) (List.mem_map.2 ⟨other, hother, ?_⟩)
  rw [OpenHlNode.tick_adlRecords_account htick other hother, haccount, hsame, hkey]

/-- The collateral after a report: what a liquidation leaves, or the collateral
with the funding delta and the paid profit added. -/
theorem reportEffect_collateral (htick : node.tick input = .ok (after, report))
    (hdistinct : (input.accountSnapshots.map AccountSnapshot.account).Nodup)
    (hdisjoint : DisjointRecords report) (account : Account) :
    (reportEffect report account.account account).collateral =
      match liquidationFor report account.account with
      | some record => record.outcome.left
      | none =>
          (account.collateral.saturatingAdd
            (fundingDelta report account.account)).saturatingAdd
              (paidProfit report account.account) := by
  rw [reportEffect_eq htick hdistinct]
  simp only [closedAccount]
  cases hliquidation : liquidationFor report account.account with
  | some record =>
      rw [adlFor_eq_none htick hdisjoint hliquidation]
      exact applyLiquidation_collateral record _
  | none =>
      simp only [Option.map_none, Option.getD_none, paidProfit, fundedAccount]
      cases adlFor report account.account with
      | none => simp
      | some record => rfl

end Tick

/-- After the commit hook has applied a report with disjoint records, an account
holds its collateral, its funding delta and the change its record prescribes
exactly when its funding is kept. -/
theorem applyReport_collateral_iff (node after : OpenHlNode) (input : TickInput)
    (report : TickReport) (accounts : AccountMap)
    (hsnapshots : input.accountSnapshots = accountsSnapshot accounts)
    (htick : node.tick input = .ok (after, report))
    (hdisjoint : DisjointRecords report) (key : AccountId) (account : Account)
    (hget : accounts.get? key = some account) :
    (∃ settled, (applyReport accounts report).get? key = some settled ∧
      settled.collateral.val = account.collateral.val +
        (fundingDelta report key).val + prescribedChange report account) ↔
      KeepsFunding report account := by
  have hdistinct : (input.accountSnapshots.map AccountSnapshot.account).Nodup := by
    rw [hsnapshots]
    exact accountsSnapshot_distinct accounts
  have hkey : account.account = key := accounts.keyed key account hget
  subst hkey
  have hcollateral := reportEffect_collateral htick hdistinct hdisjoint account
  simp only [applyReport_get?, hget, Option.map_some, Option.some.injEq,
    exists_eq_left', hcollateral, prescribedChange, KeepsFunding]
  cases liquidationFor report account.account with
  | some record =>
      simp only [Option.isSome_some, forall_const, reduceCtorEq, false_implies, and_true]
      rw [I64.ext_iff, I64.zero_val]
      omega
  | none =>
      simpa using I64.saturatingAdd_saturatingAdd_val_eq_iff account.collateral
        (fundingDelta report account.account) (paidProfit report account.account)

/-- A node with an index price, in a block in which funding is due. -/
def pricedNode (index : IndexPrice) : OpenHlNode :=
  { OpenHlNode.new .hyperliquidDefault with
    oracle := (OracleState.new .hyperliquidDefault).restoreCurrent
      { index := index, computedAt := 3600, feedsUsed := 2 }
    lastOracleRefreshAt := some 3600 }

def settlingInput (mark : MarkPrice) (accounts : AccountMap) : TickInput :=
  { inputAt mark accounts with blockTime := 3600 }

theorem applyReport_collateral_iff_loserAndWinner :
    ∃ after report account, (pricedNode 90).tick
        (settlingInput 95 loserAndWinner) = .ok (after, report) ∧
      ∃ settled, (applyReport loserAndWinner report).get? 2 = some settled ∧
        settled.collateral.val = 1000 + (fundingDelta report 2).val +
          prescribedChange report account := by
  have hkeeps : ((pricedNode 90).tick (settlingInput 95 loserAndWinner)).toOption.map
      (fun result => decide (result.2.liquidation.records.map
          LiquidationRecord.account = [1] ∧
        result.2.adlRecords.map AdlRecord.account = [2] ∧
        KeepsFunding result.2 (loserAndWinner.getOrFlat 2))) = some true := by
    decide +kernel
  obtain ⟨result, htick, hholds⟩ := exists_ok_of_map_toOption hkeeps
  obtain ⟨hliquidated, hdeleveraged, hfunding⟩ := of_decide_eq_true hholds
  refine ⟨result.1, result.2, loserAndWinner.getOrFlat 2, htick, ?_⟩
  refine (applyReport_collateral_iff _ result.1 _ result.2 loserAndWinner rfl htick
    ?_ 2 (loserAndWinner.getOrFlat 2) rfl).2 hfunding
  rw [DisjointRecords, hliquidated, hdeleveraged]
  simp

/-- A long that is liquidated at 100 with 20 to spare. -/
def spareTwenty : AccountMap :=
  AccountMap.empty.insert
    { account := 1, positionSize := 100, avgEntry := 109, collateral := 1070 }

/-- The account owes 137 of funding, but the residual 20 of its liquidation is
assigned on top of it. -/
theorem not_forall_applyReport_collateral :
    ¬ ∀ (node after : OpenHlNode) (input : TickInput) (report : TickReport)
      (accounts : AccountMap), input.accountSnapshots = accountsSnapshot accounts →
        node.tick input = .ok (after, report) → DisjointRecords report →
          ∀ (key : AccountId) (account : Account), accounts.get? key = some account →
            ∃ settled, (applyReport accounts report).get? key = some settled ∧
              settled.collateral.val = account.collateral.val +
                (fundingDelta report key).val + prescribedChange report account := by
  intro haccounted
  have hvalues : ((pricedNode 100).tick (settlingInput 110 spareTwenty)).toOption.map
      (fun result => (result.2.adlRecords,
        ((applyReport spareTwenty result.2).get? 1).map Account.collateral,
        fundingDelta result.2 1,
        prescribedChange result.2 (spareTwenty.getOrFlat 1))) =
      some ([], some 20, -137, -1050) := by decide +kernel
  obtain ⟨result, htick, htuple⟩ := exists_ok_of_map_toOption hvalues
  simp only [Prod.mk.injEq] at htuple
  obtain ⟨hadl, hcollateral, hdelta, hchange⟩ := htuple
  obtain ⟨settled, hget, hsum⟩ := haccounted _ result.1 _ result.2 spareTwenty rfl
    htick (by rw [DisjointRecords, hadl]; simp) 1 (spareTwenty.getOrFlat 1) rfl
  rw [hget, Option.map_some, Option.some.injEq] at hcollateral
  rw [hcollateral, hdelta, hchange] at hsum
  revert hsum
  decide +kernel

end OpenHl.Devnet
