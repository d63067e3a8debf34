import OpenHl.Devnet.CommitHook

/-!
# Forced closes

The scan selects accounts by margin ratio, auto-deleveraging by profit, both
from one snapshot.  The commit hook applies both lists and relies on their
being disjoint.

`closedOnce_iff`: every named account is closed once and ends flat exactly when
no account of the snapshot is selected by both, and none of the deleveraged
positions is the least signed word.
-/

namespace OpenHl.Devnet

open Machine OpenHl.Clob OpenHl.Clearing OpenHl.Funding OpenHl.Liquidation OpenHl.Node

/-- The accounts named in the liquidation and in the deleveraging records. -/
def forcedAccounts (report : TickReport) : List AccountId :=
  report.liquidation.records.map LiquidationRecord.account ++
    report.adlRecords.map AdlRecord.account

/-- No account is named in both lists or twice in one of them, and applying the
report leaves every named account without a position. -/
structure ClosedOnce (accounts : AccountMap) (report : TickReport) : Prop where
  once : (forcedAccounts report).Nodup
  flat : ∀ key ∈ forcedAccounts report, ∃ account,
    (applyReport accounts report).get? key = some account ∧ account.positionSize = 0

/-- The account map has the accounts of the snapshots as they were taken. -/
def Holds (accounts : AccountMap) (snapshots : List AccountSnapshot) : Prop :=
  ∀ snapshot ∈ snapshots, ∃ account,
    accounts.get? snapshot.account = some account ∧ snapshotOf account = snapshot

theorem holds_accountsSnapshot (accounts : AccountMap) :
    Holds accounts (accountsSnapshot accounts) := by
  intro snapshot hsnapshot
  obtain ⟨account, haccount, rfl⟩ := List.mem_map.1 hsnapshot
  obtain ⟨entry, hentry, rfl⟩ := List.mem_map.1 haccount
  have hget := (SortedMap.get?_eq_some_iff accounts.map).2 hentry
  have hkey : (snapshotOf entry.2).account = entry.1 :=
    accounts.keyed entry.1 entry.2 hget
  exact ⟨entry.2, by rw [hkey]; exact hget, rfl⟩

section Tick

variable {node after : OpenHlNode} {input : TickInput} {report : TickReport}

theorem liquidation_accounts (htick : node.tick input = .ok (after, report)) :
    report.liquidation.records.map LiquidationRecord.account =
      (input.accountSnapshots.filter (node.liquidates input)).map
        AccountSnapshot.account := by
  rw [OpenHlNode.tick_liquidation_records htick, List.map_map]
  rfl

theorem adl_accounts (htick : node.tick input = .ok (after, report)) :
    report.adlRecords.map AdlRecord.account =
      report.adlRecords.map fun record => record.closeOrder.account :=
  List.map_congr_left (OpenHlNode.tick_adlRecords_account htick)

theorem mem_adl_accounts (htick : node.tick input = .ok (after, report))
    (hdistinct : (input.accountSnapshots.map AccountSnapshot.account).Nodup)
    (key : AccountId) :
    key ∈ report.adlRecords.map AdlRecord.account ↔
      ∃ snapshot ∈ input.accountSnapshots, node.Deleverages input snapshot ∧
        snapshot.account = key := by
  have horders := OpenHlNode.mem_tick_closeOrders htick hdistinct
  rw [adl_accounts htick]
  constructor
  · intro hkey
    obtain ⟨record, hrecord, rfl⟩ := List.mem_map.1 hkey
    obtain ⟨snapshot, hsnapshot, hdeleverages, horder⟩ :=
      (horders record.closeOrder).1 (List.mem_map_of_mem hrecord)
    rw [horder]
    exact ⟨snapshot, hsnapshot, hdeleverages, rfl⟩
  · rintro ⟨snapshot, hsnapshot, hdeleverages, rfl⟩
    obtain ⟨record, hrecord, horder⟩ := List.mem_map.1
      ((horders (closeOrderSpec snapshot)).2 ⟨snapshot, hsnapshot, hdeleverages, rfl⟩)
    refine List.mem_map.2 ⟨record, hrecord, ?_⟩
    rw [horder]
    rfl

theorem mem_liquidation_accounts (htick : node.tick input = .ok (after, report))
    (key : AccountId) :
    key ∈ report.liquidation.records.map LiquidationRecord.account ↔
      ∃ snapshot ∈ input.accountSnapshots, node.liquidates input snapshot = true ∧
        snapshot.account = key := by
  rw [liquidation_accounts htick]
  simp [and_assoc]

/-- No account is closed twice exactly when the two selections are disjoint. -/
theorem forcedAccounts_nodup_iff (htick : node.tick input = .ok (after, report))
    (hdistinct : (input.accountSnapshots.map AccountSnapshot.account).Nodup) :
    (forcedAccounts report).Nodup ↔ ∀ snapshot ∈ input.accountSnapshots,
      node.Deleverages input snapshot → node.liquidates input snapshot = false := by
  have hliquidations :
      (report.liquidation.records.map LiquidationRecord.account).Nodup := by
    rw [liquidation_accounts htick]
    exact hdistinct.sublist (List.filter_sublist.map _)
  have hadl : (report.adlRecords.map AdlRecord.account).Nodup := by
    rw [adl_accounts htick]
    exact OpenHlNode.tick_adlRecords_distinct htick hdistinct
  rw [forcedAccounts, List.nodup_append]
  constructor
  · rintro ⟨-, -, hdisjoint⟩ snapshot hmem hdeleverages
    by_contra hliquidates
    rw [Bool.not_eq_false] at hliquidates
    exact hdisjoint snapshot.account
      ((mem_liquidation_accounts htick _).2 ⟨snapshot, hmem, hliquidates, rfl⟩)
      snapshot.account
      ((mem_adl_accounts htick hdistinct _).2 ⟨snapshot, hmem, hdeleverages, rfl⟩) rfl
  · intro hapart
    refine ⟨hliquidations, hadl, ?_⟩
    rintro key hliquidated other hother rfl
    obtain ⟨left, hleft, hliquidates, rfl⟩ :=
      (mem_liquidation_accounts htick _).1 hliquidated
    obtain ⟨right, hright, hdeleverages, haccount⟩ :=
      (mem_adl_accounts htick hdistinct _).1 hother
    obtain rfl := snapshot_eq_of_account hdistinct hright hleft haccount
    exact absurd hliquidates (by simp [hapart right hright hdeleverages])

variable {accounts : AccountMap}

/-- The account of a snapshot after the report. -/
theorem applyReport_snapshot (htick : node.tick input = .ok (after, report))
    (hdistinct : (input.accountSnapshots.map AccountSnapshot.account).Nodup)
    (hholds : Holds accounts input.accountSnapshots) {snapshot : AccountSnapshot}
    (hmem : snapshot ∈ input.accountSnapshots) :
    ∃ account, (applyReport accounts report).get? snapshot.account = some account ∧
      account.positionSize.val =
        (if node.liquidates input snapshot then 0 else snapshot.positionSize.val) -
          (if node.Deleverages input snapshot then clippedSize snapshot else 0) := by
  obtain ⟨account, hget, hsnapshot⟩ := hholds snapshot hmem
  exact ⟨reportEffect report snapshot.account account, by
      rw [applyReport_get?, hget, Option.map_some],
    reportEffect_positionSize htick hdistinct hmem hsnapshot⟩

end Tick

/-- Every account named in a report is closed once and flat afterwards exactly
when no deleveraged account is liquidated as well and none holds the least
signed word. -/
theorem closedOnce_iff (node after : OpenHlNode) (input : TickInput)
    (report : TickReport) (accounts : AccountMap)
    (hdistinct : (input.accountSnapshots.map AccountSnapshot.account).Nodup)
    (hholds : Holds accounts input.accountSnapshots)
    (htick : node.tick input = .ok (after, report)) :
    ClosedOnce accounts report ↔ ∀ snapshot ∈ input.accountSnapshots,
      node.Deleverages input snapshot →
        node.liquidates input snapshot = false ∧
          snapshot.positionSize ≠ I64.minValue := by
  constructor
  · rintro ⟨honce, hflat⟩ snapshot hmem hdeleverages
    have hkept := (forcedAccounts_nodup_iff htick hdistinct).1 honce snapshot hmem
      hdeleverages
    refine ⟨hkept, fun hleast => ?_⟩
    obtain ⟨account, hget, hsize⟩ := applyReport_snapshot htick hdistinct hholds hmem
    obtain ⟨other, hother, hzero⟩ := hflat snapshot.account (List.mem_append_right _
      ((mem_adl_accounts htick hdistinct _).2 ⟨snapshot, hmem, hdeleverages, rfl⟩))
    rw [hget, Option.some.injEq] at hother
    -- one contract of the least word is left
    rw [hother, hzero, hkept, if_pos hdeleverages, clippedSize, hleast] at hsize
    simp at hsize
  · intro hapart
    have honce := (forcedAccounts_nodup_iff htick hdistinct).2
      fun snapshot hmem hdeleverages => (hapart snapshot hmem hdeleverages).1
    refine ⟨honce, fun key hkey => ?_⟩
    obtain ⟨snapshot, hmem, hforced, rfl⟩ : ∃ snapshot ∈ input.accountSnapshots,
        (node.liquidates input snapshot = true ∨ node.Deleverages input snapshot) ∧
          snapshot.account = key := by
      rcases List.mem_append.1 hkey with hliquidated | hdeleveraged
      · obtain ⟨snapshot, hmem, hliquidates, haccount⟩ :=
          (mem_liquidation_accounts htick key).1 hliquidated
        exact ⟨snapshot, hmem, Or.inl hliquidates, haccount⟩
      · obtain ⟨snapshot, hmem, hdeleverages, haccount⟩ :=
          (mem_adl_accounts htick hdistinct key).1 hdeleveraged
        exact ⟨snapshot, hmem, Or.inr hdeleverages, haccount⟩
    obtain ⟨account, hget, hsize⟩ := applyReport_snapshot htick hdistinct hholds hmem
    refine ⟨account, hget, I64.ext ?_⟩
    rw [hsize, I64.zero_val]
    by_cases hdeleverages : node.Deleverages input snapshot
    · obtain ⟨hkept, hleast⟩ := hapart snapshot hmem hdeleverages
      have hlower := snapshot.positionSize.lower
      have habove : snapshot.positionSize.val ≠ -2 ^ 63 := fun heq =>
        hleast (I64.ext heq)
      rw [hkept, if_pos hdeleverages, clippedSize]
      simp only [Bool.false_eq_true, if_false]
      omega
    · rw [if_pos (hforced.resolve_right hdeleverages), if_neg hdeleverages, sub_zero]

/-- A block of the node at the given mark, before any oracle price. -/
def inputAt (mark : MarkPrice) (accounts : AccountMap) : TickInput :=
  { blockHeight := 1, blockTime := 0, mark := mark
    accountSnapshots := accountsSnapshot accounts, vaultTotalAssets := 0 }

/-- A long without collateral and a healthy short of twice its size. -/
def loserAndWinner : AccountMap :=
  (AccountMap.empty.insert
    { account := 1, positionSize := 10, avgEntry := 100, collateral := 0 }).insert
    { account := 2, positionSize := -20, avgEntry := 100, collateral := 1000 }

theorem closedOnce_iff_loserAndWinner :
    ∃ after report, (OpenHlNode.new .hyperliquidDefault).tick
        (inputAt 90 loserAndWinner) = .ok (after, report) ∧
      ClosedOnce loserAndWinner report := by
  have hok : ((OpenHlNode.new .hyperliquidDefault).tick
      (inputAt 90 loserAndWinner)).toOption.map (fun _ => ()) = some () := by
    decide +kernel
  obtain ⟨result, htick, -⟩ := exists_ok_of_map_toOption hok
  exact ⟨result.1, result.2, htick, (closedOnce_iff _ result.1 _ result.2 _
    (accountsSnapshot_distinct loserAndWinner)
    (holds_accountsSnapshot loserAndWinner) htick).2 (by decide +kernel)⟩

/-- A long with little collateral whose profit is smaller than the fee. -/
def thinWinner : AccountMap :=
  AccountMap.empty.insert
    { account := 1, positionSize := 1000, avgEntry := 999, collateral := 1 }

/-- The account is liquidated, cannot pay the fee, and is then deleveraged for
the deficit of its own close: the hook leaves it short by 1000. -/
theorem not_forall_closedOnce :
    ¬ ∀ (node after : OpenHlNode) (input : TickInput) (report : TickReport)
      (accounts : AccountMap),
      (input.accountSnapshots.map AccountSnapshot.account).Nodup →
        Holds accounts input.accountSnapshots →
          node.tick input = .ok (after, report) → ClosedOnce accounts report := by
  intro hclosed
  have hforced : ((OpenHlNode.new .hyperliquidDefault).tick
      (inputAt 1000 thinWinner)).toOption.map (fun result =>
        forcedAccounts result.2) = some [1, 1] := by decide +kernel
  obtain ⟨result, htick, hnames⟩ := exists_ok_of_map_toOption hforced
  have honce := (hclosed _ result.1 _ result.2 _ (accountsSnapshot_distinct thinWinner)
    (holds_accountsSnapshot thinWinner) htick).once
  rw [hnames] at honce
  simp at honce

end OpenHl.Devnet
