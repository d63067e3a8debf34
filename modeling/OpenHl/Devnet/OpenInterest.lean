import OpenHl.Devnet.ForcedCloses

/-!
# Open interest

Fills move contracts between two accounts, so the position sizes of all
accounts sum to zero as long as only fills change them.  The commit hook writes
the sizes of force-closed accounts into the map without a fill.

`reaches_netSize`: along any run of orders, deposits and committed blocks the
sizes stay balanced if the force-closed sizes of every block sum to zero; for
one block this is also necessary.
-/

namespace OpenHl.Devnet

open Machine OpenHl.Clob OpenHl.Clearing OpenHl.Funding OpenHl.Liquidation OpenHl.Node
open OpenHl.Evm OpenHl.Oracle

/-- Sum of the position sizes of all accounts. -/
def netSize (accounts : AccountMap) : ℤ :=
  accounts.total fun account => account.positionSize.val

/-! ## Fills and deposits -/

theorem netSize_upsert (accounts : AccountMap) (key : AccountId)
    (change : Account → Account)
    (hkeeps : ∀ account, (change account).account = account.account) :
    netSize (accounts.upsert key change hkeeps) = netSize accounts +
      ((change (accounts.getOrFlat key)).positionSize.val -
        (accounts.getOrFlat key).positionSize.val) :=
  AccountMap.total_upsert (fun _ => rfl) accounts key change hkeeps

theorem netSize_applySide {accounts : AccountMap} {trade : SideFill}
    (hsize : InI64 (exactSize (accounts.getOrFlat trade.account) trade.qty trade.side)) :
    netSize (applySide accounts trade) =
      netSize accounts + trade.qty.val * sideSign trade.side := by
  rw [applySide, netSize_upsert, settleFill_positionSize hsize, exactSize]
  ring

/-- Fills move contracts from one side to the other. -/
theorem netSize_applyFillsToAccounts {fills : List Fill} {accounts : AccountMap}
    (hsizes : ∀ call ∈ fillCalls accounts fills,
      InI64 (exactSize call.1 call.2.qty call.2.side)) :
    netSize (applyFillsToAccounts accounts fills) = netSize accounts := by
  induction fills generalizing accounts with
  | nil => rfl
  | cons fill fills ih =>
      simp only [fillCalls, List.forall_mem_cons] at hsizes
      obtain ⟨hmaker, htaker, hrest⟩ := hsizes
      calc
        netSize (applyFillsToAccounts accounts (fill :: fills)) =
            netSize (applySide (applySide accounts (makerSide fill))
              (takerSide fill)) := ih hrest
        _ = netSize (applySide accounts (makerSide fill)) +
            fill.qty.val * sideSign fill.makerSide.opposite := netSize_applySide htaker
        _ = netSize accounts + fill.qty.val * sideSign fill.makerSide +
            fill.qty.val * sideSign fill.makerSide.opposite := by
          rw [netSize_applySide hmaker]
          rfl
        _ = netSize accounts := by
          rw [sideSign_opposite]
          ring

theorem netSize_deposit (bridge : BridgeState) (account : AccountId) (amount : I64) :
    netSize (deposit bridge account amount).accounts = netSize bridge.accounts := by
  have hnet := netSize_upsert bridge.accounts account (depositCollateral amount)
    (depositCollateral_account amount)
  simpa [deposit, depositCollateral] using hnet

/-! ## Committed blocks -/

/-- What the forced closes of a tick take from the position of an account. -/
def forcedSize (node : OpenHlNode) (input : TickInput) (snapshot : AccountSnapshot) :
    ℤ :=
  (if node.liquidates input snapshot then snapshot.positionSize.val else 0) +
    (if node.Deleverages input snapshot then clippedSize snapshot else 0)

/-- The contracts that the forced closes of a tick take from all accounts. -/
def forcedNetSize (node : OpenHlNode) (input : TickInput) : ℤ :=
  (input.accountSnapshots.map (forcedSize node input)).sum

theorem netSize_applyReport {node after : OpenHlNode} {input : TickInput}
    {report : TickReport} {accounts : AccountMap}
    (hsnapshots : input.accountSnapshots = accountsSnapshot accounts)
    (htick : node.tick input = .ok (after, report)) :
    netSize (applyReport accounts report) + forcedNetSize node input =
      netSize accounts := by
  have hdistinct : (input.accountSnapshots.map AccountSnapshot.account).Nodup := by
    rw [hsnapshots]
    exact accountsSnapshot_distinct accounts
  have hforced : forcedNetSize node input = (accounts.map.entries.map
      fun entry => forcedSize node input (snapshotOf entry.2)).sum := by
    rw [forcedNetSize, hsnapshots, accountsSnapshot, SortedMap.values, List.map_map,
      List.map_map]
    rfl
  rw [hforced, netSize, AccountMap.total, SortedMap.sumBy, applyReport_entries,
    List.map_map, ← List.sum_map_add, netSize, AccountMap.total, SortedMap.sumBy]
  congr 1
  refine List.map_congr_left fun entry hentry => ?_
  have hget := (SortedMap.get?_eq_some_iff accounts.map).2 hentry
  have hkey : (snapshotOf entry.2).account = entry.1 :=
    accounts.keyed entry.1 entry.2 hget
  have hmem : snapshotOf entry.2 ∈ input.accountSnapshots := by
    rw [hsnapshots]
    exact List.mem_map_of_mem (List.mem_map_of_mem hentry)
  have hsize := reportEffect_positionSize htick hdistinct hmem rfl
  rw [hkey] at hsize
  simp only [Function.comp_apply, hsize, forcedSize]
  have hsame : (snapshotOf entry.2).positionSize.val = entry.2.positionSize.val := rfl
  split_ifs <;> omega

theorem commitHook_eq_ok {checks : U64.OverflowChecks}
    {verify : PriceObservation → PublisherKey → Bool} {state after : DevnetState}
    {block : CommittedBlock} (hcommit : commitHook checks verify state block = .ok after) :
    ∃ input ticked report,
      hookInput checks state.bridge (ingestObservations verify state.node block) block =
        .ok input ∧
      (ingestObservations verify state.node block).tick input = .ok (ticked, report) ∧
      after.bridge.accounts = applyReport state.bridge.accounts report := by
  obtain ⟨input, hinput, hcommit⟩ := bind_eq_ok.1 hcommit
  obtain ⟨⟨ticked, report⟩, htick, hresult⟩ := bind_eq_ok.1 hcommit
  cases hresult
  exact ⟨input, ticked, report, hinput, htick, rfl⟩

theorem hookInput_snapshots {checks : U64.OverflowChecks} {bridge : BridgeState}
    {node : OpenHlNode} {block : CommittedBlock} {input : TickInput}
    (hinput : hookInput checks bridge node block = .ok input) :
    input.accountSnapshots = accountsSnapshot bridge.accounts := by
  rw [hookInput] at hinput
  cases hmark : currentMark checks bridge.clob with
  | error fault => simp [hmark, Except.map] at hinput
  | ok mark =>
      simp only [hmark, Except.map, Except.ok.injEq] at hinput
      rw [← hinput]

/-! ## Runs -/

inductive Event where
  | submit (order : Order)
  | deposit (account : AccountId) (amount : I64)
  | commit (block : CommittedBlock)

section Runs

variable (checks : U64.OverflowChecks) (verify : PriceObservation → PublisherKey → Bool)

/-- One event of the devnet, `none` where the code panics. -/
def stepEvent (state : DevnetState) : Event → Option DevnetState
  | .submit order =>
      (submitOrder state.bridge order).toOption.map fun submitted =>
        { state with bridge := submitted.1 }
  | .deposit account amount =>
      some { state with bridge := deposit state.bridge account amount }
  | .commit block => (commitHook checks verify state block).toOption

/-- The forced closes of a block take as many contracts from longs as from
shorts; the fills of an order clamp no position. -/
def BalancedEvent (state : DevnetState) : Event → Prop
  | .submit order => ∀ book result, state.bridge.clob.submit order = .ok (book, result) →
      ∀ call ∈ fillCalls state.bridge.accounts result.fills,
        InI64 (exactSize call.1 call.2.qty call.2.side)
  | .deposit _ _ => True
  | .commit block => ∀ input,
      hookInput checks state.bridge (ingestObservations verify state.node block) block =
        .ok input →
      forcedNetSize (ingestObservations verify state.node block) input = 0

/-- One event that is balanced in the state it meets. -/
def BalancedStep (before after : DevnetState) : Prop :=
  ∃ event, BalancedEvent checks verify before event ∧
    stepEvent checks verify before event = some after

variable {checks verify}

theorem netSize_commitHook {state after : DevnetState} {block : CommittedBlock}
    {input : TickInput}
    (hinput : hookInput checks state.bridge (ingestObservations verify state.node block)
      block = .ok input)
    (hcommit : commitHook checks verify state block = .ok after) :
    netSize after.bridge.accounts +
        forcedNetSize (ingestObservations verify state.node block) input =
      netSize state.bridge.accounts := by
  obtain ⟨other, ticked, report, hother, htick, haccounts⟩ := commitHook_eq_ok hcommit
  rw [hinput, Except.ok.injEq] at hother
  subst hother
  rw [haccounts]
  exact netSize_applyReport (hookInput_snapshots hinput) htick

theorem netSize_submitOrder {bridge : BridgeState} {order : Order}
    {submitted : BridgeState × FillResult}
    (hsizes : ∀ book result, bridge.clob.submit order = .ok (book, result) →
      ∀ call ∈ fillCalls bridge.accounts result.fills,
        InI64 (exactSize call.1 call.2.qty call.2.side))
    (hsubmit : submitOrder bridge order = .ok submitted) :
    netSize submitted.1.accounts = netSize bridge.accounts := by
  rw [submitOrder] at hsubmit
  cases hbook : bridge.clob.submit order with
  | error panic => simp [hbook] at hsubmit
  | ok matched =>
      simp only [hbook] at hsubmit
      split_ifs at hsubmit with hempty
      · rw [Except.ok.injEq] at hsubmit
        rw [← hsubmit]
      · rw [Except.ok.injEq] at hsubmit
        rw [← hsubmit]
        exact netSize_applyFillsToAccounts (hsizes matched.1 matched.2 hbook)

theorem netSize_balancedStep {before after : DevnetState}
    (hstep : BalancedStep checks verify before after) :
    netSize after.bridge.accounts = netSize before.bridge.accounts := by
  obtain ⟨event, hbalanced, hafter⟩ := hstep
  cases event with
  | submit order =>
      obtain ⟨submitted, hsubmitted, rfl⟩ := Option.map_eq_some_iff.1 hafter
      cases hsubmit : submitOrder before.bridge order with
      | error panic =>
          rw [hsubmit] at hsubmitted
          cases hsubmitted
      | ok result =>
          rw [hsubmit] at hsubmitted
          cases hsubmitted
          exact netSize_submitOrder hbalanced hsubmit
  | deposit account amount =>
      rw [stepEvent, Option.some.injEq] at hafter
      rw [← hafter]
      exact netSize_deposit _ _ _
  | commit block =>
      cases hcommit : commitHook checks verify before block with
      | error fault =>
          rw [stepEvent, hcommit] at hafter
          cases hafter
      | ok committed =>
          rw [stepEvent, hcommit] at hafter
          cases hafter
          obtain ⟨input, -, -, hinput, -, -⟩ := commitHook_eq_ok hcommit
          have hnet := netSize_commitHook hinput hcommit
          rw [hbalanced input hinput] at hnet
          omega

end Runs

/-- From accounts whose sizes sum to zero, every state reached by balanced
events has sizes that sum to zero, and a committed block keeps the sum exactly
when its forced closes cancel. -/
theorem reaches_netSize (checks : U64.OverflowChecks)
    (verify : PriceObservation → PublisherKey → Bool) (start : DevnetState)
    (hstart : netSize start.bridge.accounts = 0) :
    (∀ finish, Relation.ReflTransGen (BalancedStep checks verify) start finish →
      netSize finish.bridge.accounts = 0) ∧
    ∀ block input after,
      hookInput checks start.bridge (ingestObservations verify start.node block) block =
        .ok input →
      commitHook checks verify start block = .ok after →
      (netSize after.bridge.accounts = 0 ↔
        forcedNetSize (ingestObservations verify start.node block) input = 0) := by
  refine ⟨fun finish hreaches => ?_, fun block input after hinput hcommit => ?_⟩
  · induction hreaches with
    | refl => exact hstart
    | tail _ hstep ih => rw [netSize_balancedStep hstep, ih]
  · have hnet := netSize_commitHook hinput hcommit
    omega

/-- A devnet with the given accounts, before its first block. -/
def devnetWith (accounts : AccountMap) : DevnetState :=
  { bridge := { clob := .new, pendingFills := [], accounts := accounts }
    node := .new .hyperliquidDefault }

def firstBlock : CommittedBlock := { height := 1, blockTime := 0, observations := [] }

/-- A long that is bankrupt at 100 and the short on the other side. -/
def mirroredPair : AccountMap :=
  (AccountMap.empty.insert
    { account := 1, positionSize := 10, avgEntry := 110, collateral := 0 }).insert
    { account := 2, positionSize := -10, avgEntry := 110, collateral := 1000 }

/-- Both are closed, so the block keeps the balance, and so does the run that deposits
after it. -/
theorem reaches_netSize_mirroredPair :
    ∃ after finish,
      commitHook .on (fun _ _ => true) (devnetWith mirroredPair) firstBlock = .ok after ∧
      netSize after.bridge.accounts = 0 ∧
      finish.bridge = deposit after.bridge 3 500 ∧
      Relation.ReflTransGen (BalancedStep .on fun _ _ => true) (devnetWith mirroredPair)
        finish ∧
      netSize finish.bridge.accounts = 0 := by
  have hforced : (hookInput .on (devnetWith mirroredPair).bridge
      (devnetWith mirroredPair).node firstBlock).toOption.map (fun input =>
        forcedNetSize (devnetWith mirroredPair).node input) = some 0 := by
    decide +kernel
  have hok : (commitHook .on (fun _ _ => true) (devnetWith mirroredPair)
      firstBlock).toOption.map (fun _ => ()) = some () := by decide +kernel
  obtain ⟨input, hinput, hcancel⟩ := exists_ok_of_map_toOption hforced
  obtain ⟨after, hcommit, -⟩ := exists_ok_of_map_toOption hok
  obtain ⟨hruns, hblock⟩ := reaches_netSize .on (fun _ _ => true) (devnetWith mirroredPair)
    (by decide +kernel)
  have hcommitted : BalancedStep .on (fun _ _ => true) (devnetWith mirroredPair) after := by
    refine ⟨.commit firstBlock, fun other hother => ?_, ?_⟩
    · obtain rfl := Except.ok.inj (hinput.symm.trans hother)
      exact hcancel
    · rw [stepEvent, hcommit]
      rfl
  have hdeposited : BalancedStep .on (fun _ _ => true) after
      { after with bridge := deposit after.bridge 3 500 } := ⟨.deposit 3 500, trivial, rfl⟩
  have hreaches := (Relation.ReflTransGen.single hcommitted).tail hdeposited
  exact ⟨after, _, hcommit, (hblock firstBlock input after hinput hcommit).2 hcancel, rfl,
    hreaches, hruns _ hreaches⟩

/-- A long below maintenance margin at 90 and the short on the other side. -/
def thinLongPair : AccountMap :=
  (AccountMap.empty.insert
    { account := 1, positionSize := 10, avgEntry := 100, collateral := 115 }).insert
    { account := 2, positionSize := -10, avgEntry := 100, collateral := 1000 }

/-- The long can pay its fee, so the short is not deleveraged and stays open
alone. -/
theorem not_forall_netSize_applyReport :
    ¬ ∀ (node after : OpenHlNode) (input : TickInput) (report : TickReport)
      (accounts : AccountMap), input.accountSnapshots = accountsSnapshot accounts →
        netSize accounts = 0 → node.tick input = .ok (after, report) →
          netSize (applyReport accounts report) = 0 := by
  intro hbalanced
  have hsizes : ((OpenHlNode.new .hyperliquidDefault).tick
      (inputAt 90 thinLongPair)).toOption.map (fun result =>
        netSize (applyReport thinLongPair result.2)) = some (-10) := by decide +kernel
  obtain ⟨result, htick, hsize⟩ := exists_ok_of_map_toOption hsizes
  have hzero := hbalanced _ result.1 _ result.2 thinLongPair rfl (by decide +kernel) htick
  omega

end OpenHl.Devnet
