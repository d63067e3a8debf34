import OpenHl.Core.Journal
import OpenHl.Devnet.BlockBooks
import OpenHl.Devnet.MarginHealth

/-!
# The books of the exchange

Orders, deposits, withdrawals and committed blocks in any order.  Each of them books an
entry, and as long as nothing clips, what the accounts and the insurance fund are worth
together changes by the entries and by nothing else (`exchange_books`).
-/

namespace OpenHl.Devnet

open Machine OpenHl.Clob OpenHl.Clearing OpenHl.Funding OpenHl.Liquidation OpenHl.Node
open OpenHl.Evm OpenHl.Oracle

/-! ## Events and entries -/

/-- The bridge and the coordinator of a running devnet. -/
structure Exchange where
  bridge : LiveBridge
  node : OpenHlNode

inductive ExchangeEvent where
  | submit (order : Clob.Order)
  | deposit (account : AccountId) (amount : I64)
  | withdraw (account : AccountId) (amount : U64)
  | commit (block : CommittedBlock)

/-- What an event does to the value of the system. -/
structure Entry where
  deposited : ℤ := 0
  withdrawn : ℤ := 0
  /-- Remainders of the average entry prices. -/
  residue : ℤ := 0
  funding : ℤ := 0
  unabsorbed : ℤ := 0
  uncollected : ℤ := 0
  /-- Contracts closed against nobody, and the mark at which they were. -/
  closed : ℤ := 0
  closedAt : ℤ := 0

/-- The entry as an amount, with the closed contracts seen from a mark. -/
def Entry.amount (mark : ℤ) (entry : Entry) : ℤ :=
  entry.deposited - entry.withdrawn + entry.residue + entry.funding + entry.unabsorbed -
    entry.uncollected - (mark - entry.closedAt) * entry.closed

def blockEntry (node : OpenHlNode) (input : TickInput) (report : TickReport) : Entry :=
  { funding := blockFunding node input report
    unabsorbed := unabsorbed report
    uncollected := uncollected node input
    closed := forcedNetSize node input
    closedAt := (node.markFor input).val }

namespace Exchange

def value (mark : ℤ) (state : Exchange) : ℤ :=
  systemValue mark state.bridge.accounts state.node.scanner.fund

section Run

variable (checks : U64.OverflowChecks) (verify : PriceObservation → PublisherKey → Bool)

/-- The commit hook with the index that it pushes. -/
def commit (state : Exchange) (block : CommittedBlock) : Checked (Exchange × Entry) := do
  let node := ingestObservations verify state.node block
  let input ← hookInput checks state.bridge.toBridgeState node block
  let (ticked, report) ← node.tick input
  let pushed := pushIndex state.bridge ticked block.blockTime
  return ({ bridge := { pushed with accounts := applyReport pushed.accounts report }
            node := ticked }, blockEntry node input report)

/-- One event, `none` where the code panics. -/
def handle (state : Exchange) : ExchangeEvent → Option (Exchange × Entry)
  | .submit order =>
      (submitOrder state.bridge.toBridgeState order).toOption.map fun submitted =>
        ({ state with bridge := { state.bridge with toBridgeState := submitted.1 } },
          { residue := ((fillCalls state.bridge.accounts submitted.2.fills).map
              callResidue).sum })
  | .deposit account amount =>
      some ({ state with bridge := { state.bridge with
          toBridgeState := Evm.deposit state.bridge.toBridgeState account amount } },
        { deposited := amount.val })
  | .withdraw account amount =>
      (state.bridge.withdraw checks account amount).toOption.map fun answered =>
        ({ state with bridge := answered.1 },
          { withdrawn := if answered.2.isSome then amount.val else 0 })
  | .commit block => (state.commit checks verify block).toOption

/-- An event that panics books nothing. -/
def step (state : Exchange) (event : ExchangeEvent) : Exchange × Entry :=
  (state.handle checks verify event).getD (state, {})

/-- The event does not panic, and no operation of it clips its result. -/
def ExactEvent (state : Exchange) : ExchangeEvent → Prop
  | .submit order =>
      ∃ submitted ∈ (submitOrder state.bridge.toBridgeState order).toOption,
        ∀ call ∈ fillCalls state.bridge.accounts submitted.2.fills, ExactCall call
  | .deposit account amount =>
      InI64 ((state.bridge.accounts.getOrFlat account).collateral.val + amount.val)
  | .withdraw account amount => (state.bridge.withdraw checks account amount).toOption.isSome
  | .commit block =>
      let node := ingestObservations verify state.node block
      ∃ input ∈ (hookInput checks state.bridge.toBridgeState node block).toOption,
        ∃ ticked ∈ (node.tick input).toOption, ExactBlock node input ticked.2

theorem disjointRecords_iff (report : TickReport) :
    (∀ record ∈ report.liquidation.records, ∀ other ∈ report.adlRecords,
      record.account ≠ other.account) ↔ DisjointRecords report := by
  constructor
  · intro hapart key hliquidated hdeleveraged
    obtain ⟨record, hrecord, rfl⟩ := List.mem_map.1 hliquidated
    obtain ⟨other, hother, hsame⟩ := List.mem_map.1 hdeleveraged
    exact hapart record hrecord other hother hsame.symm
  · intro hdisjoint record hrecord other hother hsame
    apply hdisjoint (List.mem_map_of_mem hrecord)
    rw [hsame]
    exact List.mem_map_of_mem hother

instance (report : TickReport) : Decidable (DisjointRecords report) :=
  decidable_of_iff _ (disjointRecords_iff report)

instance (node : OpenHlNode) (input : TickInput) (report : TickReport) :
    Decidable (ExactBlock node input report) :=
  decidable_of_iff
    (ScanExact node.scanner.params (node.markFor input) ⟨node.scanner.fund, .default⟩
        input.accountSnapshots ∧
      DisjointRecords report ∧
      (∀ snapshot ∈ input.accountSnapshots, node.liquidates input snapshot = true →
        InI64 (exactPnl snapshot (node.markFor input)) ∧
          InI64 (exactEquity snapshot (node.markFor input))) ∧
      (∀ snapshot ∈ input.accountSnapshots, node.Deleverages input snapshot →
        InI64 (exactPnl snapshot (node.markFor input)) ∧
          snapshot.positionSize ≠ I64.minValue) ∧
      ∀ snapshot ∈ input.accountSnapshots, node.liquidates input snapshot ≠ true →
        InI64 (snapshot.collateral.val + (fundingDelta report snapshot.account).val) ∧
          InI64 (snapshot.collateral.val + (fundingDelta report snapshot.account).val +
            (paidProfit report snapshot.account).val))
    ⟨fun ⟨hscan, hdisjoint, hclosed, hdeleveraged, hkept⟩ =>
        ⟨hscan, hdisjoint, hclosed, hdeleveraged, hkept⟩,
      fun ⟨hscan, hdisjoint, hclosed, hdeleveraged, hkept⟩ =>
        ⟨hscan, hdisjoint, hclosed, hdeleveraged, hkept⟩⟩

instance (state : Exchange) : ∀ event, Decidable (state.ExactEvent checks verify event)
  | .submit _ => inferInstanceAs (Decidable (∃ _ ∈ Except.toOption _, _))
  | .deposit _ _ => inferInstanceAs (Decidable (InI64 _))
  | .withdraw _ _ => inferInstanceAs (Decidable (_ = true))
  | .commit _ => inferInstanceAs (Decidable (∃ _ ∈ Except.toOption _, ∃ _ ∈ _, _))

variable {checks verify} {state : Exchange} {mark : ℤ}

/-- An event that does not panic books the entry of its handler. -/
theorem books_of_handle {event : ExchangeEvent} {next : Exchange × Entry}
    (hhandle : state.handle checks verify event = some next)
    (hvalue : next.1.value mark = state.value mark + next.2.amount mark) :
    Journal.Books (step checks verify) (value mark) (Entry.amount mark) state event := by
  rw [Journal.Books, step, hhandle]
  exact hvalue

theorem eq_ok_of_toOption {ε α : Type*} {computation : Except ε α} {answer : α}
    (hanswer : computation.toOption = some answer) : computation = .ok answer := by
  cases computation with
  | error fault => cases hanswer
  | ok result => rw [Option.some.inj hanswer]

/-! ## Orders -/

theorem submitOrder_accounts {bridge : BridgeState} {order : Clob.Order}
    {submitted : BridgeState × FillResult}
    (hsubmit : submitOrder bridge order = .ok submitted) :
    submitted.1.accounts = applyFillsToAccounts bridge.accounts submitted.2.fills := by
  rw [submitOrder] at hsubmit
  cases hbook : bridge.clob.submit order with
  | error panic =>
      rw [hbook] at hsubmit
      cases hsubmit
  | ok matched =>
      simp only [hbook] at hsubmit
      split_ifs at hsubmit with hempty
      · rw [Except.ok.injEq] at hsubmit
        rw [← hsubmit, List.isEmpty_iff.1 hempty]
        rfl
      · rw [Except.ok.injEq] at hsubmit
        rw [← hsubmit]

theorem submit_books {order : Clob.Order}
    (hexact : state.ExactEvent checks verify (.submit order)) :
    Journal.Books (step checks verify) (value mark) (Entry.amount mark) state
      (.submit order) := by
  obtain ⟨submitted, hmem, hcalls⟩ := hexact
  have hsubmit := eq_ok_of_toOption hmem
  have hhandle : state.handle checks verify (.submit order) =
      some ({ state with bridge := { state.bridge with toBridgeState := submitted.1 } },
        { residue := ((fillCalls state.bridge.accounts submitted.2.fills).map
            callResidue).sum }) := by
    rw [handle, hsubmit]
    rfl
  apply books_of_handle hhandle
  have htotal := totalEquity_applyFills mark hcalls
  rw [value, value, systemValue, systemValue]
  simp only [Entry.amount, submitOrder_accounts hsubmit, htotal]
  ring

/-! ## Deposits and withdrawals -/

theorem deposit_books {account : AccountId} {amount : I64}
    (hexact : state.ExactEvent checks verify (.deposit account amount)) :
    Journal.Books (step checks verify) (value mark) (Entry.amount mark) state
      (.deposit account amount) := by
  apply books_of_handle rfl
  have htotal : totalEquity mark (state.bridge.accounts.upsert account
      (depositCollateral amount) (depositCollateral_account amount)) =
      totalEquity mark state.bridge.accounts +
        ((depositCollateral amount (state.bridge.accounts.getOrFlat account)).equityAt mark -
          (state.bridge.accounts.getOrFlat account).equityAt mark) :=
    AccountMap.total_upsert (flat_equityAt mark) _ _ _ _
  have hcollateral := I64.saturatingAdd_val_of_inI64 hexact
  rw [value, value, systemValue, systemValue]
  simp only [Evm.deposit, Entry.amount, htotal]
  simp only [Account.equityAt, depositCollateral, hcollateral]
  ring

/-- Debiting an account changes a total by what the account changes. -/
theorem total_debited {measure : Account → ℤ}
    (hflat : ∀ key, measure (Account.flat key) = 0) {accounts : AccountMap}
    {key : AccountId} {account : Account} (hget : accounts.get? key = some account)
    (collateral : I64) :
    (debited accounts key collateral).total measure = accounts.total measure +
      (measure (setCollateral collateral account) - measure account) := by
  have hmap : (debited accounts key collateral).map =
      (accounts.upsert key (setCollateral collateral)
        (setCollateral_account collateral)).map := by
    apply SortedMap.ext_get?
    intro other
    rw [debited, AccountMap.modify, AccountMap.upsert, SortedMap.get?_modify,
      SortedMap.get?_upsert]
    split_ifs with hother
    · have hfound : accounts.map.get? key = some account := hget
      rw [hother, hfound]
      rfl
    · rfl
  have htotal := AccountMap.total_upsert hflat accounts key (setCollateral collateral)
    (setCollateral_account collateral)
  rw [AccountMap.getOrFlat, hget, Option.getD_some] at htotal
  rw [← htotal, AccountMap.total, AccountMap.total, hmap]

/-- A withdrawal leaves the bridge as it is, or debits the account by the amount. -/
theorem withdraw_cases {bridge after : LiveBridge} {key : AccountId} {amount : U64}
    {answer : Option I64} (hwithdraw : bridge.withdraw checks key amount = .ok (after, answer)) :
    (after = bridge ∧ answer = none) ∨
    ∃ account collateral, bridge.accounts.get? key = some account ∧
      collateral.val = account.collateral.val - amount.val ∧ answer = some collateral ∧
      after = { bridge with accounts := debited bridge.accounts key collateral } := by
  rw [LiveBridge.withdraw] at hwithdraw
  obtain ⟨mark, -, hfound⟩ := bind_eq_ok.1 hwithdraw
  cases hget : bridge.accounts.get? key with
  | none =>
      rw [hget] at hfound
      cases hfound
      exact .inl ⟨rfl, rfl⟩
  | some account =>
      simp only [hget] at hfound
      cases hamount : amount.toI64? with
      | none =>
          rw [hamount] at hfound
          cases hfound
          exact .inl ⟨rfl, rfl⟩
      | some amountI64 =>
          simp only [hamount] at hfound
          have hword : amountI64.val = amount.val := by
            rw [U64.toI64?] at hamount
            split_ifs at hamount
            rw [← Option.some.inj hamount]
          split_ifs at hfound with hfree
          · cases hfound
            exact .inl ⟨rfl, rfl⟩
          · obtain ⟨collateral, hcollateral, hanswer⟩ := bind_eq_ok.1 hfound
            cases hanswer
            refine .inr ⟨account, collateral, rfl, ?_, rfl, rfl⟩
            rw [checkedSub] at hcollateral
            split_ifs at hcollateral
            rw [← Except.ok.inj hcollateral, ← hword]

theorem withdraw_books {account : AccountId} {amount : U64}
    (hexact : state.ExactEvent checks verify (.withdraw account amount)) :
    Journal.Books (step checks verify) (value mark) (Entry.amount mark) state
      (.withdraw account amount) := by
  obtain ⟨⟨after, answer⟩, hsome⟩ := Option.isSome_iff_exists.1 hexact
  have hwithdraw := eq_ok_of_toOption hsome
  have hhandle : state.handle checks verify (.withdraw account amount) =
      some ({ state with bridge := after },
        { withdrawn := if answer.isSome then amount.val else 0 }) := by
    rw [handle, hwithdraw]
    rfl
  apply books_of_handle hhandle
  obtain ⟨rfl, rfl⟩ | ⟨found, collateral, hget, hdebit, rfl, rfl⟩ :=
    withdraw_cases hwithdraw
  · simp [Entry.amount, value]
  · have htotal : totalEquity mark (debited state.bridge.accounts account collateral) =
        totalEquity mark state.bridge.accounts +
          ((setCollateral collateral found).equityAt mark - found.equityAt mark) :=
      total_debited (flat_equityAt mark) hget collateral
    rw [value, value, systemValue, systemValue]
    simp only [Entry.amount, htotal, Option.isSome_some, if_true]
    simp only [Account.equityAt, setCollateral, hdebit]
    ring

/-! ## Blocks -/

/-- But for the index, the bridge and the coordinator go on as the commit hook leaves
them. -/
theorem commit_commitHook (block : CommittedBlock) :
    commitHook checks verify { bridge := state.bridge.toBridgeState, node := state.node }
        block =
      (state.commit checks verify block).map fun committed =>
        { bridge := committed.1.bridge.toBridgeState, node := committed.1.node } := by
  rw [commitHook, commit]
  dsimp only
  cases hookInput checks state.bridge.toBridgeState
      (ingestObservations verify state.node block) block with
  | error fault => rfl
  | ok input =>
      rw [ok_bind, ok_bind]
      cases (ingestObservations verify state.node block).tick input with
      | error fault => rfl
      | ok ticked =>
          rw [ok_bind, ok_bind, pushIndex]
          cases ticked.1.oracle.currentPriceFreshAt block.blockTime with
          | none => rfl
          | some index => rfl

theorem commit_books {block : CommittedBlock}
    (hexact : state.ExactEvent checks verify (.commit block)) :
    Journal.Books (step checks verify) (value mark) (Entry.amount mark) state
      (.commit block) := by
  obtain ⟨input, hinput, ⟨ticked, report⟩, htick, hblock⟩ := hexact
  replace hinput := eq_ok_of_toOption hinput
  replace htick := eq_ok_of_toOption htick
  have hhandle : state.handle checks verify (.commit block) =
      some ({ bridge := { pushIndex state.bridge ticked block.blockTime with
                accounts := applyReport
                  (pushIndex state.bridge ticked block.blockTime).accounts report }
              node := ticked },
        blockEntry (ingestObservations verify state.node block) input report) := by
    rw [handle, commit]
    dsimp only
    rw [hinput, ok_bind, htick, ok_bind]
    rfl
  apply books_of_handle hhandle
  have hvalue := systemValue_applyReport (hookInput_snapshots hinput) htick hblock mark
  rw [ingestObservations_scanner] at hvalue
  rw [value, value]
  simp only [pushIndex_accounts, hvalue, Entry.amount, blockEntry]
  ring

/-- An exact event books its entry. -/
theorem books_of_exact {event : ExchangeEvent}
    (hexact : state.ExactEvent checks verify event) :
    Journal.Books (step checks verify) (value mark) (Entry.amount mark) state event := by
  cases event with
  | submit order => exact submit_books hexact
  | deposit account amount => exact deposit_books hexact
  | withdraw account amount => exact withdraw_books hexact
  | commit block => exact commit_books hexact

/-- No event books a negative deficit or fee. -/
theorem step_nonneg (event : ExchangeEvent) :
    0 ≤ (state.step checks verify event).2.unabsorbed ∧
      0 ≤ (state.step checks verify event).2.uncollected := by
  rw [step]
  cases hhandle : state.handle checks verify event with
  | none => exact ⟨le_refl 0, le_refl 0⟩
  | some next =>
      cases event with
      | submit order =>
          obtain ⟨submitted, -, rfl⟩ := Option.map_eq_some_iff.1 hhandle
          exact ⟨le_refl 0, le_refl 0⟩
      | deposit account amount =>
          cases hhandle
          exact ⟨le_refl 0, le_refl 0⟩
      | withdraw account amount =>
          obtain ⟨answered, -, rfl⟩ := Option.map_eq_some_iff.1 hhandle
          exact ⟨le_refl 0, le_refl 0⟩
      | commit block =>
          have hcommit : state.commit checks verify block = .ok next :=
            eq_ok_of_toOption hhandle
          obtain ⟨input, -, hrest⟩ := bind_eq_ok.1 hcommit
          obtain ⟨⟨ticked, report⟩, htick, hnext⟩ := bind_eq_ok.1 hrest
          cases hnext
          exact ⟨unabsorbed_nonneg htick, uncollected_nonneg _ input⟩

end Run

end Exchange

/-- In any order of orders, deposits, withdrawals and committed blocks in which nothing
clips, what the accounts and the insurance fund are worth at a mark changes by exactly the
sum of the entries: deposits less withdrawals, the remainders of average prices, funding,
deficits that nobody absorbs less fees that nobody receives, and the contracts closed
against nobody, from the mark of their scan on.  No block books a negative deficit or
fee. -/
theorem exchange_books (checks : U64.OverflowChecks)
    (verify : PriceObservation → PublisherKey → Bool) (start : Exchange)
    (events : List ExchangeEvent)
    (hexact : Journal.Along (Exchange.step checks verify)
      (Exchange.ExactEvent checks verify) start events) (mark : ℤ) :
    (Journal.run (Exchange.step checks verify) start events).value mark = start.value mark +
        ((Journal.journal (Exchange.step checks verify) start events).map
          (Entry.amount mark)).sum ∧
      ∀ entry ∈ Journal.journal (Exchange.step checks verify) start events,
        0 ≤ entry.unabsorbed ∧ 0 ≤ entry.uncollected := by
  constructor
  · exact Journal.quantity_run fun first event hfirst =>
      Exchange.books_of_exact (hexact.call hfirst)
  · exact hexact.journal fun before event _ => Exchange.step_nonneg event

/-- The pair of `loserAndWinner` with an index of 90 and an empty book. -/
def indexedExchange : Exchange :=
  { bridge := { LiveBridge.new with accounts := loserAndWinner }
    node := pricedNode 90 }

/-- Two new accounts trade five contracts, and a block settles funding. -/
def tradedAndSettled : List ExchangeEvent :=
  [.deposit 3 100, .deposit 4 100, .withdraw 3 20,
    .submit { id := 1, account := 3, side := .sell, qty := 5, orderType := .limit 91 },
    .submit { id := 2, account := 4, side := .buy, qty := 5, orderType := .market },
    .commit { height := 1, blockTime := 3600, observations := [] }]

/-- Deposits of 200 less a withdrawal of 20, funding of 27, a fee of 13 that nobody
receives, and 15 contracts short closed at 90 and seen at 95. -/
theorem exchange_books_tradedAndSettled :
    (Journal.run (Exchange.step .on fun _ _ => true) indexedExchange
      tradedAndSettled).value 95 = 1050 + (200 - 20 + 27 - 13 + (95 - 90) * 15) :=
  (exchange_books .on (fun _ _ => true) indexedExchange tradedAndSettled
    (by decide +kernel) 95).1.trans (by decide +kernel)

end OpenHl.Devnet
