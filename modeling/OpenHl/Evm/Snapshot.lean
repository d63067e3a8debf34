import OpenHl.Evm.AccountPrecompiles
import OpenHl.Evm.Proposal

/-!
# Restarting the bridge

What `snapshot` writes to disk and `load_snapshot` reads back: the committed
chain and the accounts.  The order book and the oracle price are in neither, so
a restarted bridge has no effective mark and answers by the entry prices.

`restarted_sameAnswers_iff`: its answers are those of the bridge it replaces
exactly when that bridge had no effective mark either, or no accounts.
-/

namespace OpenHl.Evm

open Machine OpenHl.Clob OpenHl.Clearing OpenHl.Funding OpenHl.Liquidation

/-- The bridge with the part of its state that serves consensus. -/
structure LiveRethEvmBridge (E : Type) extends LiveBridge where
  state : ChainState E

structure BridgeSnapshot where
  chain : SortedMap B256 Header
  head : Option B256
  accounts : List Account

namespace LiveRethEvmBridge

variable {E : Type}

def new : LiveRethEvmBridge E :=
  { LiveBridge.new with
    state := { nextPayloadId := 0, pending := SortedMap.empty, chain := SortedMap.empty
               head := none } }

def withLiquidationParams (bridge : LiveRethEvmBridge E) (params : LiquidationParams) :
    LiveRethEvmBridge E :=
  { bridge with liquidationParams := params }

/-- The committed chain and the accounts in the order of their ids. -/
def snapshot (bridge : LiveRethEvmBridge E) : BridgeSnapshot :=
  { chain := bridge.state.chain, head := bridge.state.head
    accounts := bridge.accounts.map.values }

def loadSnapshot (bridge : LiveRethEvmBridge E) (snapshot : BridgeSnapshot) :
    LiveRethEvmBridge E :=
  { bridge with
    state := { bridge.state with chain := snapshot.chain, head := snapshot.head }
    accounts := snapshot.accounts.foldl AccountMap.insert .empty }

/-- A fresh bridge with the same parameters that has loaded the snapshot. -/
def restarted (bridge : LiveRethEvmBridge E) : LiveRethEvmBridge E :=
  (new.withLiquidationParams bridge.liquidationParams).loadSnapshot bridge.snapshot

end LiveRethEvmBridge

/-! ## The accounts come back -/

theorem foldl_insert_map {list : List (AccountId × Account)}
    (hkeyed : ∀ entry ∈ list, entry.2.account = entry.1) (accounts : AccountMap) :
    ((list.map Prod.snd).foldl AccountMap.insert accounts).map =
      list.foldl (fun map entry => map.insert entry.1 entry.2) accounts.map := by
  induction list generalizing accounts with
  | nil => rfl
  | cons entry rest ih =>
      have hinsert : (accounts.insert entry.2).map =
          accounts.map.insert entry.1 entry.2 := by
        rw [← hkeyed entry List.mem_cons_self]
        rfl
      rw [List.map_cons, List.foldl_cons, List.foldl_cons,
        ih fun other hother => hkeyed other (List.mem_cons_of_mem _ hother), hinsert]

theorem AccountMap.foldl_insert_values (accounts : AccountMap) :
    accounts.map.values.foldl AccountMap.insert .empty = accounts := by
  have hmap : (accounts.map.values.foldl AccountMap.insert .empty).map = accounts.map := by
    rw [SortedMap.values, foldl_insert_map]
    · exact SortedMap.foldl_insert_entries accounts.map
    · intro entry hentry
      exact accounts.keyed entry.1 entry.2
        ((SortedMap.get?_eq_some_iff accounts.map).2 hentry)
  generalize accounts.map.values.foldl AccountMap.insert .empty = loaded at hmap
  obtain ⟨left, hleft⟩ := loaded
  obtain ⟨right, hright⟩ := accounts
  subst hmap
  rfl

section Restart

variable {E : Type} (bridge : LiveRethEvmBridge E)

@[simp]
theorem restarted_accounts : bridge.restarted.accounts = bridge.accounts :=
  AccountMap.foldl_insert_values bridge.accounts

@[simp]
theorem restarted_liquidationParams :
    bridge.restarted.liquidationParams = bridge.liquidationParams := rfl

@[simp]
theorem restarted_effectiveMark (checks : U64.OverflowChecks) :
    bridge.restarted.effectiveMark checks = .ok none := rfl

end Restart

/-! ## Answers -/

/-- Two bridges answer every withdrawal and every question about margin health
alike. -/
def LiveBridge.SameAnswers (checks : U64.OverflowChecks) (left right : LiveBridge) :
    Prop :=
  ∀ account amount,
    (left.withdraw checks account amount).map Prod.snd =
        (right.withdraw checks account amount).map Prod.snd ∧
      left.marginHealth checks account = right.marginHealth checks account

section Answers

variable {checks : U64.OverflowChecks}

theorem LiveBridge.sameAnswers_of_effectiveMark {left right : LiveBridge}
    (haccounts : left.accounts = right.accounts)
    (hparams : left.liquidationParams = right.liquidationParams)
    (hmark : left.effectiveMark checks = right.effectiveMark checks) :
    left.SameAnswers checks right := by
  intro account amount
  constructor
  · rw [withdraw, withdraw, hmark, haccounts, hparams]
    cases right.effectiveMark checks with
    | error fault => rfl
    | ok mark =>
        rw [ok_bind, ok_bind]
        cases right.accounts.get? account with
        | none => rfl
        | some found =>
            cases amount.toI64? with
            | none => rfl
            | some amountI64 =>
                dsimp only
                split_ifs
                · rfl
                · cases checkedSub found.collateral amountI64 with
                  | error fault => rfl
                  | ok collateral => rfl
  · rw [marginHealth, marginHealth, hmark, haccounts, hparams]

theorem LiveBridge.sameAnswers_of_noAccounts {left right : LiveBridge}
    (haccounts : left.accounts = right.accounts)
    (hnone : ∀ account, left.accounts.get? account = none) {mark other : Option MarkPrice}
    (hleft : left.effectiveMark checks = .ok mark)
    (hright : right.effectiveMark checks = .ok other) : left.SameAnswers checks right := by
  intro account amount
  constructor
  · rw [withdraw, withdraw, hleft, hright, ← haccounts, ok_bind, ok_bind, hnone]
    rfl
  · rw [marginHealth, marginHealth, hleft, hright, ← haccounts, ok_bind, ok_bind, hnone]
    simp only [Option.map_none]
    cases mark <;> cases other <;> rfl

end Answers

/-- A restarted bridge answers as before exactly when before the restart there was
no effective mark, or there were no accounts. -/
theorem restarted_sameAnswers_iff {E : Type} (checks : U64.OverflowChecks)
    (bridge : LiveRethEvmBridge E) :
    bridge.SameAnswers checks bridge.restarted.toLiveBridge ↔
      ∃ mark, bridge.effectiveMark checks = .ok mark ∧
        (mark = none ∨ ∀ account, bridge.accounts.get? account = none) := by
  have haccounts := (restarted_accounts bridge).symm
  constructor
  · intro hsame
    have hhealth : ∀ account, bridge.marginHealth checks account = .ok none := by
      intro account
      rw [(hsame account 0).2]
      exact LiveBridge.marginHealth_of_noMark (restarted_effectiveMark bridge checks)
        account
    cases hmark : bridge.effectiveMark checks with
    | error fault =>
        have hzero := hhealth 0
        rw [LiveBridge.marginHealth, hmark] at hzero
        cases hzero
    | ok mark =>
        refine ⟨mark, rfl, ?_⟩
        cases mark with
        | none => exact Or.inl rfl
        | some mark =>
            refine Or.inr fun account => ?_
            have hnone := hhealth account
            rw [LiveBridge.marginHealth, hmark, ok_bind] at hnone
            exact Option.map_eq_none_iff.1 (Except.ok.inj hnone)
  · rintro ⟨mark, hmark, hnone | hnone⟩
    · apply LiveBridge.sameAnswers_of_effectiveMark haccounts
        (restarted_liquidationParams bridge).symm
      rw [hmark, hnone, restarted_effectiveMark]
    · exact LiveBridge.sameAnswers_of_noAccounts haccounts hnone hmark
        (restarted_effectiveMark bridge checks)

/-- Account 1 deposits 500 and buys 10 contracts at 100 from account 2; then the
oracle reports 80. -/
def losingLong : List (Operation × Route) :=
  [(.deposit 1 500, .bridge),
    (.submitOrder (limitOrder 1 2 .sell 100 10), .bridge),
    (.submitOrder (limitOrder 2 1 .buy 100 10), .bridge),
    (.setOracleIndexPrice 80, .bridge)]

/-- At the oracle price 220 are free; after the restart 400 can be withdrawn. -/
theorem not_forall_restarted_sameAnswers :
    ¬ ∀ (checks : U64.OverflowChecks) (params : LiquidationParams)
      (calls : List (Operation × Route)) (process : Process)
      (observed : List (AccountMap × Option Bool)) (bridge : LiveRethEvmBridge Unit),
      (Process.new params).run checks calls = .ok (process, observed) →
        bridge.toLiveBridge = process.bridge →
          bridge.SameAnswers checks bridge.restarted.toLiveBridge := by
  intro hsame
  obtain ⟨⟨process, observed⟩, hrun, hanswer⟩ := exists_ok_of_map_toOption
    (show ((Process.new .hyperliquidDefault).run .on losingLong).toOption.map
      (fun result =>
        ((result.1.bridge.withdraw .on 1 400).toOption.map Prod.snd,
          (({ LiveRethEvmBridge.new with toLiveBridge := result.1.bridge } :
            LiveRethEvmBridge Unit).restarted.withdraw .on 1 400).toOption.map Prod.snd)) =
        some (some none, some (some 100)) by decide +kernel)
  have hwithdraw := (hsame .on .hyperliquidDefault losingLong process observed
    { LiveRethEvmBridge.new with toLiveBridge := process.bridge } hrun rfl 1 400).1
  have hequal := congrArg Except.toOption hwithdraw
  rw [toOption_map, toOption_map] at hequal
  obtain ⟨hbefore, hafter⟩ := Prod.mk.inj hanswer
  rw [hbefore, hafter] at hequal
  cases hequal

end OpenHl.Evm
