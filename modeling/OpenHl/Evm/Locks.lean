import OpenHl.Core.LockOrder
import OpenHl.Evm.AccountPrecompiles

/-!
# The bridge's mutexes

The order in which the operations of the bridge and the precompiles take the
bridge's mutexes while no oracle index is installed.  A guard is released at the
end of its scope, so what an operation does to the mutexes is a nesting of
scopes.  The process globals are behind read-write locks that these operations
only read, and a reader does not wait for readers; they are left out.

All operations but one take the mark before the accounts.  The
`openhl_withdraw` precompile reads it while it holds them, and `submit_order`
holds the book while it settles its fills.  `tasks_deadlockFree_iff`: threads can
wait in a cycle exactly if some run the one and some the other.
-/

namespace OpenHl.Evm

open Machine OpenHl.Clob OpenHl.Clearing LockOrder

inductive Mutex where
  | oracleIndexPrice
  | state
  | clob
  | pendingFills
  | accounts
  deriving DecidableEq

/-- What happens while a guard of the mutex is in scope. -/
def locked (mutex : Mutex) (body : List (Action Mutex)) : List (Action Mutex) :=
  .acquire mutex :: (body ++ [.release mutex])

/-- What one thread runs, with the branches that its data takes. -/
inductive Task where
  /-- Whether the order is filled. -/
  | submitOrder (fills : Bool)
  | withdraw
  | deposit
  /-- Whether there is a mark. -/
  | marginHealth (marked : Bool)
  | snapshot
  /-- Whether the parent is known. -/
  | buildPayload (known : Bool)
  | readBestBid
  /-- Whether the calldata is accepted, and whether the order is filled. -/
  | placeOrderPrecompile (accepted fills : Bool)
  | depositPrecompile (accepted : Bool)
  /-- Whether the calldata is accepted, and whether the account exists and the
  amount fits. -/
  | withdrawPrecompile (accepted found : Bool)
  /-- Whether the calldata is accepted, and whether there is a mark. -/
  | marginHealthPrecompile (accepted marked : Bool)
  deriving DecidableEq

namespace Locks

def currentMark : List (Action Mutex) := locked .clob []

/-- The bridge looks for an index before it reads the book. -/
def bridgeEffectiveMark : List (Action Mutex) :=
  locked .oracleIndexPrice [] ++ currentMark

def applyFillsToAccounts : List (Action Mutex) := locked .accounts []

def accountsSnapshot : List (Action Mutex) := locked .accounts []

end Locks

/-- The lock actions of a task. -/
def Task.locks : Task → List (Action Mutex)
  | .submitOrder fills =>
      locked .clob
        (if fills then locked .pendingFills [] ++ Locks.applyFillsToAccounts else [])
  | .withdraw => Locks.bridgeEffectiveMark ++ locked .accounts []
  | .deposit => locked .accounts []
  | .marginHealth marked =>
      Locks.bridgeEffectiveMark ++ if marked then locked .accounts [] else []
  | .snapshot => locked .state Locks.accountsSnapshot
  | .buildPayload known =>
      locked .state [] ++ if known then locked .state (locked .pendingFills []) else []
  | .readBestBid => locked .clob []
  | .placeOrderPrecompile accepted fills =>
      if accepted then locked .clob [] ++ if fills then locked .pendingFills [] else []
      else []
  | .depositPrecompile accepted => if accepted then locked .accounts [] else []
  | .withdrawPrecompile accepted found =>
      if accepted then locked .accounts (if found then Locks.currentMark else []) else []
  | .marginHealthPrecompile accepted marked =>
      if accepted then Locks.currentMark ++ if marked then locked .accounts [] else []
      else []

/-- The task of `submit_order` on a book. -/
def submitOrderTask (bridge : BridgeState) (order : Order) : Task :=
  match bridge.clob.submit order with
  | .ok (_, result) => .submitOrder (!result.fills.isEmpty)
  | .error _ => .submitOrder false

/-- The task of the `openhl_withdraw` precompile on an account map. -/
def withdrawTask (globals : ProcessGlobals) (bridge : BridgeState) (input : List U8) :
    Task :=
  let account := u64FromBeChunk (input.take 32)
  let amount := u64FromBeChunk ((input.drop 32).take 32)
  .withdrawPrecompile (globals.accountsInstalled && 64 ≤ input.length)
    ((bridge.accounts.get? account).isSome && amount.toI64?.isSome)

/-- A withdrawal from an account that exists reads the mark. -/
theorem withdrawTask_calldata {globals : ProcessGlobals} {bridge : BridgeState}
    (hinstalled : globals.accountsInstalled = true) {account : AccountId}
    (hfound : (bridge.accounts.get? account).isSome = true) {amount : U64}
    (hfits : amount.toI64?.isSome = true) :
    withdrawTask globals bridge (withdrawCalldata account amount) =
      .withdrawPrecompile true true := by
  have hlength : 64 ≤ (withdrawCalldata account amount).length := by
    simp [withdrawCalldata]
  rw [withdrawTask]
  simp only [withdrawCalldata_account, withdrawCalldata_amount, hinstalled, hfound, hfits,
    hlength, decide_true, Bool.and_self]

/-! ## Two orders -/

section Order

variable {rank : Mutex → ℕ}

/-- Apart from two tasks, mutexes are only nested in the state's. -/
theorem locks_ordered (haccounts : rank .state < rank .accounts)
    (hfills : rank .state < rank .pendingFills) {task : Task}
    (hwithdraw : task = .withdrawPrecompile true true → rank .accounts < rank .clob)
    (hsubmit : task = .submitOrder true →
      rank .clob < rank .pendingFills ∧ rank .clob < rank .accounts) :
    Ordered rank [] task.locks := by
  cases task with
  | submitOrder fills =>
      cases fills with
      | false => simp [Task.locks, locked, Ordered]
      | true =>
          simpa [Task.locks, locked, Locks.applyFillsToAccounts, Ordered] using hsubmit rfl
  | withdraw =>
      simp [Task.locks, locked, Locks.bridgeEffectiveMark, Locks.currentMark, Ordered]
  | deposit => simp [Task.locks, locked, Ordered]
  | marginHealth marked =>
      cases marked <;>
        simp [Task.locks, locked, Locks.bridgeEffectiveMark, Locks.currentMark, Ordered]
  | snapshot => simpa [Task.locks, locked, Locks.accountsSnapshot, Ordered] using haccounts
  | buildPayload known =>
      cases known with
      | false => simp [Task.locks, locked, Ordered]
      | true => simpa [Task.locks, locked, Ordered] using hfills
  | readBestBid => simp [Task.locks, locked, Ordered]
  | placeOrderPrecompile accepted fills =>
      cases accepted <;> cases fills <;> simp [Task.locks, locked, Ordered]
  | depositPrecompile accepted => cases accepted <;> simp [Task.locks, locked, Ordered]
  | withdrawPrecompile accepted found =>
      cases accepted with
      | false => simp [Task.locks, Ordered]
      | true =>
          cases found with
          | false => simp [Task.locks, locked, Ordered]
          | true =>
              simpa [Task.locks, locked, Locks.currentMark, Ordered] using hwithdraw rfl
  | marginHealthPrecompile accepted marked =>
      cases accepted <;> cases marked <;>
        simp [Task.locks, locked, Locks.currentMark, Ordered]

end Order

/-- The book before the accounts, as `submit_order` takes them. -/
def bookFirst : Mutex → ℕ
  | .oracleIndexPrice => 0
  | .state => 1
  | .clob => 2
  | .pendingFills => 3
  | .accounts => 4

/-- The accounts before the book, as the withdraw precompile takes them. -/
def accountsFirst : Mutex → ℕ
  | .oracleIndexPrice => 0
  | .state => 1
  | .accounts => 2
  | .clob => 3
  | .pendingFills => 4

/-! ## Interleavings -/

section Threads

variable {Thread : Type} [DecidableEq Thread] {tasks : Thread → Task}

/-- A withdrawal that has the accounts waits for the book of an order that is
filled, which waits for the accounts. -/
theorem reaches_deadlocked {withdrawing submitting : Thread}
    (hwithdraw : tasks withdrawing = .withdrawPrecompile true true)
    (hsubmit : tasks submitting = .submitOrder true) :
    ∃ pool, Reaches (start fun thread => (tasks thread).locks) pool ∧ Deadlocked pool := by
  have hdistinct : submitting ≠ withdrawing := by
    rintro rfl
    rw [hwithdraw] at hsubmit
    cases hsubmit
  have hwithdrawing : (tasks withdrawing).locks =
      [.acquire .accounts] ++
        .acquire .clob :: [.release .clob, .release .accounts] := by
    rw [hwithdraw]
    rfl
  have hsubmitting : (tasks submitting).locks =
      [.acquire .clob, .acquire .pendingFills, .release .pendingFills] ++
        .acquire .accounts :: [.release .accounts, .release .clob] := by
    rw [hsubmit]
    rfl
  apply reaches_deadlocked_of_crossed hdistinct hwithdrawing rfl
    (List.mem_singleton_self _) hsubmitting rfl (List.mem_singleton_self _)
  intro lock hlock hheld
  obtain rfl := List.mem_singleton.1 hheld
  simp at hlock

/-- No thread runs a withdraw precompile down to the mark while another submits an
order that is filled. -/
def Compatible (tasks : Thread → Task) : Prop :=
  (∀ thread, tasks thread ≠ .withdrawPrecompile true true) ∨
    ∀ thread, tasks thread ≠ .submitOrder true

omit [DecidableEq Thread] in
theorem Compatible.exists_ordered (hcompatible : Compatible tasks) :
    ∃ rank, ∀ thread, Ordered rank [] (tasks thread).locks := by
  rcases hcompatible with hwithdraw | hsubmit
  · refine ⟨bookFirst, fun thread => locks_ordered (by decide) (by decide) ?_ ?_⟩
    · exact fun htask => absurd htask (hwithdraw thread)
    · exact fun _ => by decide
  · refine ⟨accountsFirst, fun thread => locks_ordered (by decide) (by decide) ?_ ?_⟩
    · exact fun _ => by decide
    · exact fun htask => absurd htask (hsubmit thread)

/-- No interleaving of the tasks has threads that wait in a cycle, and one order of
the mutexes suits them all. -/
def DeadlockFree (tasks : Thread → Task) : Prop :=
  (∀ pool, Reaches (start fun thread => (tasks thread).locks) pool → ¬ Deadlocked pool) ∧
    ∃ rank, ∀ thread, Ordered rank [] (tasks thread).locks

theorem tasks_deadlockFree_iff (tasks : Thread → Task) :
    DeadlockFree tasks ↔ Compatible tasks := by
  constructor
  · rintro ⟨hfree, -⟩
    rw [Compatible]
    by_contra hboth
    simp only [not_or, not_forall, not_not] at hboth
    obtain ⟨⟨withdrawing, hwithdraw⟩, submitting, hsubmit⟩ := hboth
    obtain ⟨pool, hreaches, hdeadlocked⟩ := reaches_deadlocked hwithdraw hsubmit
    exact hfree pool hreaches hdeadlocked
  · intro hcompatible
    obtain ⟨rank, hordered⟩ := hcompatible.exists_ordered
    exact ⟨fun pool hreaches => not_deadlocked hordered hreaches, rank, hordered⟩

end Threads

/-- Five contracts are offered, and account 1 has collateral. -/
def offeredBridge : BridgeState :=
  deposit { clob := fiveOffered, pendingFills := [], accounts := .empty } 1 100

/-- One thread buys the five contracts while another withdraws through the
precompile. -/
def buyAndWithdraw : Bool → Task
  | false => submitOrderTask offeredBridge (limitOrder 7 2 .buy 100 5)
  | true => withdrawTask ProcessGlobals.fresh.installBridge offeredBridge
      (withdrawCalldata 1 50)

theorem not_forall_deadlockFree :
    ¬ ∀ (Thread : Type) [DecidableEq Thread] (tasks : Thread → Task),
      DeadlockFree tasks := by
  intro hfree
  have hsubmit : buyAndWithdraw false = .submitOrder true := by decide +kernel
  have hwithdraw : buyAndWithdraw true = .withdrawPrecompile true true :=
    withdrawTask_calldata rfl rfl rfl
  obtain ⟨pool, hreaches, hdeadlocked⟩ := reaches_deadlocked hwithdraw hsubmit
  exact (hfree Bool buyAndWithdraw).1 pool hreaches hdeadlocked

end OpenHl.Evm
