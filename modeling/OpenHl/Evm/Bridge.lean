import OpenHl.Clearing.Accounts
import OpenHl.Clob.Book
import OpenHl.Funding.Clock

/-!
# The bridge state and its order entry

`LiveRethEvmBridge` owns the order book, the fills that wait for the next
payload and the account map.  Each sits behind a mutex; the operations here
run to completion, so the state is passed explicitly.
-/

namespace OpenHl.Evm

open Machine OpenHl.Clob OpenHl.Clearing OpenHl.Funding

structure BridgeState where
  clob : Book
  pendingFills : List Fill
  accounts : AccountMap

/-- Submit an order to the book, buffer its fills for the next payload and
apply them to the accounts. -/
def submitOrder (bridge : BridgeState) (order : Order) :
    Except Panic (BridgeState × FillResult) :=
  match bridge.clob.submit order with
  | .error panic => .error panic
  | .ok (book, result) =>
      if result.fills.isEmpty then .ok ({ bridge with clob := book }, result)
      else
        .ok ({ clob := book
               pendingFills := bridge.pendingFills ++ result.fills
               accounts := applyFillsToAccounts bridge.accounts result.fills },
          result)

def depositCollateral (amount : I64) (account : Account) : Account :=
  { account with collateral := account.collateral.saturatingAdd amount }

theorem depositCollateral_account (amount : I64) (account : Account) :
    (depositCollateral amount account).account = account.account := rfl

/-- Credit collateral to an account, creating it if needed. -/
def deposit (bridge : BridgeState) (account : AccountId) (amount : I64) :
    BridgeState :=
  { bridge with
    accounts := bridge.accounts.upsert account (depositCollateral amount)
      (depositCollateral_account amount) }

/-- The midpoint of a two-sided book; the sum of the prices is not widened. -/
def currentMark (checks : U64.OverflowChecks) (book : Book) :
    Checked (Option MarkPrice) :=
  match book.bestBid, book.bestAsk with
  | some bid, some ask => (U64.add checks bid ask).map fun sum => some (sum / 2)
  | _, _ => .ok none

/-- The prices that the midpoint adds make a word. -/
def MidpointFits (book : Book) : Prop :=
  ∀ bid ask, book.bestBid = some bid → book.bestAsk = some ask → bid.val + ask.val < 2 ^ 64

/-- Only a build with overflow checks stops, exactly on a sum that is no word. -/
theorem currentMark_eq_error_iff {checks : U64.OverflowChecks} {book : Book} {fault : Fault} :
    currentMark checks book = .error fault ↔ checks = .on ∧ ¬ MidpointFits book := by
  rw [currentMark, MidpointFits]
  cases book.bestBid with
  | none => simp
  | some bid =>
      cases book.bestAsk with
      | none => simp
      | some ask =>
          dsimp only
          cases hadd : U64.add checks bid ask with
          | error other =>
              obtain ⟨hchecks, hlarge⟩ := U64.add_eq_error_iff.1 hadd
              cases other
              cases fault
              refine ⟨fun _ => ⟨hchecks, fun hfits => hlarge (hfits bid ask rfl rfl)⟩,
                fun _ => rfl⟩
          | ok sum =>
              constructor
              · intro hmark
                cases hmark
              · rintro ⟨hchecks, hfits⟩
                refine absurd (fun first second hfirst hsecond => ?_) hfits
                obtain rfl := Option.some.inj hfirst
                obtain rfl := Option.some.inj hsecond
                by_contra hlarge
                have herror : U64.add checks bid ask = .error .overflow :=
                  U64.add_eq_error_iff.2 ⟨hchecks, hlarge⟩
                rw [hadd] at herror
                cases herror

end OpenHl.Evm
