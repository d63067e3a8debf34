import OpenHl.Clob.Invariant
import OpenHl.Core.BigEndian
import OpenHl.Evm.Bridge

/-!
# Order entry from contracts

The `clob_place_order` precompile reaches the bridge through process globals
that hold shared handles to the bridge's book and fill buffer.  A handle that
is installed points into the one bridge state, so a global is modelled by
whether it is installed.

The precompile and `submit_order` do the same to the book and to the pending
fills, but the precompile never applies its fills to the accounts.
`placeOrder_eq_submitOrder_iff`: the two entry points agree exactly on orders
that do not cross the book.
-/

namespace OpenHl.Evm

open Machine OpenHl.Clob OpenHl.Clearing

structure Globals where
  clobInstalled : Bool
  fillSinkInstalled : Bool
  /-- `NEXT_ORDER_ID`, which wraps around. -/
  nextOrderId : OrderId
  deriving DecidableEq

/-- The globals after `LiveRethEvmBridge::new`, at any later order id. -/
def Globals.installed (nextOrderId : OrderId) : Globals :=
  { clobInstalled := true, fillSinkInstalled := true, nextOrderId := nextOrderId }

structure PrecompileOutput where
  gasUsed : ℕ
  bytes : List U8
  deriving DecidableEq

def clobBaseGasCost : ℕ := 500

/-- The last 8 bytes of a 32-byte chunk as a word. -/
def u64FromBeChunk (chunk : List U8) : U64 :=
  BigEndian.readU64 ((chunk.drop 24).take 8)

def sideOfByte (byte : U8) : Option Side :=
  if byte = 0 then some .buy else if byte = 1 then some .sell else none

def placeOrderOutput (orderId : U64) : PrecompileOutput :=
  { gasUsed := clobBaseGasCost
    bytes := List.replicate 24 0 ++ BigEndian.toBytes 8 orderId.val }

/-- The `clob_place_order` precompile; the output word is zero on rejection. -/
def placeOrder (globals : Globals) (bridge : BridgeState) (input : List U8) :
    Except Panic (Globals × BridgeState × PrecompileOutput) :=
  let rejected : Except Panic (Globals × BridgeState × PrecompileOutput) :=
    .ok (globals, bridge,
      { gasUsed := clobBaseGasCost, bytes := List.replicate 32 0 })
  if input.length < 128 then rejected
  else
    let accountId := u64FromBeChunk (input.take 32)
    let priceValue := u64FromBeChunk ((input.drop 64).take 32)
    let qtyValue := u64FromBeChunk ((input.drop 96).take 32)
    match sideOfByte (input.getD 63 0) with
    | none => rejected
    | some side =>
        if qtyValue = 0 then rejected
        else if !globals.clobInstalled then rejected
        else
          let orderId := globals.nextOrderId
          match bridge.clob.submit
              { id := orderId
                account := accountId
                side := side
                qty := qtyValue
                orderType := .limit priceValue } with
          | .error panic => .error panic
          | .ok (book, result) =>
              let pendingFills :=
                if result.fills.isEmpty || !globals.fillSinkInstalled then
                  bridge.pendingFills
                else bridge.pendingFills ++ result.fills
              .ok ({ globals with nextOrderId := orderId + 1 },
                { bridge with clob := book, pendingFills := pendingFills },
                placeOrderOutput orderId)

/-! ## Calldata -/

/-- An unsigned 64-bit value as a 32-byte ABI word. -/
def abiWord (value : ℕ) : List U8 :=
  List.replicate 24 0 ++ BigEndian.toBytes 8 value

def sideByte : Side → ℕ
  | .buy => 0
  | .sell => 1

/-- The ABI encoding of `(uint64 account, uint8 side, uint64 price, uint64 qty)`. -/
def placeOrderCalldata (account : AccountId) (side : Side) (price : Price)
    (qty : Qty) : List U8 :=
  abiWord account.val ++ (abiWord (sideByte side) ++
    (abiWord price.val ++ abiWord qty.val))

@[simp]
theorem abiWord_length (value : ℕ) : (abiWord value).length = 32 := by
  simp [abiWord]

@[simp]
theorem u64FromBeChunk_abiWord (word : U64) :
    u64FromBeChunk (abiWord word.val) = word := by
  have hdrop : (abiWord word.val).drop 24 = BigEndian.toBytes 8 word.val :=
    List.drop_left' (by simp)
  have htake : (BigEndian.toBytes 8 word.val).take 8 =
      BigEndian.toBytes 8 word.val := List.take_of_length_le (by simp)
  rw [u64FromBeChunk, hdrop, htake, BigEndian.readU64_toBytes]

theorem sideOfByte_abiWord (side : Side) (before after : List U8)
    (hbefore : before.length = 32) :
    sideOfByte ((before ++ (abiWord (sideByte side) ++ after)).getD 63 0) =
      some side := by
  have hbyte : (before ++ (abiWord (sideByte side) ++ after)).getD 63 0 =
      (abiWord (sideByte side)).getD 31 0 := by
    rw [List.getD_append_right _ _ _ _ (by omega), hbefore,
      List.getD_append _ _ _ _ (by simp)]
  rw [hbyte]
  cases side <;> decide

/-! ## Comparison with `submit_order` -/

def limitOrder (orderId : OrderId) (account : AccountId) (side : Side)
    (price : Price) (qty : Qty) : Order :=
  { id := orderId, account := account, side := side, qty := qty,
    orderType := .limit price }

theorem limitOrder_type (orderId : OrderId) (account : AccountId) (side : Side)
    (price : Price) (qty : Qty) :
    (limitOrder orderId account side price qty).orderType = .limit price := rfl

/-- On well-formed calldata the precompile submits the limit order under the
next order id and keeps the accounts. -/
theorem placeOrder_calldata (orderId : OrderId) (bridge : BridgeState)
    (account : AccountId) (side : Side) (price : Price) {qty : Qty}
    (hqty : qty ≠ 0) {book : Book} {result : FillResult}
    (hsubmit : bridge.clob.submit (limitOrder orderId account side price qty) =
      .ok (book, result)) :
    placeOrder (Globals.installed orderId) bridge
        (placeOrderCalldata account side price qty) =
      .ok (Globals.installed (orderId + 1),
        { bridge with
          clob := book
          pendingFills := bridge.pendingFills ++ result.fills },
        placeOrderOutput orderId) := by
  have hlength : ¬ (placeOrderCalldata account side price qty).length < 128 := by
    simp [placeOrderCalldata]
  have haccount : (placeOrderCalldata account side price qty).take 32 =
      abiWord account.val := List.take_left' (by simp)
  have hside := sideOfByte_abiWord side (abiWord account.val)
    (abiWord price.val ++ abiWord qty.val) (abiWord_length _)
  have hprice : ((placeOrderCalldata account side price qty).drop 64).take 32 =
      abiWord price.val := by
    rw [placeOrderCalldata, ← List.append_assoc,
      List.drop_left' (by simp), List.take_left' (by simp)]
  have hqtyWord : ((placeOrderCalldata account side price qty).drop 96).take 32 =
      abiWord qty.val := by
    rw [placeOrderCalldata, ← List.append_assoc, ← List.append_assoc,
      List.drop_left' (by simp), List.take_of_length_le (by simp)]
  have hpending : (if result.fills.isEmpty = true then bridge.pendingFills
      else bridge.pendingFills ++ result.fills) =
        bridge.pendingFills ++ result.fills := by
    cases result.fills <;> simp
  simp only [limitOrder] at hsubmit
  simp only [placeOrder, hlength, if_false, haccount, hprice, hqtyWord,
    u64FromBeChunk_abiWord, hqty, Globals.installed]
  rw [placeOrderCalldata, hside]
  simp only [hsubmit, Bool.not_true, Bool.false_eq_true, if_false, Bool.or_false,
    hpending]

theorem submitOrder_eq {bridge : BridgeState} {order : Order} {book : Book}
    {result : FillResult} (hsubmit : bridge.clob.submit order = .ok (book, result)) :
    submitOrder bridge order =
      .ok ({ clob := book
             pendingFills := bridge.pendingFills ++ result.fills
             accounts := applyFillsToAccounts bridge.accounts result.fills },
        result) := by
  rw [submitOrder, hsubmit]
  cases hfills : result.fills with
  | nil => simp [hfills, applyFillsToAccounts]
  | cons fill fills => simp [hfills]

/-- The bridge state after the precompile is called with the encoded order. -/
def placeOrderEffect (bridge : BridgeState) (orderId : OrderId)
    (account : AccountId) (side : Side) (price : Price) (qty : Qty) :
    Except Panic BridgeState :=
  (placeOrder (Globals.installed orderId) bridge
    (placeOrderCalldata account side price qty)).map fun after => after.2.1

/-- The bridge state after `submit_order` of the same limit order. -/
def submitOrderEffect (bridge : BridgeState) (orderId : OrderId)
    (account : AccountId) (side : Side) (price : Price) (qty : Qty) :
    Except Panic BridgeState :=
  (submitOrder bridge (limitOrder orderId account side price qty)).map Prod.fst

/-- The precompile and `submit_order` have the same effect on the book, the
pending fills and every account map exactly when the order does not cross the
book. -/
theorem placeOrder_eq_submitOrder_iff {book : Book} (hbook : book.Reachable)
    (pendingFills : List Fill) (orderId : OrderId) (account : AccountId)
    (side : Side) (price : Price) {qty : Qty} (hqty : 0 < qty) :
    (∀ accounts : AccountMap,
      placeOrderEffect ⟨book, pendingFills, accounts⟩ orderId account side price qty =
        submitOrderEffect ⟨book, pendingFills, accounts⟩ orderId account side
          price qty) ↔
      ¬ book.Crosses side price := by
  have hpositive := Fin.pos_iff_ne_zero.1 hqty
  obtain ⟨next, hsubmit, -⟩ := submit_refines hbook.noEmptyLevel
    (limitOrder orderId account side price qty)
  have hfills := fills_ne_nil_iff_crosses hbook.noEmptyLevel
    (limitOrder_type orderId account side price qty) hpositive
  have hcrosses : ¬ book.Crosses side price ↔
      book.resting.fills (limitOrder orderId account side price qty) = [] :=
    (not_congr hfills).symm.trans not_not
  rw [hcrosses, ← applyFillsToAccounts_eq_self_iff]
  refine forall_congr' fun accounts => ?_
  rw [placeOrderEffect, submitOrderEffect,
    placeOrder_calldata orderId ⟨book, pendingFills, accounts⟩ account side price
      hpositive hsubmit,
    submitOrder_eq hsubmit]
  simp only [Except.map, Except.ok.injEq, BridgeState.mk.injEq, true_and]
  exact eq_comm

/-- The book of a new bridge after account 1 has offered 5 contracts at 100. -/
def fiveOffered : Book :=
  Book.new.rest .sell 100 { id := 1, account := 1, qty := 5 }

theorem fiveOffered_reachable : fiveOffered.Reachable :=
  ⟨[.submit (limitOrder 1 1 .sell 100 5)], by decide +kernel⟩

theorem placeOrder_eq_submitOrder_iff_below :
    (0 : Qty) < 5 ∧ ∀ accounts : AccountMap,
      placeOrderEffect ⟨fiveOffered, [], accounts⟩ 7 2 .buy 99 5 =
        submitOrderEffect ⟨fiveOffered, [], accounts⟩ 7 2 .buy 99 5 := by
  refine ⟨by decide, ?_⟩
  refine (placeOrder_eq_submitOrder_iff fiveOffered_reachable [] 7 2 .buy 99
    (by decide)).2 ?_
  rintro ⟨ask, hask, hle⟩
  have hbest : fiveOffered.bestAsk = some 100 := by decide +kernel
  rw [hbest, Option.some.injEq] at hask
  subst hask
  revert hle
  decide

/-- Account 2 buys the five contracts through the precompile, and neither
account changes. -/
theorem not_forall_placeOrder_eq_submitOrder :
    ¬ ∀ (book : Book), book.Reachable → ∀ (pendingFills : List Fill)
      (accounts : AccountMap) (orderId : OrderId) (account : AccountId)
      (side : Side) (price : Price) (qty : Qty), 0 < qty →
        placeOrderEffect ⟨book, pendingFills, accounts⟩ orderId account side
            price qty =
          submitOrderEffect ⟨book, pendingFills, accounts⟩ orderId account side
            price qty := by
  intro hsame
  have heffect := hsame fiveOffered fiveOffered_reachable [] AccountMap.empty 7 2
    .buy 100 5 (by decide)
  have hsize := congrArg (fun effect => match effect with
    | .ok after => after.accounts.map.entries.length
    | .error _ => 0) heffect
  revert hsize
  decide +kernel

end OpenHl.Evm
