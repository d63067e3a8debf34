import OpenHl.Core.FuelLoop
import OpenHl.Core.Machine
import OpenHl.Core.QueueMap

/-!
# The order book

`crates/clob`: the order types and the matching engine.  The book keeps one
first-in-first-out queue per price.  Bids are keyed by the reversed price, so
that on both sides the least key is the best price.

The four matching loops of the source differ in the side they walk and in the
price test that ends them; they are the one loop `sweep` at four arguments.
The source aborts where it `expect`s a level or a maker to exist; these aborts
are the `Panic` values below.  `Panic.diverged` stands for a loop that does
not end.
-/

namespace OpenHl.Clob

open Machine

abbrev AccountId := U64
abbrev OrderId := U64
/-- Prices in minor units. -/
abbrev Price := U64
/-- Quantities in minor units. -/
abbrev Qty := U64

inductive Side where
  | buy
  | sell
  deriving DecidableEq, Repr

def Side.opposite : Side → Side
  | .buy => .sell
  | .sell => .buy

inductive OrderType where
  /-- Take liquidity at `price` or better and rest the remainder. -/
  | limit (price : Price)
  /-- Take liquidity at any price and never rest. -/
  | market
  deriving DecidableEq, Repr

structure Order where
  id : OrderId
  account : AccountId
  side : Side
  qty : Qty
  orderType : OrderType
  deriving DecidableEq, Repr

/-- A fill between a resting maker and an incoming taker; `makerSide` is the
side of the maker's order. -/
structure Fill where
  makerOrderId : OrderId
  takerOrderId : OrderId
  makerAccount : AccountId
  takerAccount : AccountId
  price : Price
  qty : Qty
  makerSide : Side
  deriving DecidableEq, Repr

/-- Fills in order of execution, and the taker quantity that was neither
filled nor rested. -/
structure FillResult where
  fills : List Fill
  remainingQty : Qty
  deriving DecidableEq, Repr

/-- An order on the book; its side and price are those of its queue. -/
structure RestingOrder where
  id : OrderId
  account : AccountId
  qty : Qty
  deriving DecidableEq, Repr

abbrev Levels (K : Type) [LinearOrder K] := QueueMap K RestingOrder

@[ext]
structure Book where
  bids : Levels Priceᵒᵈ
  asks : Levels Price
  deriving DecidableEq

inductive Panic where
  | expect (message : String)
  | diverged
  deriving DecidableEq, Repr

def Book.new : Book := ⟨SortedMap.empty, SortedMap.empty⟩

/-! ## Matching -/

/-- Match a taker against the front of one price level. -/
def matchAtLevel (taker : Order) (price : Price) (queue : List RestingOrder)
    (remaining : Qty) : Except Panic (Fill × List RestingOrder × Qty) :=
  match queue with
  | [] => .error (.expect "match_at_level called with empty queue")
  | maker :: rest =>
      let fillQty := min maker.qty remaining
      let fill : Fill :=
        { makerOrderId := maker.id
          takerOrderId := taker.id
          makerAccount := maker.account
          takerAccount := taker.account
          price := price
          qty := fillQty
          makerSide := taker.side.opposite }
      -- `fillQty` is at most either operand, so neither subtraction wraps
      let makerQty := maker.qty - fillQty
      let queue' :=
        if makerQty = 0 then rest else { maker with qty := makerQty } :: rest
      .ok (fill, queue', remaining - fillQty)

/-- State of a matching loop over one side of the book. -/
structure Sweep (K : Type) [LinearOrder K] where
  levels : Levels K
  remaining : Qty
  fills : List Fill

section Sweep

variable {K : Type} [LinearOrder K]

/-- One iteration: stop when the taker is filled, the side is empty or `stop`
rejects the best price; otherwise match the front of the best level. -/
def sweepStep (taker : Order) (priceOf : K → Price) (stop : Price → Bool)
    (state : Sweep K) : Except Panic (FuelLoop.Step (Sweep K)) :=
  if state.remaining = 0 then .ok (.done state)
  else match state.levels.firstKey? with
    | none => .ok (.done state)
    | some best =>
        if stop (priceOf best) then .ok (.done state)
        else match state.levels.get? best with
          | none => .error (.expect "price level exists by construction")
          | some queue =>
              match matchAtLevel taker (priceOf best) queue state.remaining with
              | .error panic => .error panic
              | .ok (fill, queue', remaining) =>
                  .ok (.again
                    { levels := QueueMap.putQueue state.levels best queue'
                      remaining := remaining
                      fills := state.fills ++ [fill] })

/-- Number of orders resting on one side. -/
def depth (levels : Levels K) : ℕ := (levels.values.map List.length).sum

/-- A matching loop over one side of the book.  Every iteration removes a maker
or exhausts the taker, so `depth + 2` iterations are enough. -/
def sweep (taker : Order) (priceOf : K → Price) (stop : Price → Bool)
    (levels : Levels K) : Except Panic (Sweep K) :=
  FuelLoop.run (sweepStep taker priceOf stop) .diverged (depth levels + 2)
    { levels := levels, remaining := taker.qty, fills := [] }

end Sweep

/-- Run the taker's matching loop: a buy walks the asks, a sell the bids. -/
def Book.walkOpposite (book : Book) (taker : Order) (stop : Price → Bool) :
    Except Panic (Book × Qty × List Fill) :=
  match taker.side with
  | .buy =>
      match sweep taker id stop book.asks with
      | .error panic => .error panic
      | .ok swept =>
          .ok ({ book with asks := swept.levels }, swept.remaining, swept.fills)
  | .sell =>
      match sweep taker OrderDual.ofDual stop book.bids with
      | .error panic => .error panic
      | .ok swept =>
          .ok ({ book with bids := swept.levels }, swept.remaining, swept.fills)

/-- Append an order to the queue of its price on its own side. -/
def Book.rest (book : Book) (side : Side) (price : Price)
    (resting : RestingOrder) : Book :=
  match side with
  | .buy =>
      { book with bids := QueueMap.push book.bids (OrderDual.toDual price) resting }
  | .sell => { book with asks := QueueMap.push book.asks price resting }

/-- The price test that ends the limit loops: a buy stops above its limit, a
sell below it. -/
def beyondLimit (side : Side) (limitPrice : Price) (best : Price) : Bool :=
  match side with
  | .buy => decide (limitPrice < best)
  | .sell => decide (best < limitPrice)

def Book.submitLimit (book : Book) (order : Order) (limitPrice : Price) :
    Except Panic (Book × FillResult) :=
  match book.walkOpposite order (beyondLimit order.side limitPrice) with
  | .error panic => .error panic
  | .ok (walked, remaining, fills) =>
      if 0 < remaining then
        let resting : RestingOrder :=
          { id := order.id, account := order.account, qty := remaining }
        .ok (walked.rest order.side limitPrice resting,
          { fills := fills, remainingQty := 0 })
      else .ok (walked, { fills := fills, remainingQty := 0 })

def Book.submitMarket (book : Book) (order : Order) :
    Except Panic (Book × FillResult) :=
  match book.walkOpposite order fun _ => false with
  | .error panic => .error panic
  | .ok (walked, remaining, fills) =>
      .ok (walked, { fills := fills, remainingQty := remaining })

def Book.submit (book : Book) (order : Order) :
    Except Panic (Book × FillResult) :=
  match order.orderType with
  | .limit price => book.submitLimit order price
  | .market => book.submitMarket order

/-- Cancel a resting order by id: the bids are searched first, then the asks,
and empty levels are dropped on the way. -/
def Book.cancel (book : Book) (orderId : OrderId) : Book × Bool :=
  let isOrder : RestingOrder → Bool := fun order => order.id = orderId
  let bids := QueueMap.removeFirst book.bids isOrder
  if bids.1 then ({ book with bids := bids.2 }, true)
  else
    let asks := QueueMap.removeFirst book.asks isOrder
    ({ bids := bids.2, asks := asks.2 }, asks.1)

def Book.bestBid (book : Book) : Option Price :=
  book.bids.firstKey?.map OrderDual.ofDual

def Book.bestAsk (book : Book) : Option Price := book.asks.firstKey?

/-- Number of resting bids. -/
def Book.depthBid (book : Book) : ℕ := depth book.bids

def Book.depthAsk (book : Book) : ℕ := depth book.asks

/-! ## Runs -/

/-- The calls a book can receive. -/
inductive Call where
  | submit (order : Order)
  | cancel (orderId : OrderId)
  deriving DecidableEq, Repr

def Book.apply (book : Book) : Call → Except Panic Book
  | .submit order => (book.submit order).map Prod.fst
  | .cancel orderId => .ok (book.cancel orderId).1

/-- The book after a sequence of calls. -/
def Book.run (book : Book) : List Call → Except Panic Book
  | [] => .ok book
  | call :: calls =>
      match book.apply call with
      | .error panic => .error panic
      | .ok next => next.run calls

end OpenHl.Clob
