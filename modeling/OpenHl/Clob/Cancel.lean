import OpenHl.Clob.Invariant
import Mathlib.Order.Bounds.Basic

/-!
# Cancelling an order

What `cancel` does to the price levels of a book in which no two orders share an id.

`cancel_exact`: it reports whether the order rests, takes it out of its queue, drops the
level of a queue that it empties, and touches nothing else; the best prices and the depths
are then those of the orders that are left.
-/

namespace OpenHl.Clob

open Machine

/-- The queue at a price. -/
def Book.level? (book : Book) : Side → Price → Option (List RestingOrder)
  | .buy, price => book.bids.get? (OrderDual.toDual price)
  | .sell, price => book.asks.get? price

/-- The orders of a side. -/
def Book.ordersOf (book : Book) : Side → List RestingOrder
  | .buy => book.bids.values.flatten
  | .sell => book.asks.values.flatten

def Book.orders (book : Book) : List RestingOrder :=
  book.ordersOf .buy ++ book.ordersOf .sell

def Book.Rests (book : Book) (side : Side) (price : Price) (order : RestingOrder) : Prop :=
  ∃ queue, book.level? side price = some queue ∧ order ∈ queue

def Book.depthOf (book : Book) : Side → ℕ
  | .buy => book.depthBid
  | .sell => book.depthAsk

/-! ## Levels and the price-time lists -/

theorem Book.level?_eq_queueOf {book : Book} (hbook : book.NoEmptyLevel) (side : Side)
    (price : Price) :
    book.level? side price = QueueMap.queueOf (book.resting side) price := by
  cases side with
  | buy =>
      have hsame : ((book.resting .buy).filter fun item => item.1 = price).map Prod.snd =
          ((QueueMap.flatten book.bids).filter
            fun item => item.1 = OrderDual.toDual price).map Prod.snd := by
        rw [Book.resting, List.filter_map, List.map_map]
        rfl
      rw [Book.level?, QueueMap.get?_eq_queueOf hbook.bids, QueueMap.queueOf,
        QueueMap.queueOf, hsame]
  | sell => exact QueueMap.get?_eq_queueOf hbook.asks price

theorem Book.rests_iff {book : Book} (hbook : book.NoEmptyLevel) {side : Side}
    {price : Price} {order : RestingOrder} :
    book.Rests side price order ↔ (price, order) ∈ book.resting side := by
  rw [Book.Rests, book.level?_eq_queueOf hbook]
  exact QueueMap.exists_mem_queueOf_iff

theorem Book.depthOf_eq (book : Book) (side : Side) :
    book.depthOf side = (book.resting side).length := by
  cases side with
  | buy =>
      rw [Book.resting, List.length_map]
      exact depth_eq_length_flatten book.bids
  | sell => exact depth_eq_length_flatten book.asks

theorem map_snd_flatten {K : Type} [LinearOrder K] (levels : Levels K) :
    (QueueMap.flatten levels).map Prod.snd = levels.values.flatten := by
  simp [QueueMap.flatten, QueueMap.flattenEntries, SortedMap.values, List.flatMap,
    Function.comp_def]

theorem Book.ordersOf_eq (book : Book) (side : Side) :
    book.ordersOf side = (book.resting side).map Prod.snd := by
  cases side with
  | buy =>
      rw [Book.ordersOf, ← map_snd_flatten, Book.resting, List.map_map]
      rfl
  | sell => exact (map_snd_flatten book.asks).symm

/-- The best price is that of an order with no better one on its side. -/
theorem Book.bestPrice_eq_some_iff {book : Book} (hbook : book.NoEmptyLevel) (side : Side)
    (price : Price) :
    book.bestPrice side = some price ↔
      (∃ order, book.Rests side price order) ∧
        ∀ other order, book.Rests side other order → side.NotWorse price other := by
  simp only [Book.rests_iff hbook]
  rw [← Book.head?_resting hbook]
  have hsorted := book.resting_sorted side
  cases hresting : book.resting side with
  | nil => simp
  | cons maker makers =>
      rw [hresting, List.map_cons, List.pairwise_cons] at hsorted
      have hbest : ∀ other order, (other, order) ∈ maker :: makers →
          side.NotWorse maker.1 other := by
        intro other order hmem
        rcases List.mem_cons.1 hmem with rfl | hrest
        · exact side.notWorse_refl other
        · exact hsorted.1 other (List.mem_map_of_mem hrest)
      simp only [List.head?_cons, Option.map_some, Option.some.injEq]
      constructor
      · rintro rfl
        exact ⟨⟨maker.2, List.mem_cons_self⟩, hbest⟩
      · rintro ⟨⟨order, hmem⟩, hleast⟩
        exact side.notWorse_antisymm (hbest price order hmem)
          (hleast maker.1 maker.2 List.mem_cons_self)

/-! ## Books without repeated ids -/

/-- No two orders of the lists share an id. -/
def Lists.DistinctIds (lists : Lists) : Prop :=
  ((lists .buy ++ lists .sell).map fun maker => maker.2.id).Nodup

namespace Lists.DistinctIds

variable {lists : Lists} {orderId : OrderId} {side : Side} {maker : Maker}

theorem own (hids : lists.DistinctIds) (side : Side) :
    ((lists side).map fun maker => maker.2.id).Nodup := by
  rw [DistinctIds, List.map_append] at hids
  cases side with
  | buy => exact hids.of_append_left
  | sell => exact hids.of_append_right

/-- The other side has no order with the id. -/
theorem opposite (hids : lists.DistinctIds) (hmem : maker ∈ lists side)
    (hid : maker.2.id = orderId) :
    ∀ other ∈ lists side.opposite, ¬ hasOrder orderId other = true := by
  rw [DistinctIds, List.map_append, List.nodup_append] at hids
  obtain ⟨-, -, hdisjoint⟩ := hids
  intro other hother hmatch
  have hsame : other.2.id = maker.2.id := by
    rw [hid]
    simpa [hasOrder] using hmatch
  cases side with
  | buy =>
      exact hdisjoint _ (List.mem_map_of_mem hmem) _ (List.mem_map_of_mem hother)
        hsame.symm
  | sell =>
      exact hdisjoint _ (List.mem_map_of_mem hother) _ (List.mem_map_of_mem hmem) hsame

/-- Erasing by id takes out the order with the id. -/
theorem eraseP_eq (hids : lists.DistinctIds) (hmem : maker ∈ lists side)
    (hid : maker.2.id = orderId) :
    ∃ front back, lists side = front ++ maker :: back ∧
      (lists side).eraseP (hasOrder orderId) = front ++ back := by
  have hmatch : hasOrder orderId maker = true := by simpa [hasOrder] using hid
  obtain ⟨found, front, back, -, hfound, hsplit, herase⟩ :=
    List.exists_of_eraseP hmem hmatch
  have hfoundMem : found ∈ lists side := by simp [hsplit]
  have hfoundId : found.2.id = maker.2.id := by
    rw [hid]
    simpa [hasOrder] using hfound
  have hsame : found = maker :=
    List.inj_on_of_nodup_map (hids.own side) hfoundMem hmem hfoundId
  rw [hsame] at hsplit
  exact ⟨front, back, hsplit, herase⟩

/-- Cancelling takes the order with the id out of its side and leaves the other alone. -/
theorem cancel_of_mem (hids : lists.DistinctIds) (hmem : maker ∈ lists side)
    (hid : maker.2.id = orderId) :
    (lists.cancel orderId).1 side = (lists side).eraseP (hasOrder orderId) ∧
      (lists.cancel orderId).1 side.opposite = lists side.opposite := by
  have hopposite := hids.opposite hmem hid
  have hmatch : hasOrder orderId maker = true := by simpa [hasOrder] using hid
  cases side with
  | buy =>
      refine ⟨cancel_buy lists orderId, ?_⟩
      have hany : (lists .buy).any (hasOrder orderId) = true :=
        List.any_eq_true.2 ⟨maker, hmem, hmatch⟩
      exact (cancel_sell lists orderId).trans (if_pos hany)
  | sell =>
      constructor
      · have hany : ¬ (lists .buy).any (hasOrder orderId) = true := by
          rw [List.any_eq_true]
          rintro ⟨other, hother, hmatch⟩
          exact hopposite other hother hmatch
        exact (cancel_sell lists orderId).trans (if_neg hany)
      · exact (cancel_buy lists orderId).trans (List.eraseP_of_forall_not hopposite)

end Lists.DistinctIds

/-- The answer of `cancel` needs no distinct ids. -/
theorem Lists.cancel_found_iff (lists : Lists) (orderId : OrderId) :
    (lists.cancel orderId).2 = true ↔
      ∃ side, ∃ maker ∈ lists side, maker.2.id = orderId := by
  have hany : ∀ side, (lists side).any (hasOrder orderId) = true ↔
      ∃ maker ∈ lists side, maker.2.id = orderId := by
    intro side
    simp [hasOrder]
  rw [Lists.cancel]
  split_ifs with hbuy
  · simp only [true_iff]
    exact ⟨.buy, (hany .buy).1 hbuy⟩
  · rw [hany .sell]
    constructor
    · intro hsell
      exact ⟨.sell, hsell⟩
    · rintro ⟨side, hfound⟩
      cases side with
      | buy => exact absurd ((hany .buy).2 hfound) hbuy
      | sell => exact hfound

theorem Lists.cancel_of_not_found {lists : Lists} {orderId : OrderId}
    (hfound : (lists.cancel orderId).2 = false) : (lists.cancel orderId).1 = lists := by
  have hnone : ∀ side, ∀ maker ∈ lists side, ¬ hasOrder orderId maker = true := by
    intro side maker hmem hmatch
    have hcancel := (lists.cancel_found_iff orderId).2
      ⟨side, maker, hmem, by simpa [hasOrder] using hmatch⟩
    rw [hfound] at hcancel
    exact Bool.false_ne_true hcancel
  funext side
  cases side with
  | buy => rw [cancel_buy, List.eraseP_of_forall_not (hnone .buy)]
  | sell => rw [cancel_sell, List.eraseP_of_forall_not (hnone .sell), ite_self]

/-! ## The effect on the book -/

/-- An order is taken out of its queue and nothing else changes. -/
structure Removed (book after : Book) (side : Side) (price : Price) (order : RestingOrder) :
    Prop where
  /-- The other orders keep their places; an emptied level is dropped. -/
  level : ∃ front back, book.level? side price = some (front ++ order :: back) ∧
    after.level? side price =
      if (front ++ back).isEmpty then none else some (front ++ back)
  otherLevels : ∀ other, other ≠ price → after.level? side other = book.level? side other
  opposite : ∀ other, after.level? side.opposite other = book.level? side.opposite other
  depth : after.depthOf side + 1 = book.depthOf side
  depth_opposite : after.depthOf side.opposite = book.depthOf side.opposite

/-- Best prices and depths are those of the orders of the book. -/
structure Book.Consistent (book : Book) : Prop where
  bestBid : ∀ price, book.bestBid = some price ↔
    IsGreatest { other | ∃ order, book.Rests .buy other order } price
  bestAsk : ∀ price, book.bestAsk = some price ↔
    IsLeast { other | ∃ order, book.Rests .sell other order } price
  noBest : ∀ side, book.bestPrice side = none ↔ book.ordersOf side = []
  depth : ∀ side, book.depthOf side = (book.ordersOf side).length

theorem Book.NoEmptyLevel.consistent {book : Book} (hbook : book.NoEmptyLevel) :
    book.Consistent where
  bestBid price := by
    refine (book.bestPrice_eq_some_iff hbook .buy price).trans (and_congr_right ?_)
    intro _
    exact ⟨fun hbest other ⟨order, hrests⟩ => hbest other order hrests,
      fun hbest other order hrests => hbest ⟨order, hrests⟩⟩
  bestAsk price := by
    refine (book.bestPrice_eq_some_iff hbook .sell price).trans (and_congr_right ?_)
    intro _
    exact ⟨fun hbest other ⟨order, hrests⟩ => hbest other order hrests,
      fun hbest other order hrests => hbest ⟨order, hrests⟩⟩
  noBest side := by
    rw [← Book.head?_resting hbook, book.ordersOf_eq]
    simp
  depth side := by rw [book.depthOf_eq, book.ordersOf_eq, List.length_map]

theorem cancel_removed {book : Book} (hbook : book.NoEmptyLevel)
    (hids : book.resting.DistinctIds) {side : Side} {price : Price}
    {order : RestingOrder} (hrests : book.Rests side price order) :
    Removed book (book.cancel order.id).1 side price order := by
  have hafter := cancel_noEmptyLevel hbook order.id
  have hresting := (cancel_refines book order.id).1
  have hmem := (Book.rests_iff hbook).1 hrests
  obtain ⟨hown, hopposite⟩ := hids.cancel_of_mem hmem rfl
  obtain ⟨front, back, hsplit, herase⟩ := hids.eraseP_eq hmem rfl
  rw [herase, ← hresting] at hown
  rw [← hresting] at hopposite
  constructor
  · obtain ⟨before, behind, hlevel, hlevel'⟩ :=
      QueueMap.queueOf_middle_self price order front back
    rw [Book.level?_eq_queueOf hbook, Book.level?_eq_queueOf hafter, hsplit, hown]
    exact ⟨before, behind, hlevel, hlevel'⟩
  · intro other hother
    rw [Book.level?_eq_queueOf hbook, Book.level?_eq_queueOf hafter, hsplit, hown,
      QueueMap.queueOf_middle_of_ne hother.symm]
  · intro other
    rw [Book.level?_eq_queueOf hbook, Book.level?_eq_queueOf hafter, hopposite]
  · rw [Book.depthOf_eq, Book.depthOf_eq, hown, hsplit]
    simp only [List.length_append, List.length_cons]
    omega
  · rw [Book.depthOf_eq, Book.depthOf_eq, hopposite]

/-- On a reachable book without repeated ids, `cancel` finds an order exactly if it rests on
a side.  It then takes out that order alone and drops its level exactly if it was the last
there; otherwise it leaves the book as it is.  Best prices and depths afterwards are those
of the remaining orders. -/
theorem cancel_exact {book : Book} (hbook : book.Reachable)
    (hids : (book.orders.map RestingOrder.id).Nodup) (orderId : OrderId) :
    ((book.cancel orderId).2 = true ↔
      ∃ side price order, book.Rests side price order ∧ order.id = orderId) ∧
    (∀ side price order, book.Rests side price order → order.id = orderId →
      Removed book (book.cancel orderId).1 side price order) ∧
    ((book.cancel orderId).2 = false → (book.cancel orderId).1 = book) ∧
    (book.cancel orderId).1.Consistent := by
  have hnonempty := hbook.noEmptyLevel
  have hafter := cancel_noEmptyLevel hnonempty orderId
  obtain ⟨hresting, hfound⟩ := cancel_refines book orderId
  have hdistinct : book.resting.DistinctIds := by
    rw [Book.orders, book.ordersOf_eq, book.ordersOf_eq, ← List.map_append,
      List.map_map] at hids
    exact hids
  refine ⟨?_, ?_, ?_, hafter.consistent⟩
  · rw [hfound, Lists.cancel_found_iff]
    simp only [Book.rests_iff hnonempty, Prod.exists]
  · rintro side price order hrests rfl
    exact cancel_removed hnonempty hdistinct hrests
  · intro hnot
    apply Book.eq_of_resting_eq hafter hnonempty
    rw [hresting]
    exact Lists.cancel_of_not_found (hfound ▸ hnot)

/-- Two bids at 90 and an offer at 100. -/
def threeResting : Book :=
  ((Book.new.rest .buy 90 { id := 1, account := 1, qty := 5 }).rest .buy 90
    { id := 2, account := 2, qty := 4 }).rest .sell 100 { id := 3, account := 3, qty := 6 }

theorem threeResting_reachable : threeResting.Reachable :=
  ⟨[.submit ⟨1, 1, .buy, 5, .limit 90⟩, .submit ⟨2, 2, .buy, 4, .limit 90⟩,
    .submit ⟨3, 3, .sell, 6, .limit 100⟩], by decide +kernel⟩

/-- Without the second bid the first one is left, without the offer no level is. -/
theorem cancel_exact_threeResting :
    (threeResting.orders.map RestingOrder.id).Nodup ∧
      Removed threeResting (threeResting.cancel 2).1 .buy 90
        { id := 2, account := 2, qty := 4 } ∧
      Removed threeResting (threeResting.cancel 3).1 .sell 100
        { id := 3, account := 3, qty := 6 } ∧
      (threeResting.cancel 4).1 = threeResting := by
  have hids : (threeResting.orders.map RestingOrder.id).Nodup := by decide +kernel
  have hcancel := cancel_exact threeResting_reachable hids
  refine ⟨hids, ?_, ?_, ?_⟩
  · exact (hcancel 2).2.1 .buy 90 _ ⟨[⟨1, 1, 5⟩, ⟨2, 2, 4⟩], by decide +kernel, by decide⟩ rfl
  · exact (hcancel 3).2.1 .sell 100 _ ⟨[⟨3, 3, 6⟩], by decide +kernel, by decide⟩ rfl
  · exact (hcancel 4).2.2.1 (by decide +kernel)

end OpenHl.Clob
