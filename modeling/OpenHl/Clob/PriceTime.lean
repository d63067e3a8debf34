import OpenHl.Clob.Matching

/-!
# The book as two price-time lists

The abstract book is one list of makers per side, best price first and oldest
first within a price.  Submitting and cancelling are list functions here, with
one rule for both sides.  `submit_refines` and `cancel_refines` connect them to
the level maps of the engine; since a book without empty levels is determined
by its two lists (`Book.eq_of_resting_eq`), nothing about the book is lost.
-/

namespace OpenHl.Clob

open Machine

/-- A maker of the abstract book: its price and the order. -/
abbrev Maker := Price × RestingOrder

@[simp]
theorem Side.opposite_opposite (side : Side) : side.opposite.opposite = side := by
  cases side <;> rfl

@[simp]
theorem Side.opposite_ne (side : Side) : side.opposite ≠ side := by
  cases side <;> decide

theorem Side.eq_or_eq_opposite (side choice : Side) :
    choice = side ∨ choice = side.opposite := by
  cases choice <;> cases side <;> simp [Side.opposite]

/-- `first` is at least as good a price as `second` for the takers of this
side's makers. -/
def Side.NotWorse : Side → Price → Price → Prop
  | .buy, first, second => second ≤ first
  | .sell, first, second => first ≤ second

instance (side : Side) (first second : Price) :
    Decidable (side.NotWorse first second) :=
  match side with
  | .buy => inferInstanceAs (Decidable (second ≤ first))
  | .sell => inferInstanceAs (Decidable (first ≤ second))

theorem Side.NotWorse.trans {side : Side} {first second third : Price}
    (hfirst : side.NotWorse first second) (hsecond : side.NotWorse second third) :
    side.NotWorse first third := by
  cases side with
  | buy => exact le_trans (α := Price) hsecond hfirst
  | sell => exact le_trans (α := Price) hfirst hsecond

theorem Side.notWorse_total (side : Side) (first second : Price) :
    side.NotWorse first second ∨ side.NotWorse second first := by
  cases side with
  | buy => exact le_total (α := Price) second first
  | sell => exact le_total (α := Price) first second

theorem Side.notWorse_refl (side : Side) (price : Price) :
    side.NotWorse price price := by
  simpa using side.notWorse_total price price

theorem Side.notWorse_antisymm {side : Side} {first second : Price}
    (hfirst : side.NotWorse first second) (hsecond : side.NotWorse second first) :
    first = second := by
  cases side with
  | buy => exact le_antisymm (α := Price) hsecond hfirst
  | sell => exact le_antisymm (α := Price) hfirst hsecond

/-- The abstract book. -/
abbrev Lists := Side → List Maker

/-- Whether a taker accepts a maker's price. -/
def accepted (taker : Order) (price : Price) : Bool :=
  match taker.orderType with
  | .limit limitPrice => !beyondLimit taker.side limitPrice price
  | .market => true

/-- Place a maker behind all makers of its side with a price not worse. -/
def placeBehind (side : Side) (price : Price) (order : RestingOrder)
    (makers : List Maker) : List Maker :=
  makers.takeWhile (fun maker => side.NotWorse maker.1 price) ++
    (price, order) :: makers.dropWhile fun maker => side.NotWorse maker.1 price

/-- Fills of a taker against an allocation over makers. -/
def takerFills (taker : Order) (given : List (Maker × Qty)) : List Fill :=
  given.map fun entry => fillAgainst taker entry.1.1 entry.1.2 entry.2

namespace Lists

/-- The makers a taker meets before the first price it does not accept. -/
def front (lists : Lists) (taker : Order) : List Maker :=
  (lists taker.side.opposite).takeWhile fun maker => accepted taker maker.1

def back (lists : Lists) (taker : Order) : List Maker :=
  (lists taker.side.opposite).dropWhile fun maker => accepted taker maker.1

def fills (lists : Lists) (taker : Order) : List Fill :=
  takerFills taker (Greedy.allocate itemQty taker.qty (lists.front taker))

/-- Taker quantity no accepted maker could give. -/
def remaining (lists : Lists) (taker : Order) : Qty :=
  Greedy.leftover itemQty taker.qty (lists.front taker)

/-- The lists after the taker has taken what it accepts. -/
def walked (lists : Lists) (taker : Order) : Lists :=
  Function.update lists taker.side.opposite
    (Greedy.residual itemQty withItemQty taker.qty (lists.front taker) ++
      lists.back taker)

def rest (lists : Lists) (side : Side) (price : Price)
    (order : RestingOrder) : Lists :=
  Function.update lists side (placeBehind side price order (lists side))

def submit (lists : Lists) (taker : Order) : Lists × FillResult :=
  match taker.orderType with
  | .limit price =>
      (if 0 < lists.remaining taker then
          (lists.walked taker).rest taker.side price
            { id := taker.id, account := taker.account,
              qty := lists.remaining taker }
        else lists.walked taker,
        { fills := lists.fills taker, remainingQty := 0 })
  | .market =>
      (lists.walked taker,
        { fills := lists.fills taker, remainingQty := lists.remaining taker })

def hasOrder (orderId : OrderId) (maker : Maker) : Bool := maker.2.id = orderId

def cancel (lists : Lists) (orderId : OrderId) : Lists × Bool :=
  if (lists .buy).any (hasOrder orderId) then
    (Function.update lists .buy ((lists .buy).eraseP (hasOrder orderId)), true)
  else
    (Function.update lists .sell ((lists .sell).eraseP (hasOrder orderId)),
      (lists .sell).any (hasOrder orderId))

@[simp]
theorem walked_own (lists : Lists) (taker : Order) :
    lists.walked taker taker.side = lists taker.side :=
  Function.update_of_ne taker.side.opposite_ne.symm _ _

@[simp]
theorem walked_opposite (lists : Lists) (taker : Order) :
    lists.walked taker taker.side.opposite =
      Greedy.residual itemQty withItemQty taker.qty (lists.front taker) ++
        lists.back taker :=
  Function.update_self _ _ _

theorem cancel_buy (lists : Lists) (orderId : OrderId) :
    (lists.cancel orderId).1 .buy = (lists .buy).eraseP (hasOrder orderId) := by
  rw [cancel]
  split_ifs with hfound
  · simp
  · have hnone : ∀ maker ∈ lists .buy, ¬ hasOrder orderId maker = true := by
      intro maker hmaker hmatch
      exact hfound (List.any_eq_true.2 ⟨maker, hmaker, hmatch⟩)
    simp [List.eraseP_of_forall_not hnone]

theorem cancel_sell (lists : Lists) (orderId : OrderId) :
    (lists.cancel orderId).1 .sell =
      if (lists .buy).any (hasOrder orderId) then lists .sell
      else (lists .sell).eraseP (hasOrder orderId) := by
  rw [cancel]
  split_ifs <;> simp

theorem front_append_back (lists : Lists) (taker : Order) :
    lists.front taker ++ lists.back taker = lists taker.side.opposite :=
  List.takeWhile_append_dropWhile

end Lists

/-! ## The lists of a book -/

def ofDualKey (item : Priceᵒᵈ × RestingOrder) : Maker :=
  (OrderDual.ofDual item.1, item.2)

/-- The makers of a side in price-time order. -/
def Book.resting (book : Book) : Lists
  | .buy => (QueueMap.flatten book.bids).map ofDualKey
  | .sell => QueueMap.flatten book.asks

/-- No price level is left with an empty queue. -/
structure Book.NoEmptyLevel (book : Book) : Prop where
  bids : QueueMap.NoEmpty book.bids
  asks : QueueMap.NoEmpty book.asks

theorem Book.new_noEmptyLevel : Book.new.NoEmptyLevel :=
  ⟨QueueMap.noEmpty_empty, QueueMap.noEmpty_empty⟩

theorem ofDualKey_injective : Function.Injective ofDualKey := by
  rintro ⟨leftKey, leftOrder⟩ ⟨rightKey, rightOrder⟩ heq
  simpa [ofDualKey] using heq

/-- Two books have the same price levels on a side. -/
def Book.SameSide (left right : Book) : Side → Prop
  | .buy => left.bids = right.bids
  | .sell => left.asks = right.asks

theorem Book.sameSide_refl (book : Book) (side : Side) : book.SameSide book side := by
  cases side <;> rfl

theorem Book.sameSide_of_resting_eq {left right : Book}
    (hleft : left.NoEmptyLevel) (hright : right.NoEmptyLevel) {side : Side}
    (heq : left.resting side = right.resting side) : left.SameSide right side := by
  cases side with
  | buy =>
      apply QueueMap.flatten_injective hleft.bids hright.bids
      exact List.map_injective_iff.2 ofDualKey_injective heq
  | sell => exact QueueMap.flatten_injective hleft.asks hright.asks heq

theorem Book.eq_of_resting_eq {left right : Book} (hleft : left.NoEmptyLevel)
    (hright : right.NoEmptyLevel) (heq : left.resting = right.resting) :
    left = right := by
  apply Book.ext
  · exact Book.sameSide_of_resting_eq hleft hright (congrFun heq .buy)
  · exact Book.sameSide_of_resting_eq hleft hright (congrFun heq .sell)

/-- A side lists its makers best price first. -/
theorem Book.resting_sorted (book : Book) (side : Side) :
    ((book.resting side).map Prod.fst).Pairwise side.NotWorse := by
  cases side with
  | buy =>
      have hsorted := QueueMap.flatten_sorted book.bids
      rw [Book.resting, List.map_map, List.pairwise_map]
      exact List.pairwise_map.1 hsorted
  | sell => exact QueueMap.flatten_sorted book.asks

/-- The best price of a side. -/
def Book.bestPrice (book : Book) : Side → Option Price
  | .buy => book.bestBid
  | .sell => book.bestAsk

theorem Book.head?_resting {book : Book} (hbook : book.NoEmptyLevel)
    (side : Side) :
    (book.resting side).head?.map Prod.fst = book.bestPrice side := by
  cases side with
  | buy =>
      rw [Book.bestPrice, Book.bestBid, ← QueueMap.head?_flatten hbook.bids,
        Book.resting, List.head?_map, Option.map_map, Option.map_map]
      rfl
  | sell => exact QueueMap.head?_flatten hbook.asks

/-! ## Refinement -/

theorem walkAsks_refines {book : Book} (hbook : book.NoEmptyLevel)
    {taker : Order} (hside : taker.side = .buy) {stop : Price → Bool}
    (hstop : ∀ price, accepted taker price = !stop price) :
    ∃ walked, book.walkOpposite taker stop =
        .ok (walked, book.resting.remaining taker, book.resting.fills taker) ∧
      walked.NoEmptyLevel ∧ walked.resting = book.resting.walked taker := by
  have haccept : (fun maker : Maker => accepted taker maker.1) =
      accepts id stop := funext fun maker => hstop maker.1
  obtain ⟨swept, hsweep, hspec⟩ := sweep_spec taker id stop hbook.asks
  have hfront : book.resting.front taker = acceptedFront id stop book.asks := by
    rw [Lists.front, hside, haccept]
    rfl
  have hback : book.resting.back taker = rejectedBack id stop book.asks := by
    rw [Lists.back, hside, haccept]
    rfl
  refine ⟨{ book with asks := swept.levels }, ?_, ⟨hbook.bids, hspec.noEmpty⟩, ?_⟩
  · simp only [Book.walkOpposite, hside, hsweep, hspec.fills, hspec.remaining,
      Lists.remaining, Lists.fills, hfront, List.nil_append]
    rfl
  · funext side
    cases side with
    | buy =>
        rw [← hside, Lists.walked_own, hside]
        rfl
    | sell =>
        have hopposite := Lists.walked_opposite book.resting taker
        rw [hside, hfront, hback] at hopposite
        exact hspec.flatten.trans hopposite.symm

theorem walkBids_refines {book : Book} (hbook : book.NoEmptyLevel)
    {taker : Order} (hside : taker.side = .sell) {stop : Price → Bool}
    (hstop : ∀ price, accepted taker price = !stop price) :
    ∃ walked, book.walkOpposite taker stop =
        .ok (walked, book.resting.remaining taker, book.resting.fills taker) ∧
      walked.NoEmptyLevel ∧ walked.resting = book.resting.walked taker := by
  have haccept : (fun maker : Maker => accepted taker maker.1) ∘ ofDualKey =
      accepts OrderDual.ofDual stop := funext fun item => hstop _
  obtain ⟨swept, hsweep, hspec⟩ :=
    sweep_spec taker OrderDual.ofDual stop hbook.bids
  have hfront : book.resting.front taker =
      (acceptedFront OrderDual.ofDual stop book.bids).map ofDualKey := by
    rw [Lists.front, hside, acceptedFront, ← haccept]
    exact List.takeWhile_map
  have hback : book.resting.back taker =
      (rejectedBack OrderDual.ofDual stop book.bids).map ofDualKey := by
    rw [Lists.back, hside, rejectedBack, ← haccept]
    exact List.dropWhile_map
  refine ⟨{ book with bids := swept.levels }, ?_, ⟨hspec.noEmpty, hbook.asks⟩, ?_⟩
  · have hremaining : book.resting.remaining taker = swept.remaining := by
      rw [Lists.remaining, hfront, hspec.remaining]
      exact Greedy.leftover_map itemQty itemQty ofDualKey (fun _ => rfl) _ _
    have hfills : book.resting.fills taker = swept.fills := by
      rw [Lists.fills, hfront, hspec.fills, List.nil_append,
        Greedy.allocate_map itemQty itemQty ofDualKey fun _ => rfl]
      simp [takerFills, fillsOf, ofDualKey, Function.comp_def]
    simp only [Book.walkOpposite, hside, hsweep, hremaining, hfills]
  · funext side
    cases side with
    | sell =>
        rw [← hside, Lists.walked_own, hside]
        rfl
    | buy =>
        have hopposite := Lists.walked_opposite book.resting taker
        rw [hside, hfront, hback, Greedy.residual_map itemQty itemQty
          withItemQty withItemQty ofDualKey (fun _ => rfl) (fun _ _ => rfl),
          ← List.map_append, ← hspec.flatten] at hopposite
        exact hopposite.symm

theorem walkOpposite_refines {book : Book} (hbook : book.NoEmptyLevel)
    (taker : Order) (stop : Price → Bool)
    (hstop : ∀ price, accepted taker price = !stop price) :
    ∃ walked, book.walkOpposite taker stop =
        .ok (walked, book.resting.remaining taker, book.resting.fills taker) ∧
      walked.NoEmptyLevel ∧ walked.resting = book.resting.walked taker := by
  cases hside : taker.side with
  | buy => exact walkAsks_refines hbook hside hstop
  | sell => exact walkBids_refines hbook hside hstop

theorem rest_refines (book : Book) (side : Side) (price : Price)
    (order : RestingOrder) :
    (book.rest side price order).resting =
      book.resting.rest side price order := by
  funext other
  cases side with
  | buy =>
      cases other with
      | buy =>
          rw [Lists.rest, Function.update_self]
          simp only [Book.rest, Book.resting, QueueMap.flatten_push,
            QueueMap.insertBehind, placeBehind, List.map_append, List.map_cons,
            List.takeWhile_map, List.dropWhile_map]
          rfl
      | sell => rfl
  | sell =>
      cases other with
      | buy => rfl
      | sell =>
          rw [Lists.rest, Function.update_self]
          exact QueueMap.flatten_push book.asks price order

theorem rest_noEmptyLevel {book : Book} (hbook : book.NoEmptyLevel) (side : Side)
    (price : Price) (order : RestingOrder) :
    (book.rest side price order).NoEmptyLevel := by
  cases side with
  | buy => exact ⟨QueueMap.noEmpty_push hbook.bids _ _, hbook.asks⟩
  | sell => exact ⟨hbook.bids, QueueMap.noEmpty_push hbook.asks _ _⟩

/-- `submit` never panics on a book without empty levels, leaves none behind,
and is the list function on the price-time lists. -/
theorem submit_refines {book : Book} (hbook : book.NoEmptyLevel)
    (order : Order) :
    ∃ next, book.submit order = .ok (next, (book.resting.submit order).2) ∧
      next.NoEmptyLevel ∧ next.resting = (book.resting.submit order).1 := by
  cases htype : order.orderType with
  | market =>
      obtain ⟨walked, hwalk, hnonempty, hresting⟩ := walkOpposite_refines hbook
        order (fun _ => false) fun price => by simp [accepted, htype]
      exact ⟨walked, by simp [Book.submit, htype, Book.submitMarket, hwalk,
        Lists.submit], hnonempty, by simp [Lists.submit, htype, hresting]⟩
  | limit limitPrice =>
      obtain ⟨walked, hwalk, hnonempty, hresting⟩ := walkOpposite_refines hbook
        order (beyondLimit order.side limitPrice)
        fun price => by simp [accepted, htype]
      by_cases hremaining : 0 < book.resting.remaining order
      · exact ⟨walked.rest order.side limitPrice
            { id := order.id, account := order.account,
              qty := book.resting.remaining order },
          by simp [Book.submit, htype, Book.submitLimit, hwalk, Lists.submit,
            hremaining],
          rest_noEmptyLevel hnonempty _ _ _,
          by simp [Lists.submit, htype, hremaining, rest_refines, hresting]⟩
      · exact ⟨walked, by simp [Book.submit, htype, Book.submitLimit, hwalk,
          Lists.submit, hremaining], hnonempty,
          by simp [Lists.submit, htype, hremaining, hresting]⟩

theorem cancel_refines (book : Book) (orderId : OrderId) :
    (book.cancel orderId).1.resting = (book.resting.cancel orderId).1 ∧
      (book.cancel orderId).2 = (book.resting.cancel orderId).2 := by
  have hbids : (book.resting .buy).any (Lists.hasOrder orderId) =
      (QueueMap.removeFirst book.bids fun order => order.id = orderId).1 := by
    rw [QueueMap.removeFirst_found, Book.resting, List.any_map]
    rfl
  have hasks : (book.resting .sell).any (Lists.hasOrder orderId) =
      (QueueMap.removeFirst book.asks fun order => order.id = orderId).1 := by
    rw [QueueMap.removeFirst_found]
    rfl
  have hbidList : ((QueueMap.flatten (QueueMap.removeFirst book.bids
      fun order => order.id = orderId).2).map ofDualKey) =
        (book.resting .buy).eraseP (Lists.hasOrder orderId) := by
    rw [QueueMap.flatten_removeFirst, Book.resting, List.eraseP_map]
    rfl
  have haskList : QueueMap.flatten (QueueMap.removeFirst book.asks
      fun order => order.id = orderId).2 =
        (book.resting .sell).eraseP (Lists.hasOrder orderId) := by
    rw [QueueMap.flatten_removeFirst]
    rfl
  rw [Book.cancel, Lists.cancel, hbids, hasks]
  by_cases hfound : (QueueMap.removeFirst book.bids
      fun order => order.id = orderId).1 = true
  · rw [if_pos hfound, if_pos hfound]
    refine ⟨funext fun side => ?_, rfl⟩
    cases side with
    | buy =>
        simp only [Function.update_self]
        exact hbidList
    | sell => rfl
  · rw [if_neg hfound, if_neg hfound]
    refine ⟨funext fun side => ?_, rfl⟩
    cases side with
    | buy =>
        have hnone : (book.resting .buy).eraseP (Lists.hasOrder orderId) =
            book.resting .buy := by
          apply List.eraseP_of_forall_not
          intro maker hmaker hmatch
          exact hfound (hbids ▸ List.any_eq_true.2 ⟨maker, hmaker, hmatch⟩)
        exact hbidList.trans hnone
    | sell =>
        simp only [Function.update_self]
        exact haskList

theorem cancel_noEmptyLevel {book : Book} (hbook : book.NoEmptyLevel)
    (orderId : OrderId) : (book.cancel orderId).1.NoEmptyLevel := by
  rw [Book.cancel]
  split_ifs with hfound
  · exact ⟨QueueMap.noEmpty_removeFirst _ _, hbook.asks⟩
  · exact ⟨QueueMap.noEmpty_removeFirst _ _, QueueMap.noEmpty_removeFirst _ _⟩

/-! ## Runs -/

def Lists.apply (lists : Lists) : Call → Lists
  | .submit order => (lists.submit order).1
  | .cancel orderId => (lists.cancel orderId).1

def Lists.empty : Lists := fun _ => []

theorem apply_refines {book : Book} (hbook : book.NoEmptyLevel) (call : Call) :
    ∃ next, book.apply call = .ok next ∧ next.NoEmptyLevel ∧
      next.resting = book.resting.apply call := by
  cases call with
  | submit order =>
      obtain ⟨next, hsubmit, hnonempty, hresting⟩ := submit_refines hbook order
      exact ⟨next, by simp [Book.apply, hsubmit, Except.map], hnonempty, hresting⟩
  | cancel orderId =>
      exact ⟨_, rfl, cancel_noEmptyLevel hbook orderId,
        (cancel_refines book orderId).1⟩

/-- Invariant rule for runs: what holds of the initial lists and is kept by
every call holds of the book after any sequence of calls. -/
theorem run_induction {Inv : Lists → Prop}
    (hstep : ∀ book : Book, Inv book.resting →
      ∀ call, Inv (book.resting.apply call))
    (calls : List Call) {book : Book} (hbook : book.NoEmptyLevel)
    (hinv : Inv book.resting) :
    ∃ final, book.run calls = .ok final ∧ final.NoEmptyLevel ∧
      Inv final.resting := by
  induction calls generalizing book with
  | nil => exact ⟨book, rfl, hbook, hinv⟩
  | cons call calls ih =>
      obtain ⟨next, hnext, hnonempty, hresting⟩ := apply_refines hbook call
      obtain ⟨final, hrun, hfinal⟩ := ih hnonempty
        (hresting ▸ hstep book hinv call)
      exact ⟨final, by rw [Book.run, hnext]; exact hrun, hfinal⟩

end OpenHl.Clob
