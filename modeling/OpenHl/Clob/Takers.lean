import OpenHl.Clob.Invariant

/-!
# Takers compared

Two ways to trade the same quantity.  A market order is a limit order at the
most aggressive price that gives its remainder back instead of letting it rest
(`submit_market_eq_limit`).  And a taker may be sent in two parts: the parts
fill the makers one after the other as the whole taker does, and a maker at
most gives its share in two fills (`submit_twice`).
-/

namespace OpenHl.Clob

open Machine

/-! ## Market and limit takers -/

/-- The limit no price is beyond: `u64::MAX` for a buy, 0 for a sell. -/
def Side.mostAggressive : Side → Price
  | .buy => U64.maxValue
  | .sell => 0

theorem beyondLimit_mostAggressive (side : Side) :
    beyondLimit side side.mostAggressive = fun _ => false := by
  funext best
  cases side with
  | buy =>
      have hbest : best ≤ U64.maxValue := Nat.le_pred_of_lt best.isLt
      exact decide_eq_false hbest.not_gt
  | sell => exact decide_eq_false (Fin.not_lt_zero best)

theorem walkOpposite_own {book walked : Book} {taker : Order}
    {stop : Price → Bool} {remaining : Qty} {fills : List Fill}
    (hwalk : book.walkOpposite taker stop = .ok (walked, remaining, fills)) :
    walked.SameSide book taker.side := by
  cases hside : taker.side with
  | buy =>
      cases hsweep : sweep taker id stop book.asks with
      | error panic => simp [Book.walkOpposite, hside, hsweep] at hwalk
      | ok swept =>
          simp only [Book.walkOpposite, hside, hsweep, Except.ok.injEq,
            Prod.mk.injEq] at hwalk
          rw [← hwalk.1]
          rfl
  | sell =>
      cases hsweep : sweep taker OrderDual.ofDual stop book.bids with
      | error panic => simp [Book.walkOpposite, hside, hsweep] at hwalk
      | ok swept =>
          simp only [Book.walkOpposite, hside, hsweep, Except.ok.injEq,
            Prod.mk.injEq] at hwalk
          rw [← hwalk.1]
          rfl

theorem rest_opposite (book : Book) (side : Side) (price : Price)
    (resting : RestingOrder) :
    (book.rest side price resting).SameSide book side.opposite := by
  cases side <;> rfl

/-- A market order has the fills of a limit order at the most aggressive price
and leaves the same opposite side; its own side stays as it was, and what it
returns as remaining is what the limit order lets rest. -/
theorem submit_market_eq_limit {book : Book} (hbook : book.Reachable)
    (id : OrderId) (account : AccountId) (side : Side) (qty : Qty) :
    ∃ walked rested fills remaining,
      book.submit ⟨id, account, side, qty, .market⟩ =
        .ok (walked, { fills := fills, remainingQty := remaining }) ∧
      book.submit ⟨id, account, side, qty, .limit side.mostAggressive⟩ =
        .ok (rested, { fills := fills, remainingQty := 0 }) ∧
      rested.SameSide walked side.opposite ∧ walked.SameSide book side ∧
      rested = if 0 < remaining then
          walked.rest side side.mostAggressive
            { id := id, account := account, qty := remaining }
        else walked := by
  let market : Order := ⟨id, account, side, qty, .market⟩
  let limit : Order := ⟨id, account, side, qty, .limit side.mostAggressive⟩
  obtain ⟨walked, hwalk, -, -⟩ := walkOpposite_refines hbook.noEmptyLevel market
    (fun _ => false) fun _ => rfl
  have hlimit : book.walkOpposite limit (beyondLimit side side.mostAggressive) =
      book.walkOpposite market fun _ => false := by
    rw [beyondLimit_mostAggressive]
    rfl
  have hown : walked.SameSide book side := walkOpposite_own hwalk
  let remaining := book.resting.remaining market
  let rested := if 0 < remaining then
      walked.rest side side.mostAggressive
        { id := id, account := account, qty := remaining }
    else walked
  refine ⟨walked, rested, book.resting.fills market, remaining, ?_, ?_, ?_, hown,
    rfl⟩
  · change book.submitMarket market = _
    rw [Book.submitMarket, hwalk]
  · change book.submitLimit limit side.mostAggressive = _
    rw [Book.submitLimit, hlimit, hwalk]
    by_cases hremaining : 0 < remaining
    · simp only [rested, if_pos hremaining]
      exact if_pos hremaining
    · simp only [rested, if_neg hremaining]
      exact if_neg hremaining
  · by_cases hremaining : 0 < remaining
    · simp only [rested, if_pos hremaining]
      exact rest_opposite walked side _ _
    · simp only [rested, if_neg hremaining]
      exact walked.sameSide_refl side.opposite

/-- Account 1 offers 5 at 100 and 3 at the highest price there is. -/
def twoOffered : Book :=
  (Book.new.rest .sell 100 { id := 1, account := 1, qty := 5 }).rest .sell
    U64.maxValue { id := 2, account := 1, qty := 3 }

theorem twoOffered_reachable : twoOffered.Reachable :=
  ⟨[.submit ⟨1, 1, .sell, 5, .limit 100⟩,
    .submit ⟨2, 1, .sell, 3, .limit U64.maxValue⟩], by decide +kernel⟩

theorem submit_market_eq_limit_sweep :
    ∃ walked fills,
      twoOffered.submit ⟨7, 2, .buy, 10, .market⟩ =
        .ok (walked, { fills := fills, remainingQty := 2 }) ∧
      twoOffered.submit ⟨7, 2, .buy, 10, .limit U64.maxValue⟩ =
        .ok (walked.rest .buy U64.maxValue { id := 7, account := 2, qty := 2 },
          { fills := fills, remainingQty := 0 }) := by
  obtain ⟨walked, rested, fills, remaining, hmarket, hlimit, -, -, hrested⟩ :=
    submit_market_eq_limit twoOffered_reachable 7 2 .buy 10
  have hremaining : (twoOffered.submit ⟨7, 2, .buy, 10, .market⟩).map
      (fun result => result.2.remainingQty) = .ok 2 := by decide +kernel
  rw [hmarket, Except.map, Except.ok.injEq] at hremaining
  change remaining = 2 at hremaining
  subst hremaining
  rw [hrested] at hlimit
  exact ⟨walked, fills, hmarket, hlimit⟩

/-! ## A taker in two parts -/

/-- A taker of the same account, side and type. -/
def Order.part (taker : Order) (id : OrderId) (qty : Qty) : Order :=
  { taker with id := id, qty := qty }

@[simp]
theorem Order.part_orderType (taker : Order) (id : OrderId) (qty : Qty) :
    (taker.part id qty).orderType = taker.orderType := rfl

/-- The maker of a fill: its order, account, price and side. -/
def Fill.maker (fill : Fill) : OrderId × AccountId × Price × Side :=
  (fill.makerOrderId, fill.makerAccount, fill.price, fill.makerSide)

/-- What the fills give to their makers, in order. -/
def makerFills (fills : List Fill) :
    List ((OrderId × AccountId × Price × Side) × ℕ) :=
  fills.map fun fill => (fill.maker, (fill.qty : ℕ))

namespace Lists

theorem submit_fills (lists : Lists) (taker : Order) :
    (lists.submit taker).2.fills = lists.fills taker := by
  cases htype : taker.orderType <;> simp [submit, htype]

/-- Letting a remainder rest does not change the side the taker has walked. -/
theorem submit_opposite (lists : Lists) (taker : Order) :
    (lists.submit taker).1 taker.side.opposite =
      Greedy.residual itemQty withItemQty taker.qty (lists.front taker) ++
        lists.back taker := by
  rw [← lists.walked_opposite taker]
  cases htype : taker.orderType with
  | market => simp [submit, htype]
  | limit price =>
      simp only [submit, htype]
      split_ifs with hremaining
      · exact Function.update_of_ne taker.side.opposite_ne _ _
      · rfl

theorem accepted_of_mem_front {lists : Lists} {taker : Order} {maker : Maker}
    (hmem : maker ∈ lists.front taker) : accepted taker maker.1 = true := by
  rw [front] at hmem
  simpa using List.mem_takeWhile_imp hmem

theorem accepted_residual {lists : Lists} {taker : Order} {wanted : Qty}
    {maker : Maker}
    (hmem : maker ∈ Greedy.residual itemQty withItemQty wanted (lists.front taker)) :
    accepted taker maker.1 = true := by
  rcases Greedy.mem_residual hmem with hsame | ⟨before, hbefore, _, _, rfl⟩
  · exact accepted_of_mem_front hsame
  · have haccept := accepted_of_mem_front hbefore
    exact haccept

/-- The second part meets what the first part has left in front. -/
theorem front_submit_part (lists : Lists) (taker : Order) (id : OrderId)
    (qty : Qty) :
    (lists.submit (taker.part id qty)).1.front taker =
      Greedy.residual itemQty withItemQty qty (lists.front taker) := by
  have hopposite := lists.submit_opposite (taker.part id qty)
  have hback : (lists.back taker).takeWhile (fun maker => accepted taker maker.1) =
      [] := by
    have hsplit := List.takeWhile_append_dropWhile
      (p := fun maker : Maker => accepted taker maker.1) (l := lists.back taker)
    rw [back, List.dropWhile_idempotent] at hsplit
    exact List.self_eq_append_left.1 hsplit.symm
  calc (lists.submit (taker.part id qty)).1.front taker
      = (Greedy.residual itemQty withItemQty qty (lists.front taker) ++
          lists.back taker).takeWhile fun maker => accepted taker maker.1 :=
        congrArg _ hopposite
    _ = Greedy.residual itemQty withItemQty qty (lists.front taker) := by
        rw [List.takeWhile_append_of_pos fun maker => accepted_residual, hback,
          List.append_nil]

theorem back_submit_part (lists : Lists) (taker : Order) (id : OrderId)
    (qty : Qty) :
    (lists.submit (taker.part id qty)).1.back taker = lists.back taker := by
  have hopposite := lists.submit_opposite (taker.part id qty)
  calc (lists.submit (taker.part id qty)).1.back taker
      = (Greedy.residual itemQty withItemQty qty (lists.front taker) ++
          lists.back taker).dropWhile fun maker => accepted taker maker.1 :=
        congrArg _ hopposite
    _ = lists.back taker := by
        rw [List.dropWhile_append_of_pos fun maker => accepted_residual]
        exact List.dropWhile_idempotent _ _

theorem submit_remainingQty (lists : Lists) (taker : Order) :
    (lists.submit taker).2.remainingQty =
      if taker.orderType = .market then lists.remaining taker else 0 := by
  cases htype : taker.orderType <;> simp [submit, htype]

/-- The maker of the fills a taker has against a resting order. -/
def makerOf (side : Side) (maker : Maker) : OrderId × AccountId × Price × Side :=
  (maker.2.id, maker.2.account, maker.1, side)

theorem makerFills_fills (lists : Lists) (taker : Order) :
    makerFills (lists.fills taker) =
      Greedy.grants (makerOf taker.side.opposite)
        (Greedy.allocate itemQty taker.qty (lists.front taker)) := by
  rw [fills, makerFills, takerFills, List.map_map]
  rfl

theorem inTwoGoes (lists : Lists) {taker : Order} {first second : Qty}
    (hqty : (taker.qty : ℕ) = first + second) :
    Greedy.InTwoGoes itemQty withItemQty (makerOf taker.side.opposite) taker.qty
      first second (lists.front taker) := by
  refine Greedy.inTwoGoes ?_ ?_ ?_ hqty _
  · intro maker held
    rfl
  · intro maker held later
    rfl
  · intro maker held
    rfl

end Lists

/-- A taker submitted in two parts leaves the opposite side that the whole
taker leaves.  It fills the makers of the whole taker in the same order, with
the same totals at the same prices; at most one maker gives its share in two
fills, the last of the first part and the first of the second.  What the parts
return as remaining adds up to what the whole taker returns. -/
theorem submit_twice {book : Book} (hbook : book.Reachable) (taker : Order)
    (firstId secondId : OrderId) {first second : Qty}
    (hqty : (taker.qty : ℕ) = first + second) :
    ∃ middle parts whole firstResult secondResult wholeResult,
      book.submit (taker.part firstId first) = .ok (middle, firstResult) ∧
      middle.submit (taker.part secondId second) = .ok (parts, secondResult) ∧
      book.submit taker = .ok (whole, wholeResult) ∧
      parts.SameSide whole taker.side.opposite ∧
      Greedy.Split (makerFills wholeResult.fills) (makerFills firstResult.fills)
        (makerFills secondResult.fills) ∧
      (∀ maker, Greedy.amountOf maker (makerFills firstResult.fills) +
          Greedy.amountOf maker (makerFills secondResult.fills) =
        Greedy.amountOf maker (makerFills wholeResult.fills)) ∧
      (firstResult.remainingQty : ℕ) + secondResult.remainingQty =
        wholeResult.remainingQty := by
  obtain ⟨middle, hfirst, hmiddle, hmiddleLists⟩ :=
    submit_refines hbook.noEmptyLevel (taker.part firstId first)
  obtain ⟨parts, hsecond, hparts, hpartsLists⟩ :=
    submit_refines hmiddle (taker.part secondId second)
  obtain ⟨whole, hsubmit, hwhole, hwholeLists⟩ :=
    submit_refines hbook.noEmptyLevel taker
  have htwo := book.resting.inTwoGoes hqty
  have hfront : middle.resting.front taker = Greedy.residual itemQty withItemQty
      first (book.resting.front taker) := by
    rw [hmiddleLists, Lists.front_submit_part]
  have hback : middle.resting.back taker = book.resting.back taker := by
    rw [hmiddleLists, Lists.back_submit_part]
  have hsplit : Greedy.Split (makerFills (book.resting.submit taker).2.fills)
      (makerFills (book.resting.submit (taker.part firstId first)).2.fills)
      (makerFills (middle.resting.submit (taker.part secondId second)).2.fills) := by
    simp only [Lists.submit_fills, Lists.makerFills_fills]
    have hgrants := htwo.split
    rw [← hfront] at hgrants
    exact hgrants
  refine ⟨middle, parts, whole, _, _, _, hfirst, hsecond, hsubmit, ?_, hsplit,
    hsplit.amountOf_add, ?_⟩
  · apply Book.sameSide_of_resting_eq hparts hwhole
    have hopposite := middle.resting.submit_opposite (taker.part secondId second)
    calc parts.resting taker.side.opposite
        = Greedy.residual itemQty withItemQty second (middle.resting.front taker) ++
            middle.resting.back taker := by rw [hpartsLists]; exact hopposite
      _ = Greedy.residual itemQty withItemQty taker.qty (book.resting.front taker) ++
            book.resting.back taker := by rw [hfront, hback, htwo.residual_residual]
      _ = whole.resting taker.side.opposite := by
          rw [hwholeLists, Lists.submit_opposite]
  · simp only [Lists.submit_remainingQty]
    have hleft := htwo.leftover_add
    rw [← hfront] at hleft
    by_cases htype : taker.orderType = .market
    · simp only [Order.part_orderType, htype, if_true]
      exact hleft
    · simp only [Order.part_orderType, htype, if_false]
      rfl

/-- The first part ends inside the order at 100 and the second empties the
side. -/
theorem submit_twice_cut :
    ((10 : Qty) : ℕ) = (4 : Qty) + (6 : Qty) ∧
      ∃ middle parts whole firstResult secondResult wholeResult,
        twoOffered.submit ⟨7, 2, .buy, 4, .market⟩ = .ok (middle, firstResult) ∧
        middle.submit ⟨8, 2, .buy, 6, .market⟩ = .ok (parts, secondResult) ∧
        twoOffered.submit ⟨9, 2, .buy, 10, .market⟩ = .ok (whole, wholeResult) ∧
        parts.asks = whole.asks ∧
        Greedy.Split (makerFills wholeResult.fills) (makerFills firstResult.fills)
          (makerFills secondResult.fills) ∧
        (firstResult.remainingQty : ℕ) + secondResult.remainingQty =
          wholeResult.remainingQty := by
  have hqty : ((10 : Qty) : ℕ) = (4 : Qty) + (6 : Qty) := by decide
  obtain ⟨middle, parts, whole, firstResult, secondResult, wholeResult, hfirst,
      hsecond, hwhole, hside, hsplit, -, hleft⟩ :=
    submit_twice twoOffered_reachable ⟨9, 2, .buy, 10, .market⟩ 7 8 hqty
  exact ⟨hqty, middle, parts, whole, firstResult, secondResult, wholeResult, hfirst,
    hsecond, hwhole, hside, hsplit, hleft⟩

end OpenHl.Clob
