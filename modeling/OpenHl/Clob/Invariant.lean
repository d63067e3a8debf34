import OpenHl.Clob.PriceTime
import OpenHl.Core.Ranked

/-!
# Invariants of the book

Two facts that every sequence of `submit` and `cancel` calls keeps.  The book
is well formed: the best bid is below the best ask, no level is empty and no
resting order has quantity zero; in particular none of the `expect`s of the
matching loops can fire.  And quantity is conserved: what was submitted is
filled on both sides of a fill, handed back, resting, or cancelled.
-/

namespace OpenHl.Clob

open Machine

/-! ## Well-formed books -/

/-- Well-formedness of the price-time lists: no maker of a side would accept a
maker of the other side. -/
structure Lists.WellFormed (lists : Lists) : Prop where
  positive : ∀ side, ∀ maker ∈ lists side, maker.2.qty ≠ 0
  uncrossed : ∀ side, ∀ maker ∈ lists side, ∀ other ∈ lists side.opposite,
    beyondLimit side maker.1 other.1 = true

structure Book.WellFormed (book : Book) : Prop where
  uncrossed : ∀ bid ask, book.bestBid = some bid → book.bestAsk = some ask →
    bid < ask
  bidLevels : ∀ level ∈ book.bids.entries, level.2 ≠ []
  askLevels : ∀ level ∈ book.asks.entries, level.2 ≠ []
  bidQty : ∀ level ∈ book.bids.entries, ∀ order ∈ level.2, 0 < order.qty
  askQty : ∀ level ∈ book.asks.entries, ∀ order ∈ level.2, 0 < order.qty

theorem beyondLimit_opposite (side : Side) (limitPrice best : Price) :
    beyondLimit side.opposite best limitPrice =
      beyondLimit side limitPrice best := by
  cases side <;> rfl

/-- A price a taker does not accept is followed by prices it does not accept. -/
theorem beyondLimit_of_notWorse {side : Side} {limitPrice first second : Price}
    (hworse : side.opposite.NotWorse first second)
    (hbeyond : beyondLimit side limitPrice first = true) :
    beyondLimit side limitPrice second = true := by
  cases side with
  | buy =>
      simp only [beyondLimit, decide_eq_true_eq] at hbeyond ⊢
      exact lt_of_lt_of_le hbeyond hworse
  | sell =>
      simp only [beyondLimit, decide_eq_true_eq] at hbeyond ⊢
      exact lt_of_le_of_lt hworse hbeyond

/-- On the opposite side of a book, acceptance by a taker passes to the makers
in front. -/
theorem accepted_closed (book : Book) (taker : Order) :
    (book.resting taker.side.opposite).Pairwise fun first second =>
      accepted taker second.1 = true → accepted taker first.1 = true := by
  refine (List.pairwise_map.1 (book.resting_sorted taker.side.opposite)).imp ?_
  intro first second hworse haccept
  cases htype : taker.orderType with
  | market => simp [accepted, htype]
  | limit limitPrice =>
      simp only [accepted, htype, Bool.not_eq_true', ← Bool.not_eq_true] at haccept ⊢
      exact fun hbeyond => haccept (beyondLimit_of_notWorse hworse hbeyond)

theorem placeBehind_perm (side : Side) (price : Price) (order : RestingOrder)
    (makers : List Maker) :
    (placeBehind side price order makers).Perm ((price, order) :: makers) := by
  refine List.perm_middle.trans ?_
  rw [List.takeWhile_append_dropWhile]

theorem mem_placeBehind {side : Side} {price : Price} {order : RestingOrder}
    {makers : List Maker} {maker : Maker} :
    maker ∈ placeBehind side price order makers ↔
      maker = (price, order) ∨ maker ∈ makers := by
  rw [(placeBehind_perm side price order makers).mem_iff, List.mem_cons]

/-- The makers a taker leaves behind stood there with the same price, and none
of them is empty. -/
theorem mem_walked {lists : Lists} {taker : Order} {side : Side} {maker : Maker}
    (hmem : maker ∈ lists.walked taker side) :
    (∃ before ∈ lists side, before.1 = maker.1) ∧
      ((∀ before ∈ lists side, before.2.qty ≠ 0) → maker.2.qty ≠ 0) := by
  by_cases hside : side = taker.side.opposite
  · subst hside
    have hfront : ∀ before ∈ lists.front taker,
        before ∈ lists taker.side.opposite := fun before hbefore => by
      rw [← lists.front_append_back taker]
      exact List.mem_append_left _ hbefore
    have hkept : maker ∈ lists taker.side.opposite →
        (∃ before ∈ lists taker.side.opposite, before.1 = maker.1) ∧
          ((∀ before ∈ lists taker.side.opposite, before.2.qty ≠ 0) →
            maker.2.qty ≠ 0) :=
      fun hbefore => ⟨⟨maker, hbefore, rfl⟩, fun hpositive => hpositive _ hbefore⟩
    rw [Lists.walked_opposite, List.mem_append] at hmem
    rcases hmem with hresidual | hback
    · rcases Greedy.mem_residual hresidual with hsame |
        ⟨before, hbefore, held, hheld, rfl⟩
      · exact hkept (hfront maker hsame)
      · exact ⟨⟨before, hfront before hbefore, rfl⟩, fun _ => hheld⟩
    · apply hkept
      rw [← lists.front_append_back taker]
      exact List.mem_append_right _ hback
  · have hown : side = taker.side := by
      cases side <;> cases htaker : taker.side <;> simp_all [Side.opposite]
    subst hown
    rw [Lists.walked_own] at hmem
    exact ⟨⟨maker, hmem, rfl⟩, fun hpositive => hpositive maker hmem⟩

theorem walked_wellFormed {lists : Lists} (hlists : lists.WellFormed)
    (taker : Order) : (lists.walked taker).WellFormed := by
  constructor
  · intro side maker hmaker
    exact (mem_walked hmaker).2 (hlists.positive side)
  · intro side maker hmaker other hother
    obtain ⟨makerBefore, hmakerBefore, hmakerPrice⟩ := (mem_walked hmaker).1
    obtain ⟨otherBefore, hotherBefore, hotherPrice⟩ := (mem_walked hother).1
    rw [← hmakerPrice, ← hotherPrice]
    exact hlists.uncrossed side _ hmakerBefore _ hotherBefore

/-- A limit order that is not filled has emptied every price it accepts. -/
theorem walked_beyond_limit (book : Book) {taker : Order} {limitPrice : Price}
    (htype : taker.orderType = .limit limitPrice)
    (hremaining : book.resting.remaining taker ≠ 0) :
    ∀ other ∈ book.resting.walked taker taker.side.opposite,
      beyondLimit taker.side limitPrice other.1 = true := by
  intro other hother
  rw [Lists.walked_opposite, Greedy.residual_eq_nil_of_leftover hremaining,
    List.nil_append] at hother
  have hrejected := Ranked.dropWhile_rejects (accepted_closed book taker) other hother
  simpa [accepted, htype] using hrejected

theorem rest_wellFormed {lists : Lists} (hlists : lists.WellFormed) {side : Side}
    {price : Price} {order : RestingOrder} (hqty : order.qty ≠ 0)
    (hbeyond : ∀ other ∈ lists side.opposite,
      beyondLimit side price other.1 = true) :
    (lists.rest side price order).WellFormed := by
  have hother : lists.rest side price order side.opposite = lists side.opposite :=
    Function.update_of_ne side.opposite_ne _ _
  have hown : ∀ maker ∈ lists.rest side price order side,
      maker = (price, order) ∨ maker ∈ lists side := by
    intro maker hmaker
    rw [Lists.rest, Function.update_self] at hmaker
    exact mem_placeBehind.1 hmaker
  have hsides : ∀ choice : Side, choice = side ∨ choice = side.opposite := by
    intro choice
    cases choice <;> cases side <;> simp [Side.opposite]
  have hcross : ∀ maker ∈ lists.rest side price order side,
      ∀ other ∈ lists side.opposite, beyondLimit side maker.1 other.1 = true := by
    intro maker hmaker other hmem
    rcases hown maker hmaker with rfl | hbefore
    · exact hbeyond other hmem
    · exact hlists.uncrossed side maker hbefore other hmem
  constructor
  · intro choice maker hmaker
    rcases hsides choice with rfl | rfl
    · rcases hown maker hmaker with rfl | hbefore
      · exact hqty
      · exact hlists.positive _ maker hbefore
    · rw [hother] at hmaker
      exact hlists.positive _ maker hmaker
  · intro choice maker hmaker other hmem
    rcases hsides choice with rfl | rfl
    · rw [hother] at hmem
      exact hcross maker hmaker other hmem
    · rw [hother] at hmaker
      rw [Side.opposite_opposite] at hmem
      rw [beyondLimit_opposite]
      exact hcross other hmem maker hmaker

theorem submit_wellFormed {book : Book} (hbook : book.resting.WellFormed)
    (order : Order) : (book.resting.submit order).1.WellFormed := by
  have hwalked := walked_wellFormed hbook order
  cases htype : order.orderType with
  | market => simpa [Lists.submit, htype] using hwalked
  | limit limitPrice =>
      by_cases hremaining : 0 < book.resting.remaining order
      · have hpositive := (Fin.pos_iff_ne_zero).1 hremaining
        simp only [Lists.submit, htype, if_pos hremaining]
        exact rest_wellFormed hwalked hpositive
          (walked_beyond_limit book htype hpositive)
      · simpa [Lists.submit, htype, hremaining] using hwalked

theorem cancel_sublist (lists : Lists) (orderId : OrderId) (side : Side) :
    ((lists.cancel orderId).1 side).Sublist (lists side) := by
  cases side with
  | buy =>
      rw [Lists.cancel_buy]
      exact List.eraseP_sublist
  | sell =>
      rw [Lists.cancel_sell]
      split_ifs
      · exact List.Sublist.refl _
      · exact List.eraseP_sublist

theorem cancel_wellFormed {lists : Lists} (hlists : lists.WellFormed)
    (orderId : OrderId) : (lists.cancel orderId).1.WellFormed where
  positive side maker hmaker :=
    hlists.positive side maker ((cancel_sublist lists orderId side).subset hmaker)
  uncrossed side maker hmaker other hother :=
    hlists.uncrossed side maker ((cancel_sublist lists orderId side).subset hmaker)
      other ((cancel_sublist lists orderId _).subset hother)

theorem apply_wellFormed (book : Book) (hbook : book.resting.WellFormed)
    (call : Call) : (book.resting.apply call).WellFormed := by
  cases call with
  | submit order => exact submit_wellFormed hbook order
  | cancel orderId => exact cancel_wellFormed hbook orderId

theorem new_wellFormed : Book.new.resting.WellFormed where
  positive side maker hmaker := by cases side <;> simp [Book.resting, Book.new] at hmaker
  uncrossed side maker hmaker := by cases side <;> simp [Book.resting, Book.new] at hmaker

theorem mem_resting_buy {book : Book} {level : Priceᵒᵈ × List RestingOrder}
    (hlevel : level ∈ book.bids.entries) {order : RestingOrder}
    (horder : order ∈ level.2) :
    (OrderDual.ofDual level.1, order) ∈ book.resting .buy := by
  refine List.mem_map.2 ⟨(level.1, order), ?_, rfl⟩
  exact QueueMap.mem_flatten hlevel horder

theorem wellFormed_of_resting {book : Book} (hnonempty : book.NoEmptyLevel)
    (hlists : book.resting.WellFormed) : book.WellFormed where
  uncrossed bid ask hbid hask := by
    simp only [Book.bestBid, Option.map_eq_some_iff] at hbid
    obtain ⟨bidKey, hbidKey, rfl⟩ := hbid
    obtain ⟨bidQueue, _, hbids, -⟩ := QueueMap.entries_of_firstKey?_eq_some hbidKey
    obtain ⟨askQueue, _, hasks, -⟩ := QueueMap.entries_of_firstKey?_eq_some hask
    have hbidLevel : (bidKey, bidQueue) ∈ book.bids.entries := by simp [hbids]
    have haskLevel : (ask, askQueue) ∈ book.asks.entries := by simp [hasks]
    obtain ⟨bidOrder, hbidOrder⟩ :=
      List.exists_mem_of_ne_nil _ (hnonempty.bids _ hbidLevel)
    obtain ⟨askOrder, haskOrder⟩ :=
      List.exists_mem_of_ne_nil _ (hnonempty.asks _ haskLevel)
    simpa [beyondLimit] using hlists.uncrossed .buy _
      (mem_resting_buy hbidLevel hbidOrder) _
      (QueueMap.mem_flatten haskLevel haskOrder)
  bidLevels := hnonempty.bids
  askLevels := hnonempty.asks
  bidQty level hlevel order horder := Fin.pos_iff_ne_zero.2
    (hlists.positive .buy _ (mem_resting_buy hlevel horder))
  askQty level hlevel order horder := Fin.pos_iff_ne_zero.2
    (hlists.positive .sell _ (QueueMap.mem_flatten hlevel horder))

/-- Every sequence of calls on a new book ends in a well-formed book, and
neither those calls nor any further `submit` panics. -/
theorem run_new_wellFormed (calls : List Call) :
    ∃ book, Book.new.run calls = .ok book ∧ book.WellFormed ∧
      ∀ order, ∃ result, book.submit order = .ok result := by
  obtain ⟨book, hrun, hnonempty, hlists⟩ :=
    run_induction apply_wellFormed calls Book.new_noEmptyLevel new_wellFormed
  refine ⟨book, hrun, wellFormed_of_resting hnonempty hlists, fun order => ?_⟩
  obtain ⟨next, hsubmit, -⟩ := submit_refines hnonempty order
  exact ⟨_, hsubmit⟩

/-! ## Crossing orders -/

/-- A book that some sequence of calls makes out of a new one. -/
def Book.Reachable (book : Book) : Prop := ∃ calls, Book.new.run calls = .ok book

theorem Book.Reachable.invariants {book : Book} (hbook : book.Reachable) :
    book.NoEmptyLevel ∧ book.resting.WellFormed := by
  obtain ⟨calls, hrun⟩ := hbook
  obtain ⟨final, hfinal, hnonempty, hlists⟩ :=
    run_induction apply_wellFormed calls Book.new_noEmptyLevel new_wellFormed
  rw [hrun, Except.ok.injEq] at hfinal
  rw [hfinal]
  exact ⟨hnonempty, hlists⟩

theorem Book.Reachable.noEmptyLevel {book : Book} (hbook : book.Reachable) :
    book.NoEmptyLevel := hbook.invariants.1

theorem Book.Reachable.wellFormed {book : Book} (hbook : book.Reachable) :
    book.WellFormed := wellFormed_of_resting hbook.invariants.1 hbook.invariants.2

/-- A limit order at `price` meets the best opposite price. -/
def Book.Crosses (book : Book) : Side → Price → Prop
  | .buy, price => ∃ ask, book.bestAsk = some ask ∧ ask ≤ price
  | .sell, price => ∃ bid, book.bestBid = some bid ∧ price ≤ bid

theorem Book.crosses_iff (book : Book) (side : Side) (price : Price) :
    book.Crosses side price ↔ ∃ best, book.bestPrice side.opposite = some best ∧
      beyondLimit side price best = false := by
  cases side <;>
    simp [Book.Crosses, Book.bestPrice, Side.opposite, beyondLimit]

/-- A limit order has fills exactly when it crosses the book. -/
theorem fills_ne_nil_iff_crosses {book : Book} (hbook : book.NoEmptyLevel)
    {order : Order} {price : Price} (htype : order.orderType = .limit price)
    (hqty : order.qty ≠ 0) :
    book.resting.fills order ≠ [] ↔ book.Crosses order.side price := by
  have hbest := Book.head?_resting hbook order.side.opposite
  rw [book.crosses_iff, ← hbest, Lists.fills, Lists.front]
  cases hresting : book.resting order.side.opposite with
  | nil => simp [Greedy.allocate, takerFills]
  | cons maker makers =>
      cases hbeyond : beyondLimit order.side price maker.1 with
      | true => simp [accepted, htype, hbeyond, Greedy.allocate, takerFills]
      | false =>
          simp [accepted, htype, hbeyond, Greedy.allocate, takerFills, hqty]

/-! ## Conservation of quantity -/

/-- Quantity resting on one side. -/
def levelsQty {K : Type} [LinearOrder K] (levels : Levels K) : ℕ :=
  (levels.values.map fun queue =>
    (queue.map fun order => (order.qty : ℕ)).sum).sum

def Book.restingQty (book : Book) : ℕ := levelsQty book.bids + levelsQty book.asks

/-- The order a `cancel` removes: the first with the id among the bids and then
the asks. -/
def Book.findOrder (book : Book) (orderId : OrderId) : Option Maker :=
  (book.resting .buy ++ book.resting .sell).find? (Lists.hasOrder orderId)

/-- Quantities seen by the caller of a book, in unbounded integers. -/
structure Totals where
  submitted : ℕ
  filled : ℕ
  /-- Returned in `remaining_qty` by market orders. -/
  returned : ℕ
  cancelled : ℕ
  deriving DecidableEq, Repr

def Totals.zero : Totals := ⟨0, 0, 0, 0⟩

def filledQty (fills : List Fill) : ℕ := (fills.map fun fill => (fill.qty : ℕ)).sum

def returnedQty (order : Order) (result : FillResult) : ℕ :=
  match order.orderType with
  | .limit _ => 0
  | .market => result.remainingQty

/-- Apply a call and enter its quantities. -/
def Book.applyTotals (book : Book) (totals : Totals) :
    Call → Except Panic (Book × Totals)
  | .submit order =>
      (book.submit order).map fun (next, result) =>
        (next, { totals with
          submitted := totals.submitted + order.qty
          filled := totals.filled + filledQty result.fills
          returned := totals.returned + returnedQty order result })
  | .cancel orderId =>
      .ok ((book.cancel orderId).1, { totals with
        cancelled := totals.cancelled +
          (book.findOrder orderId).elim 0 fun maker => (maker.2.qty : ℕ) })

def Book.runTotals (book : Book) (totals : Totals) :
    List Call → Except Panic (Book × Totals)
  | [] => .ok (book, totals)
  | call :: calls =>
      match book.applyTotals totals call with
      | .error panic => .error panic
      | .ok (next, nextTotals) => next.runTotals nextTotals calls

/-- Quantity of a list of makers. -/
def makersQty (makers : List Maker) : ℕ :=
  (makers.map fun maker => (itemQty maker : ℕ)).sum

def Lists.qty (lists : Lists) : ℕ := makersQty (lists .buy) + makersQty (lists .sell)

theorem levelsQty_eq_flatten {K : Type} [LinearOrder K] (levels : Levels K) :
    levelsQty levels =
      ((QueueMap.flatten levels).map fun item => (itemQty item : ℕ)).sum := by
  rw [levelsQty, SortedMap.values, QueueMap.flatten, QueueMap.flattenEntries,
    List.map_flatMap, List.map_map]
  induction levels.entries with
  | nil => rfl
  | cons entry rest ih =>
      simp only [List.map_cons, List.sum_cons, List.flatMap_cons, List.sum_append,
        ih, List.map_map]
      rfl

theorem Book.restingQty_eq (book : Book) : book.restingQty = book.resting.qty := by
  rw [Book.restingQty, levelsQty_eq_flatten, levelsQty_eq_flatten, Lists.qty,
    makersQty, Book.resting, List.map_map]
  rfl

theorem Lists.qty_eq (lists : Lists) (side : Side) :
    lists.qty = makersQty (lists side) + makersQty (lists side.opposite) := by
  cases side with
  | buy => rfl
  | sell => exact Nat.add_comm _ _

@[simp]
theorem makersQty_append (left right : List Maker) :
    makersQty (left ++ right) = makersQty left + makersQty right := by
  simp [makersQty]

theorem makersQty_perm {left right : List Maker} (hperm : left.Perm right) :
    makersQty left = makersQty right := (hperm.map _).sum_eq

theorem filledQty_fills_eq_allocate (lists : Lists) (taker : Order) :
    filledQty (lists.fills taker) =
      ((Greedy.allocate itemQty taker.qty (lists.front taker)).map
        fun given => (given.2 : ℕ)).sum := by
  rw [filledQty, Lists.fills, takerFills, List.map_map]
  rfl

theorem filledQty_fills (lists : Lists) (taker : Order) :
    filledQty (lists.fills taker) + lists.remaining taker = taker.qty := by
  rw [filledQty_fills_eq_allocate]
  exact Greedy.sum_allocate_add_leftover itemQty taker.qty (lists.front taker)

/-- Walking the opposite side removes what it fills. -/
theorem walked_qty (lists : Lists) (taker : Order) :
    (lists.walked taker).qty + filledQty (lists.fills taker) = lists.qty := by
  have htotal := Greedy.sum_allocate_add_residual itemQty withItemQty
    (fun _ _ => rfl) taker.qty (lists.front taker)
  rw [Lists.qty_eq _ taker.side, Lists.qty_eq lists taker.side, Lists.walked_own,
    Lists.walked_opposite, makersQty_append, ← lists.front_append_back taker,
    makersQty_append, filledQty_fills_eq_allocate]
  simp only [makersQty] at htotal ⊢
  omega

theorem rest_qty (lists : Lists) (side : Side) (price : Price)
    (order : RestingOrder) :
    (lists.rest side price order).qty = lists.qty + order.qty := by
  have hperm := placeBehind_perm side price order (lists side)
  rw [Lists.qty_eq _ side, Lists.qty_eq lists side, Lists.rest, Function.update_self,
    Function.update_of_ne side.opposite_ne, makersQty_perm hperm]
  simp only [makersQty, List.map_cons, List.sum_cons, itemQty]
  omega

/-- The quantity of a submitted order is filled, returned or resting. -/
theorem submit_qty (lists : Lists) (order : Order) :
    (lists.submit order).1.qty + 2 * filledQty (lists.submit order).2.fills +
      returnedQty order (lists.submit order).2 = lists.qty + order.qty := by
  have hfilled := filledQty_fills lists order
  have hwalked := walked_qty lists order
  cases htype : order.orderType with
  | market =>
      simp only [Lists.submit, returnedQty, htype]
      omega
  | limit limitPrice =>
      by_cases hremaining : 0 < lists.remaining order
      · simp only [Lists.submit, returnedQty, htype, if_pos hremaining, rest_qty]
        omega
      · have hzero : (lists.remaining order : ℕ) = 0 := by
          simpa [← U64.eq_zero_iff_val] using hremaining
        simp only [Lists.submit, returnedQty, htype, if_neg hremaining]
        omega

theorem makersQty_eraseP (isOrder : Maker → Bool) (makers : List Maker) :
    makersQty (makers.eraseP isOrder) +
      (makers.find? isOrder).elim 0 (fun maker => (maker.2.qty : ℕ)) =
        makersQty makers := by
  induction makers with
  | nil => rfl
  | cons maker rest ih =>
      cases hmaker : isOrder maker with
      | true =>
          simp only [List.eraseP_cons_of_pos hmaker, List.find?_cons_of_pos hmaker,
            Option.elim_some, makersQty, List.map_cons, List.sum_cons, itemQty]
          omega
      | false =>
          have hneg : ¬ isOrder maker = true := by simp [hmaker]
          simp only [List.eraseP_cons_of_neg hneg, List.find?_cons_of_neg hneg,
            makersQty, List.map_cons, List.sum_cons] at ih ⊢
          omega

/-- Cancelling removes exactly the order it finds. -/
theorem cancel_qty (lists : Lists) (orderId : OrderId) :
    (lists.cancel orderId).1.qty +
      ((lists .buy ++ lists .sell).find? (Lists.hasOrder orderId)).elim 0
        (fun maker => (maker.2.qty : ℕ)) = lists.qty := by
  have hbuy := makersQty_eraseP (Lists.hasOrder orderId) (lists .buy)
  have hsell := makersQty_eraseP (Lists.hasOrder orderId) (lists .sell)
  rw [Lists.qty, Lists.qty, Lists.cancel_buy, Lists.cancel_sell, List.find?_append]
  cases hfound : (lists .buy).find? (Lists.hasOrder orderId) with
  | some maker =>
      have hany : (lists .buy).any (Lists.hasOrder orderId) = true :=
        List.any_eq_true.2
          ⟨maker, List.mem_of_find?_eq_some hfound, List.find?_some hfound⟩
      simp only [hfound, Option.elim_some] at hbuy
      simp only [hany, if_true, Option.some_or, Option.elim_some]
      omega
  | none =>
      have hnone : ¬ (lists .buy).any (Lists.hasOrder orderId) = true := by
        simpa using hfound
      simp only [hfound, Option.elim_none] at hbuy
      rw [if_neg hnone, Option.none_or]
      omega

def Totals.Balanced (totals : Totals) (resting : ℕ) : Prop :=
  totals.submitted =
    2 * totals.filled + totals.returned + resting + totals.cancelled

/-- One call keeps the totals balanced. -/
theorem applyTotals_balanced {book : Book} (hbook : book.NoEmptyLevel)
    {totals : Totals} (hbalanced : totals.Balanced book.restingQty)
    (call : Call) :
    ∃ next nextTotals, book.applyTotals totals call = .ok (next, nextTotals) ∧
      book.apply call = .ok next ∧ next.NoEmptyLevel ∧
      nextTotals.Balanced next.restingQty := by
  rw [Totals.Balanced, Book.restingQty_eq] at hbalanced
  cases call with
  | submit order =>
      obtain ⟨next, hsubmit, hnonempty, hresting⟩ := submit_refines hbook order
      have hqty := submit_qty book.resting order
      refine ⟨next, _, by rw [Book.applyTotals, hsubmit]; rfl,
        by rw [Book.apply, hsubmit]; rfl, hnonempty, ?_⟩
      simp only [Totals.Balanced, Book.restingQty_eq, hresting]
      omega
  | cancel orderId =>
      have hqty := cancel_qty book.resting orderId
      refine ⟨_, _, rfl, rfl, cancel_noEmptyLevel hbook orderId, ?_⟩
      simp only [Totals.Balanced, Book.restingQty_eq, Book.findOrder,
        (cancel_refines book orderId).1]
      omega

theorem runTotals_balanced (calls : List Call) {book : Book}
    (hbook : book.NoEmptyLevel) {totals : Totals}
    (hbalanced : totals.Balanced book.restingQty) :
    ∃ final finalTotals, book.runTotals totals calls = .ok (final, finalTotals) ∧
      book.run calls = .ok final ∧ finalTotals.Balanced final.restingQty := by
  induction calls generalizing book totals with
  | nil => exact ⟨book, totals, rfl, rfl, hbalanced⟩
  | cons call calls ih =>
      obtain ⟨next, nextTotals, htotals, happly, hnonempty, hnext⟩ :=
        applyTotals_balanced hbook hbalanced call
      obtain ⟨final, finalTotals, hrunTotals, hrun, hfinal⟩ := ih hnonempty hnext
      exact ⟨final, finalTotals, by rw [Book.runTotals, htotals]; exact hrunTotals,
        by rw [Book.run, happly]; exact hrun, hfinal⟩

/-- Over every run from a new book, the submitted quantity is twice the filled
quantity plus what market orders got back, what rests and what was cancelled. -/
theorem run_new_conserves_quantity (calls : List Call) :
    ∃ book totals,
      Book.new.runTotals Totals.zero calls = .ok (book, totals) ∧
      Book.new.run calls = .ok book ∧
      totals.submitted = 2 * totals.filled + totals.returned +
        book.restingQty + totals.cancelled :=
  runTotals_balanced calls Book.new_noEmptyLevel rfl

end OpenHl.Clob
