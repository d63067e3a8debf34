import OpenHl.Clob.Cancel

/-!
# The quantity at the best price

The best level of a side is reported with the sum of its orders.  The orders are words and
so is the sum, which therefore can overflow.

`Book.bestWithQty_reports_iff`: the report is right exactly if the sum is a word.
`run_levelsFit`: this is so in every run in which no order comes to rest at a price whose
total it would take out of range.
-/

namespace OpenHl.Clob

open Machine

section BestWithQty

variable {K : Type} [LinearOrder K]

/-- The first level and the sum of its queue. -/
def bestWithQty (checks : U64.OverflowChecks) (priceOf : K → Price) (levels : Levels K) :
    Checked (Option (Price × Qty)) :=
  match levels.entries.head? with
  | none => .ok none
  | some (key, queue) =>
      (U64.sum checks (queue.map RestingOrder.qty)).map fun qty => some (priceOf key, qty)

theorem bestWithQty_cases (checks : U64.OverflowChecks) (priceOf : K → Price)
    (levels : Levels K) :
    (levels.firstKey? = none ∧ bestWithQty checks priceOf levels = .ok none) ∨
      ∃ key queue, levels.firstKey? = some key ∧ levels.get? key = some queue ∧
        bestWithQty checks priceOf levels =
          (U64.sum checks (queue.map RestingOrder.qty)).map
            fun qty => some (priceOf key, qty) := by
  cases hfirst : levels.firstKey? with
  | none =>
      left
      rw [bestWithQty, QueueMap.entries_of_firstKey?_eq_none hfirst]
      exact ⟨rfl, rfl⟩
  | some key =>
      right
      obtain ⟨queue, rest, hentries, hget⟩ := QueueMap.entries_of_firstKey?_eq_some hfirst
      refine ⟨key, queue, rfl, hget, ?_⟩
      rw [bestWithQty, hentries]
      rfl

end BestWithQty

namespace Book

def bestBidWithQty (checks : U64.OverflowChecks) (book : Book) :
    Checked (Option (Price × Qty)) :=
  Clob.bestWithQty checks OrderDual.ofDual book.bids

def bestAskWithQty (checks : U64.OverflowChecks) (book : Book) :
    Checked (Option (Price × Qty)) :=
  Clob.bestWithQty checks id book.asks

def bestWithQty (checks : U64.OverflowChecks) (book : Book) :
    Side → Checked (Option (Price × Qty))
  | .buy => book.bestBidWithQty checks
  | .sell => book.bestAskWithQty checks

end Book

/-- The quantity of a queue, without bounds. -/
def queueQty (queue : List RestingOrder) : ℕ :=
  (queue.map fun order => (order.qty : ℕ)).sum

namespace Book

/-- The level at the best price of a side. -/
def BestLevel (book : Book) (side : Side) (price : Price) (queue : List RestingOrder) :
    Prop :=
  book.bestPrice side = some price ∧ book.level? side price = some queue

/-- The best price and the exact quantity resting there, or nothing if there is no best
price. -/
def Reports (book : Book) (side : Side) : Option (Price × Qty) → Prop
  | none => book.bestPrice side = none
  | some (price, qty) =>
      ∃ queue, book.BestLevel side price queue ∧ (qty : ℕ) = queueQty queue

/-- The quantity at the best price is a word. -/
def BestFits (book : Book) (side : Side) : Prop :=
  ∀ price queue, book.BestLevel side price queue → queueQty queue < 2 ^ 64

theorem bestWithQty_cases (checks : U64.OverflowChecks) (book : Book) (side : Side) :
    (book.bestPrice side = none ∧ book.bestWithQty checks side = .ok none) ∨
      ∃ price queue, book.BestLevel side price queue ∧
        book.bestWithQty checks side =
          (U64.sum checks (queue.map RestingOrder.qty)).map fun qty => some (price, qty) := by
  cases side with
  | buy =>
      obtain ⟨hfirst, hnone⟩ | ⟨key, queue, hfirst, hget, hsome⟩ :=
        Clob.bestWithQty_cases checks OrderDual.ofDual book.bids
      · exact Or.inl ⟨by rw [bestPrice, bestBid, hfirst]; rfl, hnone⟩
      · exact Or.inr ⟨OrderDual.ofDual key, queue,
          ⟨by rw [bestPrice, bestBid, hfirst]; rfl, hget⟩, hsome⟩
  | sell =>
      obtain ⟨hfirst, hnone⟩ | ⟨key, queue, hfirst, hget, hsome⟩ :=
        Clob.bestWithQty_cases checks id book.asks
      · exact Or.inl ⟨hfirst, hnone⟩
      · exact Or.inr ⟨key, queue, ⟨hfirst, hget⟩, hsome⟩

theorem BestLevel.unique {book : Book} {side : Side} {price other : Price}
    {queue otherQueue : List RestingOrder} (hlevel : book.BestLevel side price queue)
    (hother : book.BestLevel side other otherQueue) :
    other = price ∧ otherQueue = queue := by
  obtain ⟨hprice, hqueue⟩ := hlevel
  obtain ⟨hprice', hqueue'⟩ := hother
  have hsame : other = price := Option.some.inj (hprice'.symm.trans hprice)
  rw [hsame] at hqueue'
  exact ⟨hsame, Option.some.inj (hqueue'.symm.trans hqueue)⟩

/-- In a build with overflow checks and in one without: the best price is reported with
the quantity resting there exactly if that quantity is a word. -/
theorem bestWithQty_reports_iff (checks : U64.OverflowChecks) (book : Book) (side : Side) :
    (∃ quote, book.bestWithQty checks side = .ok quote ∧ book.Reports side quote) ↔
      book.BestFits side := by
  obtain ⟨hnone, hreport⟩ | ⟨price, queue, hlevel, hreport⟩ :=
    book.bestWithQty_cases checks side
  · refine iff_of_true ⟨none, hreport, hnone⟩ ?_
    rintro price queue ⟨hprice, -⟩
    rw [hnone] at hprice
    cases hprice
  · have hexact := U64.sum_exact_iff checks (queue.map RestingOrder.qty)
    rw [List.map_map] at hexact
    change _ ↔ queueQty queue < 2 ^ 64 at hexact
    have hfits : book.BestFits side ↔ queueQty queue < 2 ^ 64 := by
      constructor
      · intro hfits
        exact hfits price queue hlevel
      · intro hrange other otherQueue hother
        rwa [(hlevel.unique hother).2]
    rw [hfits, ← hexact, hreport]
    constructor
    · rintro ⟨quote, hquote, hreports⟩
      cases hsum : U64.sum checks (queue.map RestingOrder.qty) with
      | error fault => rw [hsum] at hquote; cases hquote
      | ok total =>
          rw [hsum] at hquote
          obtain rfl := Except.ok.inj hquote
          obtain ⟨otherQueue, hother, hqty⟩ := hreports
          rw [(hlevel.unique hother).2] at hqty
          exact ⟨total, rfl, hqty⟩
    · rintro ⟨total, hsum, hqty⟩
      exact ⟨some (price, total), by rw [hsum]; rfl, queue, hlevel, hqty⟩

end Book

/-! ## Runs -/

/-- The quantity resting at a price. -/
def Book.levelQty (book : Book) (side : Side) (price : Price) : ℕ :=
  queueQty ((book.level? side price).getD [])

/-- What a call lets rest fits on top of what rests at its price. -/
def Book.RestFits (book : Book) : Call → Prop
  | .cancel _ => True
  | .submit order => ∀ limitPrice, order.orderType = .limit limitPrice →
      (book.resting.remaining order : ℕ) + book.levelQty order.side limitPrice < 2 ^ 64

/-- Every call of a run lets no more rest than fits. -/
def Book.StepsFit : Book → List Call → Prop
  | _, [] => True
  | book, call :: calls =>
      book.RestFits call ∧ ∀ next, book.apply call = .ok next → next.StepsFit calls

/-- The quantity at one price of a side. -/
def priceQty (makers : List Maker) (price : Price) : ℕ :=
  makersQty (makers.filter fun maker => maker.1 = price)

/-- The quantity at every price is a word. -/
def Lists.LevelsFit (lists : Lists) : Prop :=
  ∀ side price, priceQty (lists side) price < 2 ^ 64

theorem new_levelsFit : Book.new.resting.LevelsFit := by
  intro side price
  cases side <;> exact Nat.two_pow_pos 64

theorem Book.levelQty_eq {book : Book} (hbook : book.NoEmptyLevel) (side : Side)
    (price : Price) : book.levelQty side price = priceQty (book.resting side) price := by
  rw [Book.levelQty, book.level?_eq_queueOf hbook, QueueMap.queueOf_getD, queueQty,
    List.map_map]
  rfl

theorem Book.bestFits_of_levelsFit {book : Book} (hbook : book.NoEmptyLevel)
    (hfits : book.resting.LevelsFit) (side : Side) : book.BestFits side := by
  rintro price queue ⟨-, hlevel⟩
  have hqty := hfits side price
  rw [← Book.levelQty_eq hbook, Book.levelQty, hlevel] at hqty
  exact hqty

/-- Fewer orders hold less at every price. -/
theorem priceQty_le_of_sublist {left right : List Maker} (hsub : left.Sublist right)
    (price : Price) : priceQty left price ≤ priceQty right price := by
  apply List.Sublist.sum_le_sum ((hsub.filter _).map _)
  intro qty _
  exact Nat.zero_le qty

theorem walked_priceQty_le (lists : Lists) (taker : Order) (side : Side) (price : Price) :
    priceQty (lists.walked taker side) price ≤ priceQty (lists side) price := by
  rcases taker.side.eq_or_eq_opposite side with rfl | rfl
  · rw [Lists.walked_own]
  · have hresidual := @Greedy.sum_filter_residual_le Maker itemQty withItemQty
      (fun maker => maker.1 = price) (fun _ _ => rfl) (fun _ _ => rfl) taker.qty
      (lists.front taker)
    rw [Lists.walked_opposite, priceQty, priceQty, ← lists.front_append_back taker,
      List.filter_append, List.filter_append, makersQty_append, makersQty_append]
    exact Nat.add_le_add_right hresidual _

theorem walked_levelsFit {lists : Lists} (hlists : lists.LevelsFit) (taker : Order) :
    (lists.walked taker).LevelsFit := fun side price =>
  (walked_priceQty_le lists taker side price).trans_lt (hlists side price)

theorem rest_levelsFit {lists : Lists} (hlists : lists.LevelsFit) {side : Side}
    {price : Price} {order : RestingOrder}
    (hfits : (order.qty : ℕ) + priceQty (lists side) price < 2 ^ 64) :
    (lists.rest side price order).LevelsFit := by
  intro other otherPrice
  by_cases hother : other = side
  · subst hother
    have hperm := (placeBehind_perm other price order (lists other)).filter
      fun maker => decide (maker.1 = otherPrice)
    rw [Lists.rest, Function.update_self, priceQty, makersQty_perm hperm]
    by_cases hprice : price = otherPrice
    · subst hprice
      rw [List.filter_cons_of_pos (by simp)]
      exact hfits
    · rw [List.filter_cons_of_neg (by simpa using hprice)]
      exact hlists other otherPrice
  · rw [Lists.rest, Function.update_of_ne hother]
    exact hlists other otherPrice

theorem submit_levelsFit {lists : Lists} (hlists : lists.LevelsFit) {order : Order}
    (hfits : ∀ limitPrice, order.orderType = .limit limitPrice →
      (lists.remaining order : ℕ) + priceQty (lists order.side) limitPrice < 2 ^ 64) :
    (lists.submit order).1.LevelsFit := by
  have hwalked := walked_levelsFit hlists order
  cases htype : order.orderType with
  | market => simpa [Lists.submit, htype] using hwalked
  | limit limitPrice =>
      by_cases hremaining : 0 < lists.remaining order
      · simp only [Lists.submit, htype, if_pos hremaining]
        apply rest_levelsFit hwalked
        rw [Lists.walked_own]
        exact hfits limitPrice htype
      · simpa [Lists.submit, htype, hremaining] using hwalked

theorem cancel_levelsFit {lists : Lists} (hlists : lists.LevelsFit) (orderId : OrderId) :
    (lists.cancel orderId).1.LevelsFit := fun side price =>
  (priceQty_le_of_sublist (cancel_sublist lists orderId side) price).trans_lt
    (hlists side price)

/-- One call, by its kind: cancelling and walking only take away, and what rests was asked
to fit. -/
theorem apply_levelsFit {book : Book} (hbook : book.NoEmptyLevel)
    (hlists : book.resting.LevelsFit) {call : Call} (hfits : book.RestFits call) :
    (book.resting.apply call).LevelsFit := by
  cases call with
  | cancel orderId => exact cancel_levelsFit hlists orderId
  | submit order =>
      apply submit_levelsFit hlists
      intro limitPrice htype
      rw [← Book.levelQty_eq hbook]
      exact hfits limitPrice htype

theorem run_levelsFit {calls : List Call} {book final : Book} (hbook : book.NoEmptyLevel)
    (hlists : book.resting.LevelsFit) (hsteps : book.StepsFit calls)
    (hrun : book.run calls = .ok final) :
    final.NoEmptyLevel ∧ final.resting.LevelsFit := by
  induction calls generalizing book with
  | nil =>
      obtain rfl := Except.ok.inj hrun
      exact ⟨hbook, hlists⟩
  | cons call calls ih =>
      obtain ⟨next, hnext, hnonempty, hresting⟩ := apply_refines hbook call
      rw [Book.run, hnext] at hrun
      apply ih hnonempty ?_ (hsteps.2 next hnext) hrun
      rw [hresting]
      exact apply_levelsFit hbook hlists hsteps.1

end OpenHl.Clob
