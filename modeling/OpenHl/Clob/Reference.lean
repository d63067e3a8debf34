import OpenHl.Clob.Invariant
import Mathlib.Data.List.Sort

/-!
# The reference price-time matcher

The reference book is a bag of resting orders, each with the number of its
arrival.  A taker lists the orders of the opposite side by price and arrival,
keeps those whose price is at least as good as its limit and consumes them from
the front; a limit remainder gets the next arrival number.  There are no price
levels and no loops over them.

`submit_eq_reference`: on every reachable book the engine returns the fills of
the reference matcher and leaves its book.
-/

namespace OpenHl.Clob

open Machine

/-- A resting order of the reference book. -/
structure Entry where
  arrival : ℕ
  side : Side
  price : Price
  order : RestingOrder
  deriving DecidableEq, Repr

namespace Entry

def maker (entry : Entry) : Maker := (entry.price, entry.order)

def qty (entry : Entry) : Qty := entry.order.qty

def withQty (entry : Entry) (qty : Qty) : Entry :=
  { entry with order := { entry.order with qty := qty } }

/-- Best price first and, within a price, oldest first. -/
def Before (side : Side) (first second : Entry) : Prop :=
  side.NotWorse first.price second.price ∧
    (first.price = second.price → first.arrival ≤ second.arrival)

instance (side : Side) : DecidableRel (Before side) := fun first second =>
  inferInstanceAs (Decidable (side.NotWorse first.price second.price ∧
    (first.price = second.price → first.arrival ≤ second.arrival)))

end Entry

structure RefBook where
  /-- Orders that have come to rest so far. -/
  arrivals : ℕ
  entries : List Entry
  deriving DecidableEq, Repr

/-- Whether a price is at least as good as a taker's limit. -/
def atLeastAsGood (taker : Order) (price : Price) : Bool :=
  match taker.orderType, taker.side with
  | .market, _ => true
  | .limit limitPrice, .buy => decide (price ≤ limitPrice)
  | .limit limitPrice, .sell => decide (limitPrice ≤ price)

namespace RefBook

def new : RefBook := ⟨0, []⟩

def onSide (ref : RefBook) (side : Side) : List Entry :=
  ref.entries.filter fun entry => entry.side = side

/-- The orders of a side by price and then arrival. -/
def listing (ref : RefBook) (side : Side) : List Entry :=
  (ref.onSide side).insertionSort (Entry.Before side)

def eligible (ref : RefBook) (taker : Order) : List Entry :=
  (ref.listing taker.side.opposite).filter fun entry =>
    atLeastAsGood taker entry.price

def ineligible (ref : RefBook) (taker : Order) : List Entry :=
  (ref.listing taker.side.opposite).filter fun entry =>
    !atLeastAsGood taker entry.price

def fills (ref : RefBook) (taker : Order) : List Fill :=
  (Greedy.allocate Entry.qty taker.qty (ref.eligible taker)).map fun given =>
    fillAgainst taker given.1.price given.1.order given.2

def remaining (ref : RefBook) (taker : Order) : Qty :=
  Greedy.leftover Entry.qty taker.qty (ref.eligible taker)

/-- The orders after the taker has consumed the eligible ones. -/
def consumed (ref : RefBook) (taker : Order) : List Entry :=
  ref.onSide taker.side ++
    Greedy.residual Entry.qty Entry.withQty taker.qty (ref.eligible taker) ++
      ref.ineligible taker

/-- Let an order rest with the next arrival number. -/
def arrive (ref : RefBook) (side : Side) (price : Price)
    (order : RestingOrder) : RefBook where
  arrivals := ref.arrivals + 1
  entries := ref.entries ++
    [{ arrival := ref.arrivals, side := side, price := price, order := order }]

def submit (ref : RefBook) (taker : Order) : RefBook × FillResult :=
  let rested := { ref with entries := ref.consumed taker }
  match taker.orderType with
  | .market =>
      (rested, { fills := ref.fills taker, remainingQty := ref.remaining taker })
  | .limit price =>
      (if 0 < ref.remaining taker then
          rested.arrive taker.side price
            { id := taker.id, account := taker.account,
              qty := ref.remaining taker }
        else rested,
        { fills := ref.fills taker, remainingQty := 0 })

/-- The first order with the id among the bids and then the asks. -/
def findOrder (ref : RefBook) (orderId : OrderId) : Option Entry :=
  (ref.listing .buy ++ ref.listing .sell).find? fun entry =>
    entry.order.id = orderId

def cancel (ref : RefBook) (orderId : OrderId) : RefBook :=
  match ref.findOrder orderId with
  | none => ref
  | some found =>
      { ref with
        entries := ref.entries.filter fun entry =>
          entry.arrival ≠ found.arrival }

def apply (ref : RefBook) : Call → RefBook
  | .submit order => (ref.submit order).1
  | .cancel orderId => ref.cancel orderId

def run (ref : RefBook) (calls : List Call) : RefBook := calls.foldl apply ref

/-- The order book that holds the orders of a reference book. -/
def toBook (ref : RefBook) : Book where
  bids := QueueMap.ofList ((ref.listing .buy).map fun entry =>
    (OrderDual.toDual entry.price, entry.order))
  asks := QueueMap.ofList ((ref.listing .sell).map fun entry =>
    (entry.price, entry.order))

end RefBook

/-! ## Listings -/

instance (side : Side) : Std.Total (Entry.Before side) where
  total first second := by
    by_cases hprice : first.price = second.price
    · simp only [Entry.Before, hprice, side.notWorse_refl, true_and, forall_const]
      exact le_total _ _
    · have hother : second.price ≠ first.price := Ne.symm hprice
      simpa [Entry.Before, hprice, hother] using
        side.notWorse_total first.price second.price

instance (side : Side) : IsTrans Entry (Entry.Before side) where
  trans first second third hfirst hsecond := by
    refine ⟨hfirst.1.trans hsecond.1, fun hprice => ?_⟩
    have hequal : first.price = second.price :=
      Side.notWorse_antisymm hfirst.1 (hprice ▸ hsecond.1)
    exact (hfirst.2 hequal).trans (hsecond.2 (hequal.symm.trans hprice))

/-- Arrival numbers tell the orders apart. -/
structure RefBook.Numbered (ref : RefBook) : Prop where
  distinct : (ref.entries.map Entry.arrival).Nodup
  below : ∀ entry ∈ ref.entries, entry.arrival < ref.arrivals

theorem RefBook.listing_perm (ref : RefBook) (side : Side) :
    (ref.listing side).Perm (ref.onSide side) :=
  List.perm_insertionSort _ _

theorem RefBook.listing_sorted (ref : RefBook) (side : Side) :
    (ref.listing side).Pairwise (Entry.Before side) :=
  List.pairwise_insertionSort _ _

theorem RefBook.mem_listing {ref : RefBook} {side : Side} {entry : Entry} :
    entry ∈ ref.listing side ↔ entry ∈ ref.entries ∧ entry.side = side := by
  rw [(ref.listing_perm side).mem_iff, RefBook.onSide, List.mem_filter]
  simp

/-- A listing is the only ordered arrangement of the orders of its side. -/
theorem RefBook.Numbered.listing_eq {ref : RefBook} (hnumbered : ref.Numbered)
    {side : Side} {list : List Entry} (hperm : list.Perm (ref.onSide side))
    (hsorted : list.Pairwise (Entry.Before side)) : ref.listing side = list := by
  refine List.Perm.eq_of_pairwise ?_ (ref.listing_sorted side) hsorted
    ((ref.listing_perm side).trans hperm.symm)
  intro first second hfirst hsecond hbefore hafter
  have hprice := Side.notWorse_antisymm hbefore.1 hafter.1
  have harrival := le_antisymm (hbefore.2 hprice) (hafter.2 hprice.symm)
  have hmem := (RefBook.mem_listing.1 hfirst).1
  have hmem' : second ∈ ref.entries :=
    (List.mem_filter.1 (hperm.mem_iff.1 hsecond)).1
  exact List.inj_on_of_nodup_map hnumbered.distinct hmem hmem' harrival

/-! ## Representation -/

/-- A book holds the orders of a reference book. -/
structure Represents (ref : RefBook) (book : Book) : Prop where
  numbered : ref.Numbered
  noEmptyLevel : book.NoEmptyLevel
  resting : ∀ side, book.resting side = (ref.listing side).map Entry.maker

theorem Represents.eq_toBook {ref : RefBook} {book : Book}
    (hrep : Represents ref book) : book = ref.toBook := by
  have hbids : QueueMap.flatten book.bids = (ref.listing .buy).map fun entry =>
      (OrderDual.toDual entry.price, entry.order) := by
    apply List.map_injective_iff.2 ofDualKey_injective
    rw [List.map_map]
    exact hrep.resting .buy
  have hasks : QueueMap.flatten book.asks = (ref.listing .sell).map fun entry =>
      (entry.price, entry.order) := hrep.resting .sell
  apply Book.ext
  · rw [RefBook.toBook, ← hbids, QueueMap.ofList_flatten hrep.noEmptyLevel.bids]
  · rw [RefBook.toBook, ← hasks, QueueMap.ofList_flatten hrep.noEmptyLevel.asks]

theorem new_represents : Represents RefBook.new Book.new where
  numbered := ⟨List.nodup_nil, by simp [RefBook.new]⟩
  noEmptyLevel := Book.new_noEmptyLevel
  resting side := by cases side <;> rfl

theorem atLeastAsGood_eq_accepted (taker : Order) (price : Price) :
    atLeastAsGood taker price = accepted taker price := by
  cases htype : taker.orderType <;> cases hside : taker.side <;>
    simp [atLeastAsGood, accepted, beyondLimit, htype, hside, ← decide_not]

namespace Represents

variable {ref : RefBook} {book : Book}

theorem front_eq (hrep : Represents ref book) (taker : Order) :
    book.resting.front taker = (ref.eligible taker).map Entry.maker := by
  rw [Lists.front, Ranked.takeWhile_eq_filter (accepted_closed book taker),
    hrep.resting, List.filter_map, RefBook.eligible]
  simp only [atLeastAsGood_eq_accepted]
  rfl

theorem back_eq (hrep : Represents ref book) (taker : Order) :
    book.resting.back taker = (ref.ineligible taker).map Entry.maker := by
  rw [Lists.back, Ranked.dropWhile_eq_filter_not (accepted_closed book taker),
    hrep.resting, List.filter_map, RefBook.ineligible]
  simp only [atLeastAsGood_eq_accepted]
  rfl

theorem fills_eq (hrep : Represents ref book) (taker : Order) :
    book.resting.fills taker = ref.fills taker := by
  rw [Lists.fills, hrep.front_eq, Greedy.allocate_map Entry.qty itemQty Entry.maker
    fun _ => rfl, takerFills, List.map_map]
  rfl

theorem remaining_eq (hrep : Represents ref book) (taker : Order) :
    book.resting.remaining taker = ref.remaining taker := by
  rw [Lists.remaining, hrep.front_eq]
  exact Greedy.leftover_map Entry.qty itemQty Entry.maker (fun _ => rfl) _ _

/-- The eligible orders stand in front of the others. -/
theorem eligible_append (hrep : Represents ref book) (taker : Order) :
    ref.eligible taker ++ ref.ineligible taker =
      ref.listing taker.side.opposite := by
  have hclosed := accepted_closed book taker
  rw [hrep.resting, List.pairwise_map] at hclosed
  have hfront := Ranked.takeWhile_eq_filter hclosed
  have hback := Ranked.dropWhile_eq_filter_not hclosed
  simp only [RefBook.eligible, RefBook.ineligible, atLeastAsGood_eq_accepted]
  exact (congrArg₂ (· ++ ·) hfront hback).symm.trans
    List.takeWhile_append_dropWhile

end Represents

/-! ## Submitting -/

/-- What the order of a listing depends on. -/
def Entry.rank (entry : Entry) : Price × ℕ := (entry.price, entry.arrival)

/-- Dropping entries and changing their quantities keeps a list ordered. -/
theorem pairwise_before_of_rank_sublist {side : Side} {left right : List Entry}
    (hsub : (left.map Entry.rank).Sublist (right.map Entry.rank))
    (hsorted : right.Pairwise (Entry.Before side)) :
    left.Pairwise (Entry.Before side) := by
  let before : Price × ℕ → Price × ℕ → Prop := fun first second =>
    side.NotWorse first.1 second.1 ∧ (first.1 = second.1 → first.2 ≤ second.2)
  have hranks : (right.map Entry.rank).Pairwise before :=
    List.pairwise_map.2 hsorted
  have hleft : (left.map Entry.rank).Pairwise before := hranks.sublist hsub
  rw [List.pairwise_map] at hleft
  exact hleft

namespace RefBook

theorem onSide_append_perm (ref : RefBook) (side : Side) :
    (ref.onSide side ++ ref.onSide side.opposite).Perm ref.entries := by
  have hopposite : ∀ entry : Entry,
      decide (entry.side = side.opposite) = !decide (entry.side = side) := by
    intro entry
    cases entry.side <;> cases side <;> rfl
  simp only [onSide, hopposite]
  exact List.filter_append_perm _ _

theorem eligible_perm (ref : RefBook) (taker : Order) :
    (ref.eligible taker ++ ref.ineligible taker).Perm
      (ref.onSide taker.side.opposite) :=
  (List.filter_append_perm _ _).trans (ref.listing_perm _)

/-- Consuming keeps ranks: only quantities change and only orders that are
used up disappear. -/
theorem residual_rank_sublist (ref : RefBook) (taker : Order) :
    ((Greedy.residual Entry.qty Entry.withQty taker.qty (ref.eligible taker) ++
      ref.ineligible taker).map Entry.rank).Sublist
        ((ref.eligible taker ++ ref.ineligible taker).map Entry.rank) := by
  rw [List.map_append, List.map_append]
  have hresidual : ((Greedy.residual Entry.qty Entry.withQty taker.qty
      (ref.eligible taker)).map Entry.rank).Sublist
        ((ref.eligible taker).map Entry.rank) :=
    Greedy.residual_map_sublist Entry.rank (by intros; rfl) _ _
  exact hresidual.append_right _

theorem consumed_arrivals (ref : RefBook) (taker : Order) :
    ∃ before, before.Perm (ref.entries.map Entry.arrival) ∧
      ((ref.consumed taker).map Entry.arrival).Sublist before := by
  refine ⟨(ref.onSide taker.side ++
    (ref.eligible taker ++ ref.ineligible taker)).map Entry.arrival, ?_, ?_⟩
  · exact (((ref.eligible_perm taker).append_left _).trans
      (ref.onSide_append_perm _)).map _
  · have hrank := (ref.residual_rank_sublist taker).map Prod.snd
    rw [List.map_map, List.map_map] at hrank
    have hall := hrank.append_left ((ref.onSide taker.side).map Entry.arrival)
    simp only [consumed, List.append_assoc, List.map_append] at hall ⊢
    exact hall

theorem side_of_mem_consumed {ref : RefBook} {taker : Order} {entry : Entry}
    (hmem : entry ∈ Greedy.residual Entry.qty Entry.withQty taker.qty
      (ref.eligible taker) ++ ref.ineligible taker) :
    entry.side = taker.side.opposite := by
  have hlisted : ∀ other ∈ ref.eligible taker ++ ref.ineligible taker,
      other.side = taker.side.opposite := by
    intro other hother
    have honSide := (ref.eligible_perm taker).mem_iff.1 hother
    simpa using (List.mem_filter.1 honSide).2
  rw [List.mem_append] at hmem
  rcases hmem with hresidual | hineligible
  · rcases Greedy.mem_residual hresidual with hsame | ⟨before, hbefore, _, _, rfl⟩
    · exact hlisted entry (List.mem_append_left _ hsame)
    · exact hlisted before (List.mem_append_left _ hbefore)
  · exact hlisted entry (List.mem_append_right _ hineligible)

theorem consumed_onSide_own (ref : RefBook) (taker : Order) :
    (ref.consumed taker).filter (fun entry => entry.side = taker.side) =
      ref.onSide taker.side := by
  have hrest : (Greedy.residual Entry.qty Entry.withQty taker.qty
      (ref.eligible taker) ++ ref.ineligible taker).filter
        (fun entry => entry.side = taker.side) = [] := by
    rw [List.filter_eq_nil_iff]
    intro entry hentry
    simp [side_of_mem_consumed hentry]
  rw [consumed, List.append_assoc, List.filter_append, hrest, List.append_nil]
  simp [onSide]

theorem consumed_onSide_opposite (ref : RefBook) (taker : Order) :
    (ref.consumed taker).filter (fun entry => entry.side = taker.side.opposite) =
      Greedy.residual Entry.qty Entry.withQty taker.qty (ref.eligible taker) ++
        ref.ineligible taker := by
  rw [consumed, List.append_assoc, List.filter_append, List.filter_eq_nil_iff.2,
    List.nil_append, List.filter_eq_self.2]
  · intro entry hentry
    simp [side_of_mem_consumed hentry]
  · intro entry hentry
    have hside : entry.side = taker.side := by
      simpa using (List.mem_filter.1 hentry).2
    simp [hside, taker.side.opposite_ne.symm]

theorem consumed_below {ref : RefBook} (hnumbered : ref.Numbered)
    (taker : Order) : ∀ entry ∈ ref.consumed taker, entry.arrival < ref.arrivals := by
  intro entry hentry
  obtain ⟨before, hperm, hsub⟩ := ref.consumed_arrivals taker
  have hmem := hperm.mem_iff.1 (hsub.subset (List.mem_map_of_mem hentry))
  obtain ⟨other, hother, harrival⟩ := List.mem_map.1 hmem
  rw [← harrival]
  exact hnumbered.below other hother

theorem consumed_numbered {ref : RefBook} (hnumbered : ref.Numbered)
    (taker : Order) :
    ({ ref with entries := ref.consumed taker } : RefBook).Numbered where
  distinct := by
    obtain ⟨before, hperm, hsub⟩ := ref.consumed_arrivals taker
    exact (hperm.nodup_iff.2 hnumbered.distinct).sublist hsub
  below := consumed_below hnumbered taker

theorem arrive_numbered {ref : RefBook} (hnumbered : ref.Numbered) (side : Side)
    (price : Price) (order : RestingOrder) :
    (ref.arrive side price order).Numbered where
  distinct := by
    rw [arrive, List.map_append, List.nodup_append]
    refine ⟨hnumbered.distinct, by simp, ?_⟩
    intro arrival harrival other hother heq
    obtain ⟨entry, hentry, rfl⟩ := List.mem_map.1 harrival
    have hbelow := hnumbered.below entry hentry
    simp only [List.map_cons, List.map_nil, List.mem_singleton] at hother
    omega
  below entry hentry := by
    rw [arrive, List.mem_append] at hentry
    rcases hentry with hold | hnew
    · exact (hnumbered.below entry hold).trans (Nat.lt_succ_self _)
    · rw [List.mem_singleton.1 hnew]
      exact Nat.lt_succ_self _

end RefBook

/-- After consuming, the lists are those of the walked book. -/
theorem listing_consumed {ref : RefBook} {book : Book} (hrep : Represents ref book)
    (taker : Order) (side : Side) :
    book.resting.walked taker side =
      (({ ref with entries := ref.consumed taker } : RefBook).listing side).map
        Entry.maker := by
  have hnumbered := RefBook.consumed_numbered hrep.numbered taker
  rcases taker.side.eq_or_eq_opposite side with rfl | rfl
  · rw [Lists.walked_own, hrep.resting]
    congr 1
    refine (hnumbered.listing_eq ?_ (ref.listing_sorted _)).symm
    rw [RefBook.onSide, ref.consumed_onSide_own]
    exact ref.listing_perm _
  · rw [Lists.walked_opposite, hrep.front_eq, hrep.back_eq,
      Greedy.residual_map Entry.qty itemQty Entry.withQty withItemQty Entry.maker
        (fun _ => rfl) (fun _ _ => rfl), ← List.map_append]
    congr 1
    refine (hnumbered.listing_eq ?_ ?_).symm
    · rw [RefBook.onSide, ref.consumed_onSide_opposite]
    · refine pairwise_before_of_rank_sublist (ref.residual_rank_sublist taker) ?_
      rw [hrep.eligible_append]
      exact ref.listing_sorted _

/-- An order that arrives stands behind all orders with a price not worse. -/
theorem listing_arrive {ref : RefBook} (hnumbered : ref.Numbered) (side : Side)
    (price : Price) (order : RestingOrder) :
    ((ref.arrive side price order).listing side).map Entry.maker =
      placeBehind side price order ((ref.listing side).map Entry.maker) := by
  let isFront : Entry → Bool := fun entry => side.NotWorse entry.price price
  let entry : Entry :=
    { arrival := ref.arrivals, side := side, price := price, order := order }
  have hsorted := ref.listing_sorted side
  have hsplit : (ref.listing side).takeWhile isFront ++
      (ref.listing side).dropWhile isFront = ref.listing side :=
    List.takeWhile_append_dropWhile
  have hback : ∀ other ∈ (ref.listing side).dropWhile isFront,
      isFront other = false := by
    refine Ranked.dropWhile_rejects (hsorted.imp ?_)
    intro first second hbefore hsecond
    simp only [isFront, decide_eq_true_eq] at hsecond ⊢
    exact hbefore.1.trans hsecond
  have hlisting : (ref.arrive side price order).listing side =
      (ref.listing side).takeWhile isFront ++
        entry :: (ref.listing side).dropWhile isFront := by
    apply (RefBook.arrive_numbered hnumbered side price order).listing_eq
    · refine List.perm_middle.trans ?_
      rw [hsplit]
      have honSide : (ref.arrive side price order).onSide side =
          ref.onSide side ++ [entry] := by
        simp [RefBook.onSide, RefBook.arrive, entry]
      rw [honSide]
      exact ((ref.listing_perm side).cons entry).trans
        (List.perm_append_singleton _ _).symm
    · rw [← hsplit, List.pairwise_append] at hsorted
      rw [List.pairwise_append, List.pairwise_cons]
      refine ⟨hsorted.1, ⟨?_, hsorted.2.1⟩, ?_⟩
      · intro other hother
        -- a worse price stands behind whatever its arrival
        have hworse : ¬ side.NotWorse other.price price := by
          simpa [isFront] using hback other hother
        refine ⟨(side.notWorse_total _ _).resolve_right hworse, fun hprice => ?_⟩
        have hequal : price = other.price := hprice
        exact absurd (side.notWorse_refl price) (hequal ▸ hworse)
      · intro front hfront later hlater
        rcases List.mem_cons.1 hlater with rfl | hlater
        · have hnotWorse : side.NotWorse front.price price := by
            simpa [isFront] using List.mem_takeWhile_imp hfront
          have hmem := (RefBook.mem_listing.1
            ((List.takeWhile_sublist _).subset hfront)).1
          exact ⟨hnotWorse, fun _ => (hnumbered.below front hmem).le⟩
        · exact hsorted.2.2 front hfront later hlater
  rw [hlisting, placeBehind, List.map_append, List.map_cons, List.takeWhile_map,
    List.dropWhile_map]
  rfl

theorem listing_arrive_opposite {ref : RefBook} (hnumbered : ref.Numbered)
    (side : Side) (price : Price) (order : RestingOrder) :
    (ref.arrive side price order).listing side.opposite =
      ref.listing side.opposite := by
  apply (RefBook.arrive_numbered hnumbered side price order).listing_eq
  · have honSide : (ref.arrive side price order).onSide side.opposite =
        ref.onSide side.opposite := by
      simp [RefBook.onSide, RefBook.arrive, side.opposite_ne.symm]
    rw [honSide]
    exact ref.listing_perm _
  · exact ref.listing_sorted _

theorem submit_represents {ref : RefBook} {book : Book} (hrep : Represents ref book)
    (order : Order) :
    ∃ next, book.submit order = .ok (next, (ref.submit order).2) ∧
      Represents (ref.submit order).1 next := by
  obtain ⟨next, hsubmit, hnonempty, hresting⟩ :=
    submit_refines hrep.noEmptyLevel order
  have hconsumed := RefBook.consumed_numbered hrep.numbered order
  have hwalked := listing_consumed hrep order
  have hfills := hrep.fills_eq order
  have hremaining := hrep.remaining_eq order
  cases htype : order.orderType with
  | market =>
      simp only [Lists.submit, RefBook.submit, htype, hfills, hremaining]
        at hsubmit hresting ⊢
      exact ⟨next, hsubmit, hconsumed, hnonempty, fun side => by
        rw [hresting, hwalked]⟩
  | limit limitPrice =>
      simp only [Lists.submit, RefBook.submit, htype, hfills, hremaining]
        at hsubmit hresting ⊢
      refine ⟨next, hsubmit, ?_⟩
      split_ifs at hresting ⊢ with hleft
      · refine ⟨RefBook.arrive_numbered hconsumed _ _ _, hnonempty, fun side => ?_⟩
        rw [hresting, Lists.rest]
        rcases order.side.eq_or_eq_opposite side with rfl | rfl
        · rw [Function.update_self, hwalked, listing_arrive hconsumed]
        · rw [Function.update_of_ne order.side.opposite_ne, hwalked,
            listing_arrive_opposite hconsumed]
      · exact ⟨hconsumed, hnonempty, fun side => by rw [hresting, hwalked]⟩

/-! ## Cancelling -/

/-- Removing the first match of a list with distinct arrivals is filtering by
its arrival. -/
theorem eraseP_eq_filter_arrival {isOrder : Entry → Bool} {list : List Entry}
    {found : Entry} (hdistinct : (list.map Entry.arrival).Nodup)
    (hfound : list.find? isOrder = some found) :
    list.eraseP isOrder = list.filter fun entry => entry.arrival ≠ found.arrival := by
  induction list with
  | nil => simp at hfound
  | cons head tail ih =>
      rw [List.map_cons, List.nodup_cons] at hdistinct
      cases hhead : isOrder head with
      | true =>
          rw [List.find?_cons_of_pos hhead, Option.some.injEq] at hfound
          subst hfound
          rw [List.eraseP_cons_of_pos hhead, List.filter_cons_of_neg (by simp),
            List.filter_eq_self.2]
          intro entry hentry
          have hne : entry.arrival ≠ head.arrival := fun heq =>
            hdistinct.1 (heq ▸ List.mem_map_of_mem hentry)
          simpa using hne
      | false =>
          have hneg : ¬ isOrder head = true := by simp [hhead]
          rw [List.find?_cons_of_neg hneg] at hfound
          have hne : head.arrival ≠ found.arrival := fun heq =>
            hdistinct.1 (heq ▸ List.mem_map_of_mem (List.mem_of_find?_eq_some hfound))
          rw [List.eraseP_cons_of_neg hneg, ih hdistinct.2 hfound,
            List.filter_cons_of_pos (by simpa using hne)]

theorem RefBook.Numbered.filter {ref : RefBook} (hnumbered : ref.Numbered)
    (keep : Entry → Bool) :
    ({ ref with entries := ref.entries.filter keep } : RefBook).Numbered where
  distinct := hnumbered.distinct.sublist (List.filter_sublist.map _)
  below entry hentry := hnumbered.below entry (List.mem_filter.1 hentry).1

theorem listing_filter {ref : RefBook} (hnumbered : ref.Numbered)
    (keep : Entry → Bool) (side : Side) :
    ({ ref with entries := ref.entries.filter keep } : RefBook).listing side =
      (ref.listing side).filter keep := by
  apply (hnumbered.filter keep).listing_eq
  · have honSide : ({ ref with entries := ref.entries.filter keep } : RefBook).onSide
        side = (ref.onSide side).filter keep := by
      simp only [RefBook.onSide, List.filter_filter, Bool.and_comm]
    rw [honSide]
    exact (ref.listing_perm side).filter keep
  · exact (ref.listing_sorted side).filter keep

theorem RefBook.Numbered.listing_distinct {ref : RefBook}
    (hnumbered : ref.Numbered) (side : Side) :
    ((ref.listing side).map Entry.arrival).Nodup := by
  rw [((ref.listing_perm side).map Entry.arrival).nodup_iff]
  exact hnumbered.distinct.sublist (List.filter_sublist.map _)

/-- Filtering by the arrival of an order leaves the other side alone. -/
theorem listing_filter_arrival_opposite (side : Side) {ref : RefBook}
    (hnumbered : ref.Numbered) {found : Entry}
    (hfound : found ∈ ref.listing side.opposite) :
    (ref.listing side).filter (fun entry => entry.arrival ≠ found.arrival) =
      ref.listing side := by
  rw [List.filter_eq_self]
  intro entry hentry
  rw [RefBook.mem_listing] at hfound hentry
  have hne : entry.arrival ≠ found.arrival := by
    intro harrival
    have heq := List.inj_on_of_nodup_map hnumbered.distinct hentry.1 hfound.1 harrival
    rw [heq, hfound.2] at hentry
    exact side.opposite_ne hentry.2
  simpa using hne

theorem listing_cancel_buy {ref : RefBook} (hnumbered : ref.Numbered)
    (orderId : OrderId) :
    (ref.cancel orderId).listing .buy =
      (ref.listing .buy).eraseP fun entry => entry.order.id = orderId := by
  rw [RefBook.cancel, RefBook.findOrder, List.find?_append]
  cases hbuy : (ref.listing .buy).find? fun entry => entry.order.id = orderId with
  | some found =>
      rw [Option.some_or, listing_filter hnumbered,
        eraseP_eq_filter_arrival (hnumbered.listing_distinct .buy) hbuy]
  | none =>
      rw [Option.none_or, List.eraseP_of_forall_not (List.find?_eq_none.1 hbuy)]
      cases hsell : (ref.listing .sell).find? fun entry =>
          entry.order.id = orderId with
      | none => rfl
      | some found =>
          have hmem := List.mem_of_find?_eq_some hsell
          rw [listing_filter hnumbered,
            listing_filter_arrival_opposite .buy hnumbered hmem]

theorem listing_cancel_sell {ref : RefBook} (hnumbered : ref.Numbered)
    (orderId : OrderId) :
    (ref.cancel orderId).listing .sell =
      if (ref.listing .buy).any fun entry => entry.order.id = orderId then
        ref.listing .sell
      else (ref.listing .sell).eraseP fun entry => entry.order.id = orderId := by
  rw [RefBook.cancel, RefBook.findOrder, List.find?_append]
  cases hbuy : (ref.listing .buy).find? fun entry => entry.order.id = orderId with
  | some found =>
      have hmem := List.mem_of_find?_eq_some hbuy
      rw [if_pos (List.any_eq_true.2 ⟨found, hmem, List.find?_some hbuy⟩),
        Option.some_or, listing_filter hnumbered,
        listing_filter_arrival_opposite .sell hnumbered hmem]
  | none =>
      rw [if_neg (by simpa using hbuy), Option.none_or]
      cases hsell : (ref.listing .sell).find? fun entry =>
          entry.order.id = orderId with
      | none => rw [List.eraseP_of_forall_not (List.find?_eq_none.1 hsell)]
      | some found =>
          rw [listing_filter hnumbered,
            eraseP_eq_filter_arrival (hnumbered.listing_distinct .sell) hsell]

theorem cancel_represents {ref : RefBook} {book : Book} (hrep : Represents ref book)
    (orderId : OrderId) :
    Represents (ref.cancel orderId) (book.cancel orderId).1 where
  numbered := by
    rw [RefBook.cancel]
    cases ref.findOrder orderId with
    | none => exact hrep.numbered
    | some found => exact hrep.numbered.filter _
  noEmptyLevel := cancel_noEmptyLevel hrep.noEmptyLevel orderId
  resting side := by
    rw [(cancel_refines book orderId).1]
    cases side with
    | buy =>
        rw [Lists.cancel_buy, hrep.resting, List.eraseP_map,
          listing_cancel_buy hrep.numbered]
        rfl
    | sell =>
        rw [Lists.cancel_sell, hrep.resting, hrep.resting, List.any_map,
          List.eraseP_map, listing_cancel_sell hrep.numbered, apply_ite (List.map _)]
        rfl

/-! ## Runs -/

theorem apply_represents {ref : RefBook} {book : Book} (hrep : Represents ref book)
    (call : Call) :
    ∃ next, book.apply call = .ok next ∧ Represents (ref.apply call) next := by
  cases call with
  | submit order =>
      obtain ⟨next, hsubmit, hnext⟩ := submit_represents hrep order
      exact ⟨next, by rw [Book.apply, hsubmit]; rfl, hnext⟩
  | cancel orderId => exact ⟨_, rfl, cancel_represents hrep orderId⟩

theorem run_represents (calls : List Call) {ref : RefBook} {book : Book}
    (hrep : Represents ref book) :
    ∃ final, book.run calls = .ok final ∧ Represents (ref.run calls) final := by
  induction calls generalizing ref book with
  | nil => exact ⟨book, rfl, hrep⟩
  | cons call calls ih =>
      obtain ⟨next, hnext, hrepNext⟩ := apply_represents hrep call
      obtain ⟨final, hrun, hfinal⟩ := ih hrepNext
      exact ⟨final, by rw [Book.run, hnext]; exact hrun, hfinal⟩

/-- Every reachable book is the book of the reference matcher after the same
calls, and `submit` returns the reference fills and remainder and leaves the
reference book. -/
theorem submit_eq_reference (calls : List Call) (order : Order) :
    let ref := RefBook.new.run calls
    Book.new.run calls = .ok ref.toBook ∧
      ref.toBook.submit order =
        .ok ((ref.submit order).1.toBook, (ref.submit order).2) := by
  intro ref
  obtain ⟨book, hrun, hrep⟩ := run_represents calls new_represents
  obtain ⟨next, hsubmit, hnext⟩ := submit_represents hrep order
  rw [hrep.eq_toBook] at hrun hsubmit
  rw [hnext.eq_toBook] at hsubmit
  exact ⟨hrun, hsubmit⟩

end OpenHl.Clob
