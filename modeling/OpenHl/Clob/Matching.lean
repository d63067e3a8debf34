import OpenHl.Clob.Book
import OpenHl.Core.Greedy

/-!
# What a matching loop does to the flattened side

A side of the book without empty levels is the list of its makers in
price-time order.  On that list a matching loop is the greedy allocation of
the taker's quantity over the makers in front of the first price that `stop`
rejects (`sweep_spec`).  Everything later modules prove about matching is
derived from this one description.
-/

namespace OpenHl.Clob

open Machine

section Items

variable {K : Type}

/-- Quantity of a maker in a flattened side. -/
def itemQty (item : K × RestingOrder) : Qty := item.2.qty

def withItemQty (item : K × RestingOrder) (qty : Qty) : K × RestingOrder :=
  (item.1, { item.2 with qty := qty })

/-- The fill of `qty` between a taker and a maker resting at `price`. -/
def fillAgainst (taker : Order) (price : Price) (maker : RestingOrder)
    (qty : Qty) : Fill :=
  { makerOrderId := maker.id
    takerOrderId := taker.id
    makerAccount := maker.account
    takerAccount := taker.account
    price := price
    qty := qty
    makerSide := taker.side.opposite }

end Items

theorem matchAtLevel_cons (taker : Order) (price : Price)
    (maker : RestingOrder) (rest : List RestingOrder) (remaining : Qty) :
    matchAtLevel taker price (maker :: rest) remaining =
      .ok (fillAgainst taker price maker (min maker.qty remaining),
        (if maker.qty - min maker.qty remaining = 0 then rest
          else { maker with qty := maker.qty - min maker.qty remaining } :: rest),
        remaining - min maker.qty remaining) := rfl

variable {K : Type} [LinearOrder K]

theorem depth_eq_length_flatten (levels : Levels K) :
    depth levels = (QueueMap.flatten levels).length := by
  simp [depth, SortedMap.values, QueueMap.flatten, QueueMap.flattenEntries,
    List.length_flatMap, Function.comp_def]

section Spec

variable (taker : Order) (priceOf : K → Price) (stop : Price → Bool)

/-- Whether the loop accepts a maker's price. -/
def accepts (item : K × RestingOrder) : Bool := !stop (priceOf item.1)

/-- The makers in front of the first rejected price. -/
def acceptedFront (levels : Levels K) : List (K × RestingOrder) :=
  (QueueMap.flatten levels).takeWhile (accepts priceOf stop)

/-- The makers from the first rejected price on. -/
def rejectedBack (levels : Levels K) : List (K × RestingOrder) :=
  (QueueMap.flatten levels).dropWhile (accepts priceOf stop)

theorem acceptedFront_of_flatten_cons {levels : Levels K}
    {item : K × RestingOrder} {tail : List (K × RestingOrder)}
    (hflat : QueueMap.flatten levels = item :: tail)
    (hstop : stop (priceOf item.1) = false) :
    acceptedFront priceOf stop levels =
      item :: tail.takeWhile (accepts priceOf stop) := by
  rw [acceptedFront, hflat, List.takeWhile_cons_of_pos (by simp [accepts, hstop])]

theorem rejectedBack_of_flatten_cons {levels : Levels K}
    {item : K × RestingOrder} {tail : List (K × RestingOrder)}
    (hflat : QueueMap.flatten levels = item :: tail)
    (hstop : stop (priceOf item.1) = false) :
    rejectedBack priceOf stop levels =
      tail.dropWhile (accepts priceOf stop) := by
  rw [rejectedBack, hflat, List.dropWhile_cons_of_pos (by simp [accepts, hstop])]

/-- Fills against the makers of an allocation, in order. -/
def fillsOf (given : List ((K × RestingOrder) × Qty)) : List Fill :=
  given.map fun entry =>
    fillAgainst taker (priceOf entry.1.1) entry.1.2 entry.2

/-- Relation between the state at the head of a matching loop and the state
after its break. -/
structure SweepSpec (start final : Sweep K) : Prop where
  noEmpty : QueueMap.NoEmpty final.levels
  fills : final.fills = start.fills ++ fillsOf taker priceOf
    (Greedy.allocate itemQty start.remaining
      (acceptedFront priceOf stop start.levels))
  flatten : QueueMap.flatten final.levels =
    Greedy.residual itemQty withItemQty start.remaining
      (acceptedFront priceOf stop start.levels) ++
        rejectedBack priceOf stop start.levels
  remaining : final.remaining = Greedy.leftover itemQty start.remaining
    (acceptedFront priceOf stop start.levels)

/-- A state whose taker is filled, or whose side offers nothing acceptable, is
its own final state. -/
theorem SweepSpec.of_idle {state : Sweep K}
    (hnonempty : QueueMap.NoEmpty state.levels)
    (hidle : state.remaining = 0 ∨ acceptedFront priceOf stop state.levels = []) :
    SweepSpec taker priceOf stop state state := by
  have hsplit : acceptedFront priceOf stop state.levels ++
      rejectedBack priceOf stop state.levels =
        QueueMap.flatten state.levels := List.takeWhile_append_dropWhile
  rcases hidle with hzero | hnil
  · exact ⟨hnonempty, by simp [hzero, fillsOf], by simp [hzero, hsplit],
      by simp [hzero]⟩
  · rw [hnil, List.nil_append] at hsplit
    exact ⟨hnonempty, by simp [hnil, fillsOf, Greedy.allocate],
      by simp [hnil, Greedy.residual, hsplit], by simp [hnil, Greedy.leftover]⟩

/-- The state after matching the front maker of the best level. -/
def sweepNext (state : Sweep K) (best : K) (maker : RestingOrder)
    (rest : List RestingOrder) : Sweep K :=
  let given := min maker.qty state.remaining
  { levels := QueueMap.putQueue state.levels best
      (if maker.qty - given = 0 then rest
        else { maker with qty := maker.qty - given } :: rest)
    remaining := state.remaining - given
    fills := state.fills ++ [fillAgainst taker (priceOf best) maker given] }

/-- Everything one iteration can do when no level is empty: it breaks on an
idle state, or it matches the front maker of the best level. -/
theorem sweepStep_cases {state : Sweep K}
    (hnonempty : QueueMap.NoEmpty state.levels) :
    (sweepStep taker priceOf stop state = .ok (.done state) ∧
      (state.remaining = 0 ∨ acceptedFront priceOf stop state.levels = [])) ∨
    ∃ best maker rest others,
      state.remaining ≠ 0 ∧ stop (priceOf best) = false ∧
      state.levels.entries = (best, maker :: rest) :: others ∧
      sweepStep taker priceOf stop state =
        .ok (.again (sweepNext taker priceOf state best maker rest)) := by
  by_cases hzero : state.remaining = 0
  · exact Or.inl ⟨by simp [sweepStep, hzero], Or.inl hzero⟩
  cases hfirst : state.levels.firstKey? with
  | none =>
      have hentries := QueueMap.entries_of_firstKey?_eq_none hfirst
      refine Or.inl ⟨by simp [sweepStep, hzero, hfirst], Or.inr ?_⟩
      simp [acceptedFront, QueueMap.flatten, hentries]
  | some best =>
      obtain ⟨queue, others, hentries, hget⟩ :=
        QueueMap.entries_of_firstKey?_eq_some hfirst
      have hqueue : queue ≠ [] :=
        hnonempty (best, queue) (by rw [hentries]; exact List.mem_cons_self)
      obtain ⟨maker, rest, rfl⟩ := List.exists_cons_of_ne_nil hqueue
      cases hstop : stop (priceOf best) with
      | true =>
          refine Or.inl ⟨by simp [sweepStep, hzero, hfirst, hstop], Or.inr ?_⟩
          simp [acceptedFront, accepts, QueueMap.flatten, hentries, hstop]
      | false =>
          refine Or.inr ⟨best, maker, rest, others, hzero, hstop, hentries, ?_⟩
          simp [sweepStep, hzero, hfirst, hstop, hget, matchAtLevel_cons,
            sweepNext]

/-- Iterations still possible: one per maker and one for the last test. -/
def sweepMeasure (state : Sweep K) : ℕ :=
  if state.remaining = 0 then 0 else depth state.levels + 1

section Next

variable {taker priceOf stop} {state : Sweep K} {best : K}
  {maker : RestingOrder} {rest : List RestingOrder}
  {others : List (K × List RestingOrder)}

theorem sweepNext_noEmpty (hnonempty : QueueMap.NoEmpty state.levels)
    (hentries : state.levels.entries = (best, maker :: rest) :: others) :
    QueueMap.NoEmpty (sweepNext taker priceOf state best maker rest).levels :=
  QueueMap.noEmpty_putQueue_first hentries hnonempty _

/-- Either the maker is gone, or it keeps a positive rest and the taker is
filled. -/
theorem sweepNext_cases (taker : Order) (priceOf : K → Price)
    (hentries : state.levels.entries = (best, maker :: rest) :: others) :
    let given := min maker.qty state.remaining
    let next := sweepNext taker priceOf state best maker rest
    let tail := rest.map (Prod.mk best) ++ QueueMap.flattenEntries others
    (maker.qty - given = 0 ∧ QueueMap.flatten next.levels = tail) ∨
      (maker.qty - given ≠ 0 ∧ state.remaining - given = 0 ∧
        QueueMap.flatten next.levels =
          withItemQty (best, maker) (maker.qty - given) :: tail) := by
  intro given next tail
  have hflat := QueueMap.flatten_putQueue_first hentries
    (if maker.qty - given = 0 then rest
      else { maker with qty := maker.qty - given } :: rest)
  by_cases hgone : maker.qty - given = 0
  · rw [if_pos hgone] at hflat
    exact Or.inl ⟨hgone, by simpa [next, sweepNext, given, hgone] using hflat⟩
  · have hfilled : state.remaining - given = 0 := by
      rw [U64.eq_zero_iff_val, U64.val_sub_min_left] at hgone
      rw [U64.eq_zero_iff_val, U64.val_sub_min_right]
      omega
    rw [if_neg hgone] at hflat
    exact Or.inr ⟨hgone, hfilled, by
      simpa [next, sweepNext, given, hgone, withItemQty, tail] using hflat⟩

theorem sweepNext_measure_lt (hzero : state.remaining ≠ 0)
    (hentries : state.levels.entries = (best, maker :: rest) :: others) :
    sweepMeasure (sweepNext taker priceOf state best maker rest) <
      sweepMeasure state := by
  have hbefore : depth state.levels = (rest.map (Prod.mk best) ++
      QueueMap.flattenEntries others).length + 1 := by
    rw [depth_eq_length_flatten, QueueMap.flatten, hentries]
    simp only [QueueMap.flattenEntries_cons, List.map_cons, List.cons_append,
      List.length_cons]
  rw [sweepMeasure, sweepMeasure, if_neg hzero, hbefore]
  rcases sweepNext_cases taker priceOf hentries with
    ⟨-, hflat⟩ | ⟨-, hfilled, -⟩
  · rw [depth_eq_length_flatten, hflat]
    split_ifs <;> omega
  · have hdone : (sweepNext taker priceOf state best maker rest).remaining = 0 :=
      hfilled
    rw [if_pos hdone]
    omega

/-- Matching the front maker first and sweeping afterwards is sweeping. -/
theorem SweepSpec.of_next {final : Sweep K} (hzero : state.remaining ≠ 0)
    (hstop : stop (priceOf best) = false)
    (hentries : state.levels.entries = (best, maker :: rest) :: others)
    (hspec : SweepSpec taker priceOf stop
      (sweepNext taker priceOf state best maker rest) final) :
    SweepSpec taker priceOf stop state final := by
  have hflat : QueueMap.flatten state.levels = (best, maker) ::
      (rest.map (Prod.mk best) ++ QueueMap.flattenEntries others) := by
    rw [QueueMap.flatten, hentries]
    rfl
  have hfront := acceptedFront_of_flatten_cons priceOf stop hflat hstop
  have hback := rejectedBack_of_flatten_cons priceOf stop hflat hstop
  obtain ⟨hne, hfills, hlevels, hremaining⟩ := hspec
  rcases sweepNext_cases taker priceOf hentries with
    ⟨hgone, hnext⟩ | ⟨hkept, hfilled, hnext⟩
  · -- the maker is gone: the loop goes on with the rest of the list
    rw [acceptedFront, hnext] at hfills hlevels hremaining
    rw [rejectedBack, hnext] at hlevels
    refine ⟨hne, ?_, ?_, ?_⟩
    · rw [hfills, hfront]
      simp [Greedy.allocate, hzero, itemQty, sweepNext, fillsOf]
    · rw [hlevels, hfront, hback]
      simp [Greedy.residual, hzero, itemQty, sweepNext, hgone]
    · rw [hremaining, hfront]
      simp [Greedy.leftover, itemQty, sweepNext]
  · -- the taker is filled: nothing more happens to any maker
    have hdone : (sweepNext taker priceOf state best maker rest).remaining = 0 :=
      hfilled
    have hnextFront := acceptedFront_of_flatten_cons priceOf stop hnext hstop
    rw [hnextFront, hdone] at hfills hlevels hremaining
    rw [rejectedBack_of_flatten_cons priceOf stop hnext hstop] at hlevels
    refine ⟨hne, ?_, ?_, ?_⟩
    · rw [hfills, hfront]
      simp [Greedy.allocate, hzero, itemQty, sweepNext, fillsOf, hfilled]
    · rw [hlevels, hfront, hback]
      simp [Greedy.residual, hzero, itemQty, hfilled, hkept]
    · rw [hremaining, hfront]
      simp [Greedy.leftover, itemQty, hfilled]

end Next

/-- A matching loop ends without a panic, and it is the greedy allocation of
the taker's quantity over the accepted makers. -/
theorem sweep_spec {levels : Levels K} (hnonempty : QueueMap.NoEmpty levels) :
    ∃ swept, sweep taker priceOf stop levels = .ok swept ∧
      SweepSpec taker priceOf stop
        { levels := levels, remaining := taker.qty, fills := [] } swept := by
  refine FuelLoop.run_spec (fun state => QueueMap.NoEmpty state.levels)
    sweepMeasure ?_ hnonempty ?_
  · intro state hstate
    rcases sweepStep_cases taker priceOf stop hstate with ⟨hdone, hidle⟩ |
      ⟨best, maker, rest, others, hzero, hstop, hentries, hagain⟩
    · exact Or.inl ⟨state, hdone,
        SweepSpec.of_idle taker priceOf stop hstate hidle⟩
    · exact Or.inr ⟨_, hagain, sweepNext_noEmpty hstate hentries,
        sweepNext_measure_lt hzero hentries,
        fun final => SweepSpec.of_next hzero hstop hentries⟩
  · rw [sweepMeasure]
    split_ifs <;> simp

end Spec

end OpenHl.Clob
