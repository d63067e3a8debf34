import OpenHl.Clearing.ApplyFill

/-!
# One fill cut into several

A taker order meets the book in pieces.  At one price the pieces leave the
position and realize the profit of a single fill, wherever the position crosses
zero between them; only the rounding of the average entry price sees them
(`applyFill_split`, `applyFillEach_eq`).
-/

namespace OpenHl.Clearing

open Machine OpenHl.Clob

/-- The position counted in the direction of a side. -/
def Account.along (account : Account) (side : Side) : ℤ :=
  account.positionSize.val * sideSign side

section Along

variable (account : Account) (side : Side)

theorem sideSign_mul_self : sideSign side * sideSign side = 1 := by
  cases side <;> rfl

theorem positionSize_eq_along :
    account.positionSize.val = account.along side * sideSign side := by
  rw [Account.along, mul_assoc, sideSign_mul_self, mul_one]

theorem abs_along : |account.along side| = |account.positionSize.val| := by
  rw [Account.along, abs_mul]
  cases side <;> simp [sideSign]

theorem oppositeSign_iff_along :
    oppositeSign account.positionSize.val side = true ↔ account.along side < 0 := by
  rw [oppositeSign_iff, Account.along]
  generalize account.positionSize.val = size
  rcases abs_cases size with ⟨habs, hsize⟩ | ⟨habs, hsize⟩ <;> rw [habs] <;>
    rcases sideSign_cases side with hside | hside <;> rw [hside] <;> omega

theorem increases_iff_along : Increases account side ↔ 0 < account.along side := by
  rw [increases_iff, Account.along]
  generalize account.positionSize.val = size
  rcases abs_cases size with ⟨habs, hsize⟩ | ⟨habs, hsize⟩ <;> rw [habs] <;>
    rcases sideSign_cases side with hside | hside <;> rw [hside] <;> omega

theorem exactSize_eq_along (qty : Qty) :
    exactSize account qty side = (account.along side + qty.val) * sideSign side := by
  rw [exactSize, positionSize_eq_along account side]
  ring

theorem exactSize_eq_zero_iff (qty : Qty) :
    exactSize account qty side = 0 ↔ account.along side + qty.val = 0 := by
  rw [exactSize_eq_along, mul_eq_zero]
  rcases sideSign_cases side with hside | hside <;> rw [hside] <;> omega

end Along

/-! ## The position and the realized profit -/

section Exact

variable {account : Account} {price : Price} {qty : Qty} {side : Side}

/-- Contracts of a position that a trade of a size closes, both in one direction. -/
def closedAlong (position qty : ℤ) : ℤ := max 0 (min (-position) qty)

theorem closedAlong_nonneg (position qty : ℤ) : 0 ≤ closedAlong position qty :=
  le_max_left _ _

/-- Two trades close what their sum closes. -/
theorem closedAlong_add (position : ℤ) {first second : ℤ} (hfirst : 0 ≤ first)
    (hsecond : 0 ≤ second) :
    closedAlong position (first + second) =
      closedAlong position first + closedAlong (position + first) second := by
  simp only [closedAlong]
  omega

theorem closedQty_eq_along (account : Account) (qty : Qty) (side : Side) :
    closedQty account.positionSize.val qty.val side =
      closedAlong (account.along side) qty.val := by
  have hqty := Int.natCast_nonneg qty.val
  rw [closedQty, closedAlong, ← abs_along account side, Nat.abs_cast]
  split_ifs with hopposite
  · rw [oppositeSign_iff_along] at hopposite
    rw [abs_of_neg hopposite]
    omega
  · rw [oppositeSign_iff_along] at hopposite
    omega

theorem sign_mul_closedAlong (account : Account) (side : Side) (amount : ℤ) :
    account.positionSize.val.sign * closedAlong (account.along side) amount =
      -sideSign side * closedAlong (account.along side) amount := by
  by_cases hopposite : account.along side < 0
  · rw [positionSize_eq_along account side, Int.sign_mul, Int.sign_eq_neg_one_of_neg hopposite]
    cases side <;> rfl
  · have hnone : closedAlong (account.along side) amount = 0 := by
      rw [closedAlong]
      omega
    rw [hnone, mul_zero, mul_zero]

theorem exactRealized_eq_along (account : Account) (price : Price) (qty : Qty)
    (side : Side) :
    exactRealized account price qty side =
      closedAlong (account.along side) qty.val *
        (-sideSign side * ((price.val : ℤ) - account.avgEntry.val)) := by
  rw [exactRealized, closedQty_eq_along, sign_mul_closedAlong]
  ring

theorem along_applyFill (price : Price) (hsize : InI64 (exactSize account qty side)) :
    (applyFill account price qty side).1.along side = account.along side + qty.val := by
  rw [Account.along, applyFill_positionSize hsize, exactSize_eq_along, mul_assoc,
    sideSign_mul_self, mul_one]

/-- A multiple is a word if a greater multiple is. -/
theorem inI64_mul_of_le {amount total factor : ℤ} (hamount : 0 ≤ amount)
    (hle : amount ≤ total) (htotal : InI64 (total * factor)) : InI64 (amount * factor) := by
  rw [InI64] at htotal ⊢
  rcases le_total 0 factor with hfactor | hfactor
  · have hlower := mul_nonneg hamount hfactor
    have hupper := mul_le_mul_of_nonneg_right hle hfactor
    constructor <;> omega
  · have hlower := mul_le_mul_of_nonpos_right hle hfactor
    have hupper := mul_nonpos_of_nonneg_of_nonpos hamount hfactor
    constructor <;> omega

/-! ## The average entry price -/

/-- A fill that leaves no position keeps the entry price. -/
theorem applyFill_avgEntry_of_zero (hnew : account.along side + qty.val = 0) :
    (applyFill account price qty side).1.avgEntry = account.avgEntry := by
  have hzero := (exactSize_eq_zero_iff account side qty).2 hnew
  rw [applyFill_avgEntry, newAvgEntry, if_pos hzero, U64.saturate_val]

/-- A fill that starts or turns the position sets its entry price. -/
theorem applyFill_avgEntry_of_opens (hold : account.along side ≤ 0)
    (hnew : 0 < account.along side + qty.val) :
    (applyFill account price qty side).1.avgEntry = price := by
  rcases hold.lt_or_eq with hopposite | hflat
  · apply applyFill_avgEntry_of_flips ((oppositeSign_iff_along account side).2 hopposite)
    rw [← abs_along account side, abs_of_neg hopposite]
    omega
  · apply applyFill_avgEntry_of_flat
    · rw [positionSize_eq_along account side, hflat, zero_mul]
    · rw [Ne, exactSize_eq_zero_iff]
      exact hnew.ne'

/-- A fill that opens nothing keeps the entry price. -/
theorem applyFill_avgEntry_of_nonpos (hnew : account.along side + qty.val ≤ 0) :
    (applyFill account price qty side).1.avgEntry = account.avgEntry := by
  have hqty := Int.natCast_nonneg qty.val
  rcases hnew.lt_or_eq with hless | hzero
  · have hopposite : account.along side < 0 := by omega
    apply applyFill_avgEntry_of_closes ((oppositeSign_iff_along account side).2 hopposite)
    rw [← abs_along account side, abs_of_neg hopposite]
    omega
  · exact applyFill_avgEntry_of_zero hzero

/-- A fill that increases a position rounds the mean of both prices down. -/
theorem applyFill_avgEntry_of_pos (price : Price) (hold : 0 < account.along side)
    (hsize : InI64 (exactSize account qty side)) :
    ((applyFill account price qty side).1.avgEntry.val : ℤ) =
      (account.along side * account.avgEntry.val + qty.val * price.val) /
        (account.along side + qty.val) := by
  rw [applyFill_avgEntry_of_increases ((increases_iff_along account side).2 hold) hsize,
    ← abs_along account side, abs_of_pos hold]

/-- At its entry price a position can only keep it. -/
theorem applyFill_avgEntry_of_price (hentry : account.avgEntry = price)
    (hsize : InI64 (exactSize account qty side)) :
    (applyFill account price qty side).1.avgEntry = price := by
  have hqty := Int.natCast_nonneg qty.val
  rcases lt_or_ge 0 (account.along side) with hold | hold
  · have hpos : account.along side + (qty.val : ℤ) ≠ 0 := by omega
    have hmean := applyFill_avgEntry_of_pos price hold hsize
    rw [hentry, ← add_mul, Int.mul_ediv_cancel_left _ hpos] at hmean
    exact Fin.ext (by exact_mod_cast hmean)
  · rcases lt_or_ge 0 (account.along side + (qty.val : ℤ)) with hnew | hnew
    · exact applyFill_avgEntry_of_opens hold hnew
    · rw [applyFill_avgEntry_of_nonpos hnew, hentry]

end Exact

/-! ## Two fills against one -/

section Split

variable {account : Account} {price : Price} {side : Side} {first second whole : Qty}

/-- Part of a fill leaves the position between the old and the new one. -/
theorem inI64_exactSize_of_le (hle : (first : ℕ) ≤ whole)
    (hsize : InI64 (exactSize account whole side)) :
    InI64 (exactSize account first side) := by
  have hlower := account.positionSize.lower
  have hupper := account.positionSize.upper
  rw [InI64, exactSize] at hsize ⊢
  rcases sideSign_cases side with hside | hside <;> rw [hside] at hsize ⊢ <;> omega

theorem exactSize_split (price : Price) (hwhole : (whole : ℕ) = first + second)
    (hfirst : InI64 (exactSize account first side)) :
    exactSize (applyFill account price first side).1 second side =
      exactSize account whole side := by
  rw [exactSize_eq_along, along_applyFill price hfirst, exactSize_eq_along, hwhole]
  push_cast
  ring

/-- What the first fill leaves to close was entered at the old price. -/
theorem exactRealized_after (hfirst : InI64 (exactSize account first side)) :
    exactRealized (applyFill account price first side).1 price second side =
      closedAlong (account.along side + first.val) second.val *
        (-sideSign side * ((price.val : ℤ) - account.avgEntry.val)) := by
  rw [exactRealized_eq_along, along_applyFill price hfirst]
  rcases le_or_gt (account.along side + (first.val : ℤ)) 0 with hopen | hnone
  · rw [applyFill_avgEntry_of_nonpos hopen]
  · have hclosed : closedAlong (account.along side + first.val) second.val = 0 := by
      rw [closedAlong]
      omega
    rw [hclosed, zero_mul, zero_mul]

theorem exactRealized_whole (hwhole : (whole : ℕ) = first + second) :
    exactRealized account price whole side =
      (closedAlong (account.along side) first.val +
        closedAlong (account.along side + first.val) second.val) *
          (-sideSign side * ((price.val : ℤ) - account.avgEntry.val)) := by
  rw [exactRealized_eq_along, hwhole, Nat.cast_add,
    closedAlong_add _ (Int.natCast_nonneg _) (Int.natCast_nonneg _)]

theorem exactRealized_split (price : Price) (hwhole : (whole : ℕ) = first + second)
    (hfirst : InI64 (exactSize account first side)) :
    exactRealized account price first side +
        exactRealized (applyFill account price first side).1 price second side =
      exactRealized account price whole side := by
  rw [exactRealized_after hfirst, exactRealized_eq_along, exactRealized_whole hwhole,
    add_mul]

/-- Both fills realize words if their sum is one. -/
theorem inI64_exactRealized_split (hwhole : (whole : ℕ) = first + second)
    (hfirst : InI64 (exactSize account first side))
    (hrealized : InI64 (exactRealized account price whole side)) :
    InI64 (exactRealized account price first side) ∧
      InI64 (exactRealized (applyFill account price first side).1 price second side) := by
  have hclosed := closedAlong_nonneg (account.along side) first.val
  have hlater := closedAlong_nonneg (account.along side + first.val) second.val
  rw [exactRealized_whole hwhole] at hrealized
  rw [exactRealized_after hfirst, exactRealized_eq_along]
  constructor
  · exact inI64_mul_of_le hclosed (by omega) hrealized
  · exact inI64_mul_of_le hlater (by omega) hrealized

/-- A remainder below the divisor costs a quotient at most one. -/
theorem ediv_sub_eq_or {total rest divisor : ℤ} (hrest : 0 ≤ rest)
    (hless : rest < divisor) :
    (total - rest) / divisor = total / divisor ∨
      (total - rest) / divisor + 1 = total / divisor := by
  have hdivisor : 0 < divisor := by omega
  have hupper : (total - rest) / divisor ≤ total / divisor :=
    Int.ediv_le_ediv hdivisor (by omega)
  have hlower : (total + -1 * divisor) / divisor ≤ (total - rest) / divisor :=
    Int.ediv_le_ediv hdivisor (by omega)
  rw [Int.add_mul_ediv_right _ _ hdivisor.ne'] at hlower
  omega

/-- The mean of a mean: both divisions round down, the inner one by less than the
outer divisor. -/
theorem ediv_mean_mean {size opened later : ℤ} (notional price : ℤ)
    (hsize : 0 < size + opened) (hlater : 0 ≤ later) :
    ((size + opened) * (notional / (size + opened)) + later * price) /
          (size + opened + later) =
        (notional + later * price) / (size + opened + later) ∨
      ((size + opened) * (notional / (size + opened)) + later * price) /
          (size + opened + later) + 1 =
        (notional + later * price) / (size + opened + later) := by
  have hrest := Int.emod_nonneg notional hsize.ne'
  have hless := Int.emod_lt_of_pos notional hsize
  have hdivided := Int.mul_ediv_add_emod notional (size + opened)
  have hnested : (size + opened) * (notional / (size + opened)) + later * price =
      notional + later * price - notional % (size + opened) := by
    linear_combination hdivided
  rw [hnested]
  exact ediv_sub_eq_or hrest (by omega)

/-- The entry price of two fills is that of one, or a unit less after an increase. -/
theorem applyFill_split_avgEntry (hwhole : (whole : ℕ) = first + second)
    (hsize : InI64 (exactSize account whole side)) :
    let split := (applyFill (applyFill account price first side).1 price second side).1
    let one := (applyFill account price whole side).1
    split.avgEntry = one.avgEntry ∨
      (Increases account side ∧ (split.avgEntry : ℕ) + 1 = one.avgEntry) := by
  intro split one
  have hfirst : InI64 (exactSize account first side) :=
    inI64_exactSize_of_le (by omega) hsize
  have hsecond : InI64 (exactSize (applyFill account price first side).1 second side) := by
    rwa [exactSize_split price hwhole hfirst]
  have hafter := along_applyFill price hfirst
  rcases lt_or_ge 0 (account.along side) with hold | hold
  · have hpart := applyFill_avgEntry_of_pos price hold hfirst
    have hlast := applyFill_avgEntry_of_pos price (by omega) hsecond
    have hone := applyFill_avgEntry_of_pos price hold hsize
    rw [hafter, hpart] at hlast
    rw [hwhole, Nat.cast_add, add_mul, ← add_assoc, ← add_assoc] at hone
    rcases ediv_mean_mean (account.along side * account.avgEntry.val + first.val * price.val)
        price.val (by omega : 0 < account.along side + (first.val : ℤ))
        (Int.natCast_nonneg second.val) with hequal | hless
    · rw [← hlast, ← hone] at hequal
      exact .inl (Fin.ext (by exact_mod_cast hequal))
    · rw [← hlast, ← hone] at hless
      exact .inr ⟨(increases_iff_along account side).2 hold, by exact_mod_cast hless⟩
  · refine .inl ?_
    rcases lt_or_ge 0 (account.along side + (whole.val : ℤ)) with hnew | hnew
    · rw [show one.avgEntry = price from applyFill_avgEntry_of_opens hold hnew]
      rcases lt_or_ge 0 (account.along side + (first.val : ℤ)) with hpart | hpart
      · exact applyFill_avgEntry_of_price (applyFill_avgEntry_of_opens hold hpart) hsecond
      · exact applyFill_avgEntry_of_opens (by omega) (by omega)
    · have hpart : account.along side + (first.val : ℤ) ≤ 0 := by omega
      calc split.avgEntry
          = (applyFill account price first side).1.avgEntry :=
            applyFill_avgEntry_of_nonpos (by omega)
        _ = account.avgEntry := applyFill_avgEntry_of_nonpos hpart
        _ = one.avgEntry := (applyFill_avgEntry_of_nonpos hnew).symm

end Split

/-! ## Any number of fills against one -/

/-- Fills of one price and side, one after the other, and the sum of their realized
profits. -/
def applyFillEach (account : Account) (price : Price) (side : Side) :
    List Qty → Account × ℤ
  | [] => (account, 0)
  | qty :: rest =>
      let (filled, realized) := applyFill account price qty side
      let (last, later) := applyFillEach filled price side rest
      (last, realized.val + later)

section Each

variable {account : Account} {price : Price} {side : Side} {whole : Qty}

theorem exactRealized_of_zero (account : Account) (price : Price) (side : Side)
    (hwhole : (whole : ℕ) = 0) : exactRealized account price whole side = 0 := by
  have hclosed : closedAlong (account.along side) whole.val = 0 := by
    rw [closedAlong]
    omega
  rw [exactRealized_eq_along, hclosed, zero_mul]

/-- The pieces of a fill leave its position and realize its profit. -/
theorem applyFillEach_eq {pieces : List Qty}
    (hwhole : (pieces.map Fin.val).sum = (whole : ℕ))
    (hsize : InI64 (exactSize account whole side))
    (hrealized : InI64 (exactRealized account price whole side)) :
    (applyFillEach account price side pieces).1.positionSize.val =
        exactSize account whole side ∧
      (applyFillEach account price side pieces).2 =
        exactRealized account price whole side := by
  induction pieces generalizing account whole with
  | nil =>
      have hzero : (whole : ℕ) = 0 := hwhole.symm
      constructor
      · simp [applyFillEach, exactSize, hzero]
      · exact (exactRealized_of_zero account price side hzero).symm
  | cons first rest ih =>
      rw [List.map_cons, List.sum_cons] at hwhole
      have hrest : (rest.map Fin.val).sum < 2 ^ 64 := by
        have := whole.isLt
        omega
      have hsplit : (whole : ℕ) = first + (⟨_, hrest⟩ : Qty) := hwhole.symm
      have hfirst : InI64 (exactSize account first side) :=
        inI64_exactSize_of_le (by omega) hsize
      obtain ⟨hpart, hlater⟩ := inI64_exactRealized_split hsplit hfirst hrealized
      have hsecond := exactSize_split price hsplit hfirst
      obtain ⟨hposition, hprofit⟩ := ih rfl (by rwa [hsecond]) hlater
      simp only [applyFillEach]
      constructor
      · rw [hposition, hsecond]
      · rw [hprofit, applyFill_realized hpart, exactRealized_split price hsplit hfirst]

/-- Two fills at one price leave the position of one fill and realize its profit; the
entry price is that of one fill, or a unit less when a position increases.  Position
and profit are the same for any number of pieces. -/
theorem applyFill_split {first second : Qty} (hwhole : (whole : ℕ) = first + second)
    (hsize : InI64 (exactSize account whole side))
    (hrealized : InI64 (exactRealized account price whole side)) :
    let (part, partRealized) := applyFill account price first side
    let (split, restRealized) := applyFill part price second side
    let (one, realized) := applyFill account price whole side
    split.positionSize = one.positionSize ∧
      partRealized.val + restRealized.val = realized.val ∧
      (split.avgEntry = one.avgEntry ∨
        (Increases account side ∧ (split.avgEntry : ℕ) + 1 = one.avgEntry)) ∧
      ∀ pieces : List Qty, (pieces.map Fin.val).sum = (whole : ℕ) →
        (applyFillEach account price side pieces).1.positionSize = one.positionSize ∧
          (applyFillEach account price side pieces).2 = realized.val := by
  have hfirst : InI64 (exactSize account first side) :=
    inI64_exactSize_of_le (by omega) hsize
  have hsplit := exactSize_split price hwhole hfirst
  have hone : (applyFill account price whole side).1.positionSize.val = _ :=
    applyFill_positionSize hsize
  have hlast : (applyFill (applyFill account price first side).1 price second
      side).1.positionSize.val = _ := applyFill_positionSize (hsplit.symm ▸ hsize)
  obtain ⟨hpart, hrest⟩ := inI64_exactRealized_split hwhole hfirst hrealized
  refine ⟨I64.ext ?_, ?_, applyFill_split_avgEntry hwhole hsize, ?_⟩
  · exact hlast.trans (hsplit.trans hone.symm)
  · have hprofit := exactRealized_split price hwhole hfirst
    rw [← applyFill_realized hpart, ← applyFill_realized hrest,
      ← applyFill_realized hrealized] at hprofit
    exact hprofit
  · intro pieces hpieces
    obtain ⟨hposition, hprofit⟩ := applyFillEach_eq hpieces hsize hrealized
    refine ⟨I64.ext (hposition.trans hone.symm), ?_⟩
    exact hprofit.trans (applyFill_realized hrealized).symm

/-- Two units at 3 on top of two at 1: one by one the mean of 5 over three loses 2, and
the last unit cannot bring it to 2. -/
theorem applyFill_split_rounds :
    let long : Account :=
      { account := 1, positionSize := 2, avgEntry := 1, collateral := 0 }
    let (part, partRealized) := applyFill long 3 1 .buy
    let (split, restRealized) := applyFill part 3 1 .buy
    let (one, realized) := applyFill long 3 2 .buy
    (split.positionSize = one.positionSize ∧
        partRealized.val + restRealized.val = realized.val) ∧
      split.avgEntry = 1 ∧ one.avgEntry = 2 := by
  intro long
  have hsplit := @applyFill_split long 3 .buy 2 1 1 (by decide) (by decide) (by decide)
  exact ⟨⟨hsplit.1, hsplit.2.1⟩, by decide⟩

end Each

end OpenHl.Clearing
