import OpenHl.Liquidation.Classification

/-!
# Margin against a moving mark

Equity and notional both move with the mark, and the ratio is truncated towards zero
on either side of it.  The cross products of the two fractions decide which ratio is
the smaller, and truncation keeps that order.

`marginRatio_monotone`: within the ranges of the words, the ratio of a long that
borrows rises with the mark and the ratio of a short with collateral falls; so health
never improves when the mark moves against the position.
-/

namespace OpenHl.Liquidation

open Machine OpenHl.Clob OpenHl.Funding

/-! ## Truncated fractions -/

section Fraction

variable {left right first second : ℤ}

theorem ediv_le_ediv_of_mul_le (hfirst : 0 < first) (hsecond : 0 < second)
    (hcross : left * second ≤ right * first) : left / first ≤ right / second := by
  rw [Int.le_ediv_iff_mul_le hsecond]
  have hfloor := Int.ediv_mul_le left hfirst.ne'
  apply le_of_mul_le_mul_right _ hfirst
  calc
    left / first * second * first = left / first * first * second := by ring
    _ ≤ left * second := mul_le_mul_of_nonneg_right hfloor hsecond.le
    _ ≤ right * first := hcross

/-- Truncation towards zero keeps the order of two fractions, also across zero. -/
theorem tdiv_le_tdiv_of_mul_le (hfirst : 0 < first) (hsecond : 0 < second)
    (hcross : left * second ≤ right * first) : left.tdiv first ≤ right.tdiv second := by
  rcases le_or_gt 0 right with hright | hright
  · rw [Int.tdiv_eq_ediv_of_nonneg hright]
    rcases le_or_gt 0 left with hleft | hleft
    · rw [Int.tdiv_eq_ediv_of_nonneg hleft]
      exact ediv_le_ediv_of_mul_le hfirst hsecond hcross
    · have hquotient := Int.ediv_nonneg hright hsecond.le
      have hnegative := Int.tdiv_nonneg (neg_nonneg.2 hleft.le) hfirst.le
      rw [Int.neg_tdiv] at hnegative
      omega
  · have hleft : left < 0 := by
      have hproduct := mul_neg_of_neg_of_pos hright hfirst
      exact neg_of_mul_neg_left (hcross.trans_lt hproduct) hsecond.le
    have hmirrored : -right * first ≤ -left * second := by linarith
    have hquotients := ediv_le_ediv_of_mul_le hsecond hfirst hmirrored
    rw [← Int.tdiv_eq_ediv_of_nonneg (neg_nonneg.2 hright.le),
      ← Int.tdiv_eq_ediv_of_nonneg (neg_nonneg.2 hleft.le), Int.neg_tdiv, Int.neg_tdiv]
      at hquotients
    omega

end Fraction

/-! ## The ratio of two marks -/

/-- Profit and equity are 64-bit words at a mark, and the notional an unsigned one. -/
structure FitsAt (snapshot : AccountSnapshot) (mark : MarkPrice) : Prop where
  pnl : InI64 (exactPnl snapshot mark)
  equity : InI64 (exactEquity snapshot mark)
  notional : exactNotional snapshot mark < 2 ^ 64

section Marks

variable {snapshot : AccountSnapshot} {mark low high : MarkPrice}

theorem exactNotional_pos (hopen : snapshot.positionSize.val ≠ 0) (hmark : 0 < mark) :
    0 < exactNotional snapshot mark := by
  have hvalue : (0 : ℤ) < mark.val := by exact_mod_cast hmark
  exact mul_pos (abs_pos.2 hopen) hvalue

/-- Within range the ratio is the truncated fraction of the exact amounts. -/
theorem marginRatio_val_of_fits (hfits : FitsAt snapshot mark)
    (hopen : snapshot.positionSize.val ≠ 0) (hmark : 0 < mark) :
    (marginRatio snapshot mark).val = max (-2 ^ 63) (min (2 ^ 63 - 1)
      ((exactEquity snapshot mark * marginScale).tdiv (exactNotional snapshot mark))) := by
  have hnotional := notionalValue_val_of_lt hfits.notional
  have hpos := exactNotional_pos hopen hmark
  have hnonzero : notionalValue snapshot mark ≠ 0 := by
    intro hzero
    rw [hzero] at hnotional
    simp only [Fin.val_zero, Nat.cast_zero] at hnotional
    omega
  rw [marginRatio_val hnonzero, hnotional, accountEquity_val_of_inI64 hfits.pnl hfits.equity]

/-- The ratios of two marks compare as the cross products of equity and notional. -/
theorem marginRatio_le_of_cross {first second : MarkPrice}
    (hopen : snapshot.positionSize.val ≠ 0) (hfirst : FitsAt snapshot first)
    (hsecond : FitsAt snapshot second) (hfirstPos : 0 < first) (hsecondPos : 0 < second)
    (hcross : exactEquity snapshot first * exactNotional snapshot second ≤
      exactEquity snapshot second * exactNotional snapshot first) :
    (marginRatio snapshot first).val ≤ (marginRatio snapshot second).val := by
  rw [marginRatio_val_of_fits hfirst hopen hfirstPos,
    marginRatio_val_of_fits hsecond hopen hsecondPos]
  have hscaled : exactEquity snapshot first * marginScale * exactNotional snapshot second ≤
      exactEquity snapshot second * marginScale * exactNotional snapshot first := by
    rw [marginScale]
    linarith
  have hquotients := tdiv_le_tdiv_of_mul_le (exactNotional_pos hopen hfirstPos)
    (exactNotional_pos hopen hsecondPos) hscaled
  omega

/-- A long whose entry is above its collateral: its debt weighs less at a higher mark. -/
theorem cross_le_of_long (hlong : 0 < snapshot.positionSize.val)
    (hborrows : snapshot.collateral.val <
      (snapshot.avgEntry.val : ℤ) * snapshot.positionSize.val) (hless : low < high) :
    exactEquity snapshot low * exactNotional snapshot high ≤
      exactEquity snapshot high * exactNotional snapshot low := by
  have hmarks : (low.val : ℤ) ≤ high.val := by exact_mod_cast hless.le
  have hdebt : 0 ≤ ((snapshot.avgEntry.val : ℤ) * snapshot.positionSize.val -
      snapshot.collateral.val) * snapshot.positionSize.val *
        ((high.val : ℤ) - low.val) :=
    mul_nonneg (mul_nonneg (by omega) hlong.le) (by omega)
  rw [exactEquity, exactEquity, exactPnl, exactPnl, exactNotional, exactNotional,
    abs_of_pos hlong]
  linarith

/-- A short with collateral: what it was sold for covers less of a higher mark. -/
theorem cross_le_of_short (hshort : snapshot.positionSize.val < 0)
    (hcollateral : 0 ≤ snapshot.collateral.val) (hless : low < high) :
    exactEquity snapshot high * exactNotional snapshot low ≤
      exactEquity snapshot low * exactNotional snapshot high := by
  have hmarks : (low.val : ℤ) ≤ high.val := by exact_mod_cast hless.le
  have hentry : (0 : ℤ) ≤ snapshot.avgEntry.val := Int.natCast_nonneg _
  have hproceeds : 0 ≤ snapshot.collateral.val +
      -snapshot.positionSize.val * (snapshot.avgEntry.val : ℤ) :=
    add_nonneg hcollateral (mul_nonneg (by omega) hentry)
  have hcover : 0 ≤ (snapshot.collateral.val +
      -snapshot.positionSize.val * (snapshot.avgEntry.val : ℤ)) *
        -snapshot.positionSize.val * ((high.val : ℤ) - low.val) :=
    mul_nonneg (mul_nonneg hproceeds (by omega)) (by omega)
  rw [exactEquity, exactEquity, exactPnl, exactPnl, exactNotional, exactNotional,
    abs_of_neg hshort]
  linarith

/-! ## Health -/

/-- Health as a number, the better the greater. -/
def MarginHealth.rank : MarginHealth → ℕ
  | .underwater => 0
  | .liquidatable => 1
  | .atRisk => 2
  | .safe => 3

/-- Whatever the rates, in order or not, a smaller ratio is no healthier. -/
theorem rank_le_of_marginRatio_le {first second : MarkPrice}
    (hratio : (marginRatio snapshot first).val ≤ (marginRatio snapshot second).val)
    (params : LiquidationParams) :
    (marginHealth snapshot first params).rank ≤ (marginHealth snapshot second params).rank := by
  rw [marginHealth, marginHealth]
  split_ifs <;> simp [MarginHealth.rank] <;> omega

end Marks

/-- Between two marks within range, the ratio of a long that borrows does not fall with
the mark, that of a short with collateral does not rise, and so no health improves when
the mark moves against the position. -/
theorem marginRatio_monotone {snapshot : AccountSnapshot} {low high : MarkPrice}
    (hlow : 1 ≤ low) (hless : low < high)
    (hnotional : exactNotional snapshot high ≤ 2 ^ 64 - 1)
    (hlowPnl : InI64 (exactPnl snapshot low)) (hlowEquity : InI64 (exactEquity snapshot low))
    (hhighPnl : InI64 (exactPnl snapshot high))
    (hhighEquity : InI64 (exactEquity snapshot high)) :
    (0 < snapshot.positionSize.val →
      snapshot.collateral.val < (snapshot.avgEntry.val : ℤ) * snapshot.positionSize.val →
        (marginRatio snapshot low).val ≤ (marginRatio snapshot high).val ∧
          ∀ params, (marginHealth snapshot low params).rank ≤
            (marginHealth snapshot high params).rank) ∧
      (snapshot.positionSize.val < 0 → 0 ≤ snapshot.collateral.val →
        (marginRatio snapshot high).val ≤ (marginRatio snapshot low).val ∧
          ∀ params, (marginHealth snapshot high params).rank ≤
            (marginHealth snapshot low params).rank) := by
  have hmarks : (low.val : ℤ) ≤ high.val := by exact_mod_cast hless.le
  have hlowPos : 0 < low := by
    rw [Fin.lt_def]
    exact Nat.lt_of_lt_of_le Nat.zero_lt_one hlow
  have hlowNotional : exactNotional snapshot low ≤ exactNotional snapshot high :=
    mul_le_mul_of_nonneg_left hmarks (abs_nonneg _)
  have hlowFits : FitsAt snapshot low := ⟨hlowPnl, hlowEquity, by omega⟩
  have hhighFits : FitsAt snapshot high := ⟨hhighPnl, hhighEquity, by omega⟩
  constructor
  · intro hlong hborrows
    have hratio := marginRatio_le_of_cross hlong.ne' hlowFits hhighFits hlowPos
      (hlowPos.trans hless) (cross_le_of_long hlong hborrows hless)
    exact ⟨hratio, rank_le_of_marginRatio_le hratio⟩
  · intro hshort hcollateral
    have hratio := marginRatio_le_of_cross hshort.ne hhighFits hlowFits
      (hlowPos.trans hless) hlowPos (cross_le_of_short hshort hcollateral hless)
    exact ⟨hratio, rank_le_of_marginRatio_le hratio⟩

/-- The thin long at 90 and at 101: a deficit of 1000 basis points and a rest of 198. -/
theorem marginRatio_monotone_thinLong :
    (marginRatio thinLong 90).val ≤ (marginRatio thinLong 101).val ∧
      (marginRatio thinLong 90).val = -1000 ∧ (marginRatio thinLong 101).val = 198 := by
  have hmonotone := @marginRatio_monotone thinLong 90 101 (by decide) (by decide)
    (by decide) (by decide) (by decide) (by decide) (by decide)
  exact ⟨(hmonotone.1 (by decide) (by decide)).1, by decide, by decide⟩

end OpenHl.Liquidation
