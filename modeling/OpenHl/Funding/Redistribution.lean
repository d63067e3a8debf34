import OpenHl.Funding.Clock

/-!
# What funding keeps of a balanced book

Every account's payment is truncated on its own.  If the sizes add up to zero, so do the
exact payments, and the settlements do if truncation drops as much from the longs as from
the shorts.
-/

namespace OpenHl.Funding

open Machine OpenHl.Clob

/-- What a position pays or receives, before the scale is divided out. -/
def scaledPayment (mark : MarkPrice) (rate : I64) (position : Position) : ℕ :=
  position.size.val.natAbs * mark.val * rate.val.natAbs

/-- What truncation drops of a payment, in units of one part of `rateScale`. -/
def dropped (mark : MarkPrice) (rate : I64) (position : Position) : ℕ :=
  scaledPayment mark rate position % rateScale.toNat

/-- The settlement of a position, if no product saturates. -/
def exactDelta (mark : MarkPrice) (rate : I64) (position : Position) : ℤ :=
  (-(position.size.val * mark.val * rate.val)).tdiv rateScale

/-- The truncation of the longs. -/
def droppedByLongs (mark : MarkPrice) (rate : I64) (positions : List Position) : ℕ :=
  ((positions.filter fun position => 0 < position.size.val).map
    (dropped mark rate)).sum

/-- The truncation of the shorts. -/
def droppedByShorts (mark : MarkPrice) (rate : I64) (positions : List Position) : ℕ :=
  ((positions.filter fun position => position.size.val < 0).map
    (dropped mark rate)).sum

/-- The product of a settlement can be negated. -/
def ProductNegates (mark : MarkPrice) (rate : I64) (position : Position) : Prop :=
  -2 ^ 127 < position.size.val * mark.val * rate.val

instance (mark : MarkPrice) (rate : I64) (position : Position) :
    Decidable (ProductNegates mark rate position) :=
  inferInstanceAs (Decidable (_ < _))

/-! ## One position -/

section Position

variable (mark : MarkPrice) (rate : I64) (position : Position)

theorem product_eq_sign_mul :
    position.size.val * mark.val * rate.val =
      position.size.val.sign * rate.val.sign * scaledPayment mark rate position := by
  have hsize := Int.sign_mul_natAbs position.size.val
  have hrate := Int.sign_mul_natAbs rate.val
  calc
    position.size.val * mark.val * rate.val =
        (position.size.val.sign * position.size.val.natAbs) * mark.val *
          (rate.val.sign * rate.val.natAbs) := by rw [hsize, hrate]
    _ = position.size.val.sign * rate.val.sign * scaledPayment mark rate position := by
      rw [scaledPayment]
      push_cast
      ring

/-- A sign can be taken out of a truncating division. -/
theorem sign_mul_tdiv (left right : ℤ) (amount : ℕ) :
    (left.sign * right.sign * amount).tdiv rateScale =
      left.sign * right.sign * (amount / rateScale.toNat : ℕ) := by
  have hdivision : (amount : ℤ).tdiv rateScale = (amount / rateScale.toNat : ℕ) := rfl
  obtain hleft | hleft | hleft := Int.sign_trichotomy left <;>
    obtain hright | hright | hright := Int.sign_trichotomy right <;>
      simp [hleft, hright, hdivision, Int.neg_tdiv]

theorem exactDelta_eq :
    exactDelta mark rate position =
      -(position.size.val.sign * rate.val.sign *
        (scaledPayment mark rate position / rateScale.toNat : ℕ)) := by
  rw [exactDelta, product_eq_sign_mul, Int.neg_tdiv, sign_mul_tdiv]

/-- The settlement is the exact payment less what is dropped. -/
theorem exactDelta_mul_rateScale :
    rateScale * exactDelta mark rate position =
      -(position.size.val * mark.val * rate.val) +
        rate.val.sign * (position.size.val.sign * dropped mark rate position) := by
  have hsplit : (rateScale.toNat : ℤ) *
      (scaledPayment mark rate position / rateScale.toNat : ℕ) +
        dropped mark rate position = scaledPayment mark rate position := by
    exact_mod_cast Nat.div_add_mod _ _
  have hscale : (rateScale.toNat : ℤ) = rateScale := rfl
  rw [hscale] at hsplit
  rw [exactDelta_eq, product_eq_sign_mul, ← hsplit]
  ring

variable {mark rate position}

theorem inI128_notional (mark : MarkPrice) (position : Position) :
    InI128 (position.size.val * mark.val) := by
  have hlower := position.size.lower
  have hupper := position.size.upper
  have hmark : (mark.val : ℤ) < 2 ^ 64 := by exact_mod_cast mark.isLt
  have hnonneg : (0 : ℤ) ≤ mark.val := Int.natCast_nonneg _
  constructor
  · nlinarith
  · nlinarith

/-- Above the least word saturation is lost in the 64 bits of the settlement. -/
theorem settle_of_productNegates (hproduct : ProductNegates mark rate position) :
    settle mark rate position =
      .ok { account := position.account
            delta := .saturate (exactDelta mark rate position) } := by
  rw [ProductNegates] at hproduct
  rw [settle, saturateI128_of_inI128 (inI128_notional mark position), exactDelta]
  generalize position.size.val * mark.val * rate.val = product at hproduct ⊢
  have hnegates : ¬ saturateI128 product = -2 ^ 127 := by
    rw [saturateI128]
    omega
  rw [negI128, if_neg hnegates, ok_bind]
  have hdelta : I64.saturate ((-saturateI128 product).tdiv rateScale) =
      .saturate ((-product).tdiv rateScale) := by
    by_cases hfits : InI128 product
    · rw [saturateI128_of_inI128 hfits]
    · have hlarge : 2 ^ 127 ≤ product := by
        rw [InI128] at hfits
        omega
      have hcut : saturateI128 product = 2 ^ 127 - 1 := by
        rw [saturateI128]
        omega
      have hexact : 2 ^ 63 ≤ product / rateScale := by
        rw [rateScale]
        omega
      rw [hcut, Int.neg_tdiv, Int.neg_tdiv, Int.tdiv_eq_ediv_of_nonneg (by omega : 0 ≤ product),
        I64.ext_iff, I64.saturate_val, I64.saturate_val]
      have hleast : 2 ^ 63 ≤ (2 ^ 127 - 1 : ℤ).tdiv rateScale := by decide +kernel
      omega
  rw [hdelta]
  rfl

/-- Where the settlement fits, the product is above the least word. -/
theorem productNegates_of_fits (hfits : InI64 (exactDelta mark rate position)) :
    ProductNegates mark rate position := by
  have hscale : 0 < rateScale := by decide
  have hsplit := Int.mul_tdiv_add_tmod (-(position.size.val * mark.val * rate.val))
    rateScale
  have hbelow := Int.tmod_lt_of_pos (-(position.size.val * mark.val * rate.val)) hscale
  rw [← exactDelta] at hsplit
  obtain ⟨hdelta, hdelta'⟩ := hfits
  rw [rateScale] at hsplit hbelow
  rw [ProductNegates]
  omega

end Position

/-! ## All positions -/

variable {mark : MarkPrice} {rate : I64}

theorem mapM_settle_of_productNegates {positions : List Position}
    (hproducts : ∀ position ∈ positions, ProductNegates mark rate position) :
    positions.mapM (settle mark rate) =
      .ok (positions.map fun position =>
        { account := position.account
          delta := .saturate (exactDelta mark rate position) }) := by
  induction positions with
  | nil => rfl
  | cons position positions ih =>
      rw [List.forall_mem_cons] at hproducts
      rw [List.mapM_cons, settle_of_productNegates hproducts.1, ih hproducts.2]
      rfl

theorem mapM_settle_of_fits {positions : List Position}
    (hfits : ∀ position ∈ positions, InI64 (exactDelta mark rate position)) :
    positions.mapM (settle mark rate) =
      .ok (positions.map fun position =>
        { account := position.account
          delta := .saturate (exactDelta mark rate position) }) :=
  mapM_settle_of_productNegates fun position hmem =>
    productNegates_of_fits (hfits position hmem)

theorem exactDelta_of_flat {position : Position} (hflat : position.size = 0) :
    exactDelta mark rate position = 0 := by
  simp [exactDelta, hflat]

theorem exactDelta_rate_zero : exactDelta mark 0 = fun _ => 0 := by
  funext position
  simp [exactDelta]

theorem dropped_rate_zero : dropped mark 0 = fun _ => 0 := by
  funext position
  simp [dropped, scaledPayment]

/-- Flat positions settle nothing, with or without their entry. -/
theorem sum_exactDelta_filter (positions : List Position) :
    ((positions.filter fun position => position.size ≠ 0).map
      (exactDelta mark rate)).sum = (positions.map (exactDelta mark rate)).sum := by
  induction positions with
  | nil => rfl
  | cons position positions ih =>
      by_cases hflat : position.size = 0
      · simp [hflat, exactDelta_of_flat hflat, ← ih]
      · simp [hflat, ← ih]

/-- What a call that saturates nothing adds up to. -/
theorem applyFunding_sum {positions : List Position}
    (hfits : ∀ position ∈ positions, InI64 (exactDelta mark rate position)) :
    ∃ settlements, applyFunding positions mark rate = .ok settlements ∧
      (settlements.map fun settlement => settlement.delta.val).sum =
        (positions.map (exactDelta mark rate)).sum := by
  by_cases hrate : rate = 0
  · refine ⟨[], by rw [applyFunding, if_pos hrate], ?_⟩
    subst hrate
    simp [exactDelta_rate_zero]
  · have hopen : ∀ position ∈ positions.filter fun position => position.size ≠ 0,
        InI64 (exactDelta mark rate position) := fun position hposition =>
      hfits position (List.mem_of_mem_filter hposition)
    refine ⟨_, by rw [applyFunding, if_neg hrate, mapM_settle_of_fits hopen], ?_⟩
    rw [List.map_map, ← sum_exactDelta_filter]
    congr 1
    apply List.map_congr_left
    intro position hposition
    exact I64.saturate_val_of_inI64 (hopen position hposition)

theorem sum_sign_mul_dropped (positions : List Position) :
    (positions.map fun position =>
        position.size.val.sign * (dropped mark rate position : ℤ)).sum =
      droppedByLongs mark rate positions - droppedByShorts mark rate positions := by
  induction positions with
  | nil => rfl
  | cons position positions ih =>
      rw [droppedByLongs, droppedByShorts] at ih ⊢
      rw [List.map_cons, List.sum_cons, ih]
      obtain hlong | hflat | hshort := lt_trichotomy 0 position.size.val
      · simp [hlong, hlong.not_gt, Int.sign_eq_one_of_pos hlong]
        ring
      · simp [← hflat]
      · simp [hshort, hshort.not_gt, Int.sign_eq_neg_one_of_neg hshort]
        ring

/-- Scaled up, the settlements are the exact payments, which cancel, less what is
dropped. -/
theorem sum_exactDelta_mul_rateScale (mark : MarkPrice) (rate : I64)
    (positions : List Position) :
    rateScale * (positions.map (exactDelta mark rate)).sum =
      -((positions.map fun position => position.size.val).sum * mark.val * rate.val) +
        rate.val.sign * ((droppedByLongs mark rate positions : ℤ) -
          droppedByShorts mark rate positions) := by
  rw [← sum_sign_mul_dropped]
  induction positions with
  | nil => simp
  | cons position positions ih =>
      simp only [List.map_cons, List.sum_cons, mul_add, ih, exactDelta_mul_rateScale]
      ring

/-- For positions whose sizes add up to zero and a mark and rate at which no settlement
saturates, the settlements add up to zero exactly if truncation drops as much from the
longs as from the shorts. -/
theorem applyFunding_sum_eq_zero_iff (positions : List Position) (mark : MarkPrice)
    (rate : I64)
    (hbalanced : (positions.map fun position => position.size.val).sum = 0)
    (hfits : ∀ position ∈ positions, InI64 (exactDelta mark rate position)) :
    ∃ settlements, applyFunding positions mark rate = .ok settlements ∧
      ((settlements.map fun settlement => settlement.delta.val).sum = 0 ↔
        droppedByLongs mark rate positions = droppedByShorts mark rate positions) := by
  obtain ⟨settlements, hsettled, hsum⟩ := applyFunding_sum hfits
  refine ⟨settlements, hsettled, ?_⟩
  have hscaled := sum_exactDelta_mul_rateScale mark rate positions
  rw [hbalanced, zero_mul, zero_mul, neg_zero, zero_add, ← hsum] at hscaled
  by_cases hrate : rate = 0
  · subst hrate
    rw [hsum, exactDelta_rate_zero, droppedByLongs, droppedByShorts, dropped_rate_zero]
    simp
  · have hsign : rate.val.sign ≠ 0 := fun hzero =>
      hrate (I64.ext (Int.sign_eq_zero_iff_zero.1 hzero))
    have hscale : rateScale ≠ 0 := by decide
    constructor
    · intro hzero
      rw [hzero, mul_zero, eq_comm, mul_eq_zero_iff_left hsign] at hscaled
      omega
    · intro hsame
      rw [hsame, sub_self, mul_zero, mul_eq_zero_iff_left hscale] at hscaled
      exact hscaled

/-- A long of two against two shorts of one, at the price 100. -/
def splitShorts : List Position := [⟨1, 2⟩, ⟨2, -1⟩, ⟨3, -1⟩]

/-- At a rate of one half of a percent the long pays one and each short receives nothing;
at two percent the long pays four and each short receives two. -/
theorem applyFunding_sum_eq_zero_iff_splitShorts :
    ∃ settlements, applyFunding splitShorts 100 20000000 = .ok settlements ∧
      (settlements.map fun settlement => settlement.delta.val).sum = 0 := by
  obtain ⟨settlements, hsettled, hsum⟩ :=
    applyFunding_sum_eq_zero_iff splitShorts 100 20000000 (by decide) (by decide)
  exact ⟨settlements, hsettled, hsum.2 (by decide)⟩

theorem applyFunding_sum_ne_zero :
    ∃ settlements, applyFunding splitShorts 100 5000000 = .ok settlements ∧
      (splitShorts.map fun position => position.size.val).sum = 0 ∧
      (∀ position ∈ splitShorts, InI64 (exactDelta 100 5000000 position)) ∧
      (settlements.map fun settlement => settlement.delta.val) = [-1, 0, 0] ∧
      (settlements.map fun settlement => settlement.delta.val).sum ≠ 0 :=
  ⟨_, rfl, by decide, by decide, by decide, by decide⟩

end OpenHl.Funding
