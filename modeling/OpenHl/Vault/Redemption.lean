import OpenHl.Core.Journal
import OpenHl.Vault.Shares

/-!
# Redeeming what a deposit minted

A deposit followed at once by the withdrawal of the shares it minted.  A vault that
has shares prices both by division, so that the depositor gets back no more than the
deposit.  A vault without shares mints one for one whatever assets are marked, and
the withdrawal then returns all there is.
-/

namespace OpenHl.Vault

open Machine

/-! ## Calls -/

inductive VaultCall where
  | deposit (assets : I64)
  | withdraw (shares : U64)
  | markToMarket (newTotalAssets : I64)
  deriving DecidableEq

/-- What the caller is told, with the argument of an accepted call. -/
inductive VaultReply where
  | deposited (assets : I64) (result : DepositResult)
  | depositRejected (failure : DepositError)
  | withdrawn (shares : U64) (result : WithdrawResult)
  | withdrawRejected (failure : WithdrawError)
  | marked
  deriving DecidableEq

namespace VaultState

def call (vault : VaultState) : VaultCall → VaultState × VaultReply
  | .deposit assets =>
      match vault.deposit assets with
      | .ok (after, result) => (after, .deposited assets result)
      | .error failure => (vault, .depositRejected failure)
  | .withdraw shares =>
      match vault.withdraw shares with
      | .ok (after, result) => (after, .withdrawn shares result)
      | .error failure => (vault, .withdrawRejected failure)
  | .markToMarket newTotalAssets => (vault.markToMarket newTotalAssets, .marked)

/-- The vault after any calls. -/
def run (vault : VaultState) (calls : List VaultCall) : VaultState :=
  Journal.run call vault calls

end VaultState

/-! ## Exact prices -/

theorem assetsToShares_of_pos {assets totalAssets : I64} {totalShares : U64}
    (hassets : 0 < assets.val) (hshares : 0 < totalShares)
    (htotal : 0 < totalAssets.val) :
    assetsToShares assets totalShares totalAssets =
      some (U64.saturate (assets.val * totalShares.val / totalAssets.val)) := by
  have hproduct : 0 ≤ assets.val * totalShares.val :=
    mul_nonneg hassets.le (Int.natCast_nonneg _)
  have hraw : ¬ assets.val * totalShares.val / totalAssets.val < 0 :=
    not_lt.2 (Int.ediv_nonneg hproduct htotal.le)
  rw [assetsToShares, if_neg hassets.not_ge, if_neg hshares.ne', if_neg htotal.not_ge]
  simp only [saturateI128_mul hassets.le, Int.tdiv_eq_ediv_of_nonneg hproduct]
  rw [if_neg hraw]

/-- A share of the assets is at most all of them. -/
theorem shareOfAssets_range {shares totalShares : U64} {totalAssets : I64}
    (hshares : 0 < shares) (havailable : shares ≤ totalShares)
    (htotal : 0 < totalAssets.val) :
    0 ≤ shares.val * totalAssets.val / totalShares.val ∧
      shares.val * totalAssets.val / totalShares.val ≤ totalAssets.val := by
  have hpositive : (0 : ℤ) < totalShares.val := by exact_mod_cast hshares.trans_le havailable
  have hle : (shares.val : ℤ) ≤ totalShares.val := by exact_mod_cast havailable
  constructor
  · exact Int.ediv_nonneg (mul_nonneg (Int.natCast_nonneg _) htotal.le) hpositive.le
  · apply Int.ediv_le_of_le_mul hpositive
    rw [mul_comm totalAssets.val]
    exact mul_le_mul_of_nonneg_right hle htotal.le

theorem sharesToAssets_of_pos {shares totalShares : U64} {totalAssets : I64}
    (hshares : 0 < shares) (havailable : shares ≤ totalShares)
    (htotal : 0 < totalAssets.val) :
    ∃ returned : I64, sharesToAssets shares totalShares totalAssets = some returned ∧
      returned.val = shares.val * totalAssets.val / totalShares.val := by
  obtain ⟨hlower, hupper⟩ := shareOfAssets_range hshares havailable htotal
  have hfits : InI64 (shares.val * totalAssets.val / totalShares.val) := by
    have hword := totalAssets.upper
    exact ⟨by omega, by omega⟩
  have hproduct : 0 ≤ (shares.val : ℤ) * totalAssets.val :=
    mul_nonneg (Int.natCast_nonneg _) htotal.le
  have hnone : ¬ (shares = 0 ∨ totalShares = 0 ∨ totalAssets.val ≤ 0) := by
    rintro (hzero | hzero | hle)
    · exact hshares.ne' hzero
    · exact (hshares.trans_le havailable).ne' hzero
    · exact htotal.not_ge hle
  refine ⟨.saturate (shares.val * totalAssets.val / totalShares.val), ?_,
    I64.saturate_val_of_inI64 hfits⟩
  rw [sharesToAssets, if_neg hnone, mul_comm, saturateI128_mul htotal.le, mul_comm,
    Int.tdiv_eq_ediv_of_nonneg hproduct, toI64?, if_pos hfits]

/-- While there are assets, shares the vault has can be burned for their part of the
assets, which is subtracted without saturating. -/
theorem withdraw_of_pos {vault : VaultState} {shares : U64} (hshares : 0 < shares)
    (havailable : shares ≤ vault.totalShares) (htotal : 0 < vault.totalAssets.val) :
    ∃ after result, vault.withdraw shares = .ok (after, result) ∧
      result.assetsReturned.val =
        shares.val * vault.totalAssets.val / vault.totalShares.val ∧
      (after.totalShares.val : ℤ) = vault.totalShares.val - shares.val ∧
      after.totalAssets.val = vault.totalAssets.val - result.assetsReturned.val := by
  obtain ⟨returned, hreturned, hval⟩ := sharesToAssets_of_pos hshares havailable htotal
  obtain ⟨hlower, hupper⟩ := shareOfAssets_range hshares havailable htotal
  have hsolvent : ¬ vault.isInsolvent = true := by
    simp [VaultState.isInsolvent, htotal]
  have hfits : InI64 (vault.totalAssets.val - returned.val) := by
    have hword := vault.totalAssets.upper
    exact ⟨by omega, by omega⟩
  refine ⟨{ vault with
      totalShares := vault.totalShares - shares
      totalAssets := vault.totalAssets.saturatingSub returned },
    { assetsReturned := returned, newTotalShares := vault.totalShares - shares
      newTotalAssets := vault.totalAssets.saturatingSub returned }, ?_, hval,
    totalShares_sub havailable, I64.saturatingSub_val_of_inI64 hfits⟩
  rw [VaultState.withdraw, if_neg hshares.ne', if_neg havailable.not_gt, if_neg hsolvent,
    hreturned]

/-! ## Deposits that fit -/

/-- The shares of the deposit fit beside those there are: at the current price the
deposited and the present assets together are fewer than `2 ^ 64` shares. -/
def SharesFit (vault : VaultState) (assets : I64) : Prop :=
  0 < vault.totalShares →
    vault.totalShares.val * (vault.totalAssets.val + assets.val) <
      2 ^ 64 * vault.totalAssets.val

theorem deposit_backed {vault after : VaultState} {assets : I64} {result : DepositResult}
    (hdeposit : vault.deposit assets = .ok (after, result))
    (hshares : 0 < vault.totalShares) : 0 < vault.totalAssets.val := by
  obtain ⟨-, hsolvent, -⟩ := deposit_eq_ok hdeposit
  simpa [VaultState.isInsolvent, hshares] using hsolvent

/-- An accepted deposit into a vault without shares mints one for one. -/
theorem deposit_minted_of_empty {vault after : VaultState} {assets : I64}
    {result : DepositResult} (hdeposit : vault.deposit assets = .ok (after, result))
    (hempty : vault.totalShares = 0) : (result.sharesMinted.val : ℤ) = assets.val := by
  obtain ⟨hpositive, -, hminted, -⟩ := deposit_eq_ok hdeposit
  have hupper := assets.upper
  rw [assetsToShares, if_neg hpositive.not_ge, if_pos hempty] at hminted
  rw [← Option.some.inj hminted]
  exact U64.saturate_val_of_range hpositive.le (by omega)

/-- `SharesFit` says of the state before that the sum of the shares is exact. -/
theorem sharesFit_iff {vault after : VaultState} {assets : I64} {result : DepositResult}
    (hdeposit : vault.deposit assets = .ok (after, result)) :
    SharesFit vault assets ↔
      vault.totalShares.val + result.sharesMinted.val < 2 ^ 64 := by
  obtain ⟨hpositive, -, hminted, -⟩ := deposit_eq_ok hdeposit
  rcases eq_or_ne vault.totalShares 0 with hempty | hshares
  · have hval := deposit_minted_of_empty hdeposit hempty
    have hupper := assets.upper
    have hzero : vault.totalShares.val = 0 := congrArg Fin.val hempty
    simp only [SharesFit, hempty, lt_irrefl, false_implies, true_iff]
    change 0 + _ < _
    omega
  · have hexists : 0 < vault.totalShares := Fin.pos_of_ne_zero hshares
    have htotal := deposit_backed hdeposit hexists
    have hcount : (0 : ℤ) < vault.totalShares.val := by exact_mod_cast hexists
    rw [assetsToShares_of_pos hpositive hexists htotal] at hminted
    have hval : (result.sharesMinted.val : ℤ) = max 0 (min (2 ^ 64 - 1)
        (assets.val * vault.totalShares.val / vault.totalAssets.val)) := by
      rw [← Option.some.inj hminted]
      exact Int.toNat_of_nonneg (le_max_left _ _)
    have hquotient : 0 ≤ assets.val * vault.totalShares.val / vault.totalAssets.val :=
      Int.ediv_nonneg (mul_nonneg hpositive.le hcount.le) htotal.le
    -- A mint that was cut off at `2 ^ 64 - 1` does not fit beside any share.
    have hsum : vault.totalShares.val + result.sharesMinted.val < 2 ^ 64 ↔
        assets.val * vault.totalShares.val / vault.totalAssets.val <
          2 ^ 64 - vault.totalShares.val := by
      omega
    rw [hsum, Int.ediv_lt_iff_lt_mul htotal, SharesFit]
    constructor
    · intro hfits
      linarith [hfits hexists]
    · intro hfits _
      linarith

/-! ## The round trip -/

/-- Shares the vault has are redeemed for at most a deposit that fits. -/
theorem redeemed_le {vault after : VaultState} {assets : I64} {result : DepositResult}
    (hdeposit : vault.deposit assets = .ok (after, result))
    (hshares : 0 < vault.totalShares) (hfits : SharesFit vault assets) :
    result.sharesMinted.val * after.totalAssets.val / after.totalShares.val ≤
      assets.val := by
  have hsum := (sharesFit_iff hdeposit).1 hfits
  obtain ⟨hpositive, -, hminted, hsome, rfl⟩ := deposit_eq_ok hdeposit
  have hworth := assetsToShares_le hshares hminted
  have hassets : (vault.totalAssets.saturatingAdd assets).val ≤
      vault.totalAssets.val + assets.val := by
    have hlower := vault.totalAssets.lower
    rw [I64.saturatingAdd_val]
    omega
  have hcount : (0 : ℤ) < vault.totalShares.val := by exact_mod_cast hshares
  have hnonneg : (0 : ℤ) ≤ result.sharesMinted.val := Int.natCast_nonneg _
  simp only [U64.saturatingAdd_val_of_lt hsum, Nat.cast_add]
  apply Int.ediv_le_of_le_mul (by omega)
  calc
    (result.sharesMinted.val : ℤ) * (vault.totalAssets.saturatingAdd assets).val ≤
        result.sharesMinted.val * (vault.totalAssets.val + assets.val) :=
      mul_le_mul_of_nonneg_left hassets hnonneg
    _ = result.sharesMinted.val * vault.totalAssets.val +
        assets.val * result.sharesMinted.val := by ring
    _ ≤ assets.val * vault.totalShares.val + assets.val * result.sharesMinted.val := by
      linarith
    _ = assets.val * (vault.totalShares.val + result.sharesMinted.val) := by ring

theorem deposit_sharesMinted_le {vault after : VaultState} {assets : I64}
    {result : DepositResult} (hdeposit : vault.deposit assets = .ok (after, result)) :
    result.sharesMinted ≤ after.totalShares := by
  obtain ⟨-, -, -, -, rfl⟩ := deposit_eq_ok hdeposit
  have hword := result.sharesMinted.isLt
  rw [Fin.le_def]
  change _ ≤ (max 0 (min (2 ^ 64 - 1) ((vault.totalShares.val : ℤ) +
    result.sharesMinted.val))).toNat
  omega

/-- The vault after an accepted deposit has assets unless the deposit did not make up
for a negative mark. -/
theorem deposit_totalAssets_pos_iff {vault after : VaultState} {assets : I64}
    {result : DepositResult} (hdeposit : vault.deposit assets = .ok (after, result)) :
    0 < after.totalAssets.val ↔ 0 < vault.totalAssets.val + assets.val := by
  obtain ⟨-, -, -, -, rfl⟩ := deposit_eq_ok hdeposit
  simp only [I64.saturatingAdd_val]
  omega

theorem deposit_isInsolvent_eq_false_iff {vault after : VaultState} {assets : I64}
    {result : DepositResult} (hdeposit : vault.deposit assets = .ok (after, result)) :
    after.isInsolvent = false ↔ 0 < vault.totalAssets.val + assets.val := by
  have hsome : 0 < after.totalShares :=
    (deposit_eq_ok hdeposit).2.2.2.1.trans_le (deposit_sharesMinted_le hdeposit)
  rw [← deposit_totalAssets_pos_iff hdeposit]
  simp [VaultState.isInsolvent, hsome]

/-- The shares of an accepted deposit can be redeemed at once if there are assets. -/
theorem redeem_minted {vault after : VaultState} {assets : I64} {result : DepositResult}
    (hdeposit : vault.deposit assets = .ok (after, result))
    (hassets : 0 < vault.totalAssets.val + assets.val) :
    ∃ final redeemed, after.withdraw result.sharesMinted = .ok (final, redeemed) ∧
      redeemed.assetsReturned.val =
        result.sharesMinted.val * after.totalAssets.val / after.totalShares.val := by
  obtain ⟨final, redeemed, hwithdraw, hreturned, -⟩ :=
    withdraw_of_pos (deposit_eq_ok hdeposit).2.2.2.1 (deposit_sharesMinted_le hdeposit)
      ((deposit_totalAssets_pos_iff hdeposit).2 hassets)
  exact ⟨final, redeemed, hwithdraw, hreturned⟩

/-- The first holder's shares are all the shares, and are redeemed for all assets. -/
theorem redeemed_of_empty {vault after : VaultState} {assets : I64}
    {result : DepositResult} (hdeposit : vault.deposit assets = .ok (after, result))
    (hempty : vault.totalShares = 0) :
    result.sharesMinted.val * after.totalAssets.val / after.totalShares.val =
      (vault.totalAssets.saturatingAdd assets).val := by
  have hfits := (sharesFit_iff hdeposit).1 fun hshares =>
    absurd hempty hshares.ne'
  obtain ⟨-, -, -, hsome, rfl⟩ := deposit_eq_ok hdeposit
  have htotal : (vault.totalShares.saturatingAdd result.sharesMinted).val =
      result.sharesMinted.val := by
    rw [U64.saturatingAdd_val_of_lt hfits, hempty]
    exact zero_add _
  have hcount : (result.sharesMinted.val : ℤ) ≠ 0 := by exact_mod_cast hsome.ne'
  simp only [htotal]
  exact Int.mul_ediv_cancel_left _ hcount

/-- An accepted deposit followed at once by the withdrawal of its shares.

A vault that had shares is solvent after the deposit, and the withdrawal succeeds; it
returns at most the deposit if the new shares fit beside the old ones.  A vault that
had none mints one for one, is solvent exactly when deposit and mark together are
positive, and then the withdrawal returns all of them: at most the deposit if the mark
was not positive. -/
theorem deposit_then_withdraw (vault after : VaultState) (assets : I64)
    (result : DepositResult) (hdeposit : vault.deposit assets = .ok (after, result)) :
    (0 < vault.totalShares →
      after.isInsolvent = false ∧
      ∃ final redeemed, after.withdraw result.sharesMinted = .ok (final, redeemed) ∧
        (SharesFit vault assets → redeemed.assetsReturned.val ≤ assets.val)) ∧
    (vault.totalShares = 0 →
      (result.sharesMinted.val : ℤ) = assets.val ∧
      (after.isInsolvent = false ↔ 0 < vault.totalAssets.val + assets.val) ∧
      (0 < vault.totalAssets.val + assets.val →
        ∃ final redeemed, after.withdraw result.sharesMinted = .ok (final, redeemed) ∧
          redeemed.assetsReturned = vault.totalAssets.saturatingAdd assets ∧
          (vault.totalAssets.val ≤ 0 → redeemed.assetsReturned.val ≤ assets.val))) := by
  have hsolvent := deposit_isInsolvent_eq_false_iff hdeposit
  have hpositive := (deposit_eq_ok hdeposit).1
  constructor
  · intro hshares
    have hassets : 0 < vault.totalAssets.val + assets.val :=
      add_pos (deposit_backed hdeposit hshares) hpositive
    obtain ⟨final, redeemed, hwithdraw, hreturned⟩ := redeem_minted hdeposit hassets
    refine ⟨hsolvent.2 hassets, final, redeemed, hwithdraw, fun hfits => ?_⟩
    rw [hreturned]
    exact redeemed_le hdeposit hshares hfits
  · intro hempty
    refine ⟨deposit_minted_of_empty hdeposit hempty, hsolvent, fun hassets => ?_⟩
    obtain ⟨final, redeemed, hwithdraw, hreturned⟩ := redeem_minted hdeposit hassets
    rw [redeemed_of_empty hdeposit hempty] at hreturned
    refine ⟨final, redeemed, hwithdraw, I64.ext hreturned, fun hmark => ?_⟩
    rw [hreturned, I64.saturatingAdd_val]
    omega

/-- The vault of a manager who deposits 100, whose mark rises to 150, and who is
joined by a deposit of 50: 33 shares, redeemed for 49. -/
theorem deposit_then_withdraw_joined :
    ∃ after result,
      ((VaultState.new ⟨0⟩).run [.deposit 100, .markToMarket 150]).deposit 50 =
        .ok (after, result) ∧
      ∃ final redeemed, after.withdraw result.sharesMinted = .ok (final, redeemed) ∧
        redeemed.assetsReturned.val ≤ (50 : I64).val := by
  have hdeposit :
      ((VaultState.new ⟨0⟩).run [.deposit 100, .markToMarket 150]).deposit 50 =
        .ok ({ params := ⟨0⟩, totalShares := 133, totalAssets := 200 }, ⟨33, 133, 200⟩) := by
    decide +kernel
  obtain ⟨-, final, redeemed, hwithdraw, hreturned⟩ :=
    (deposit_then_withdraw _ _ _ _ hdeposit).1 (by decide +kernel)
  exact ⟨_, _, hdeposit, final, redeemed, hwithdraw,
    hreturned fun _ => by decide +kernel⟩

/-- After the deposit the vault is solvent, and its shares are redeemed at once for no
more than was deposited. -/
def RoundTrip (vault : VaultState) (assets : I64) : Prop :=
  ∀ after result, vault.deposit assets = .ok (after, result) →
    after.isInsolvent = false ∧
      ∃ final redeemed, after.withdraw result.sharesMinted = .ok (final, redeemed) ∧
        redeemed.assetsReturned.val ≤ assets.val

theorem not_roundTrip_of_returned {vault after final : VaultState} {assets : I64}
    {result : DepositResult} {redeemed : WithdrawResult}
    (hdeposit : vault.deposit assets = .ok (after, result))
    (hwithdraw : after.withdraw result.sharesMinted = .ok (final, redeemed))
    (hmore : assets.val < redeemed.assetsReturned.val) : ¬ RoundTrip vault assets := by
  intro hround
  obtain ⟨-, final', redeemed', hagain, hle⟩ := hround after result hdeposit
  rw [hwithdraw] at hagain
  obtain ⟨rfl, rfl⟩ := Prod.mk.inj (Except.ok.inj hagain)
  exact hmore.not_ge hle

/-- Three vaults of a new one: marked at 100 without shares, 50 returns 150; marked at
-100 without shares, 50 leaves it insolvent; with `2 ^ 64 - 1` shares marked at 1, a
deposit of 1 returns 2. -/
theorem roundTrip_fails :
    ¬ RoundTrip ((VaultState.new ⟨0⟩).run [.markToMarket 100]) 50 ∧
      ¬ RoundTrip ((VaultState.new ⟨0⟩).run [.markToMarket (-100)]) 50 ∧
      ¬ RoundTrip ((VaultState.new ⟨0⟩).run [.deposit I64.maxValue, .markToMarket 1,
        .deposit 1, .markToMarket 1, .deposit 1, .markToMarket 1]) 1 := by
  refine ⟨?_, ?_, ?_⟩
  · have hdeposit : ((VaultState.new ⟨0⟩).run [.markToMarket 100]).deposit 50 =
        .ok (⟨⟨0⟩, 50, 150⟩, ⟨50, 50, 150⟩) := by decide +kernel
    have hwithdraw : (VaultState.mk ⟨0⟩ 50 150).withdraw 50 =
        .ok (⟨⟨0⟩, 0, 0⟩, ⟨150, 0, 0⟩) := by decide +kernel
    exact not_roundTrip_of_returned hdeposit hwithdraw (by decide +kernel)
  · intro hround
    have hdeposit : ((VaultState.new ⟨0⟩).run [.markToMarket (-100)]).deposit 50 =
        .ok (⟨⟨0⟩, 50, -50⟩, ⟨50, 50, -50⟩) := by decide +kernel
    exact absurd (hround _ _ hdeposit).1 (by decide +kernel)
  · have hdeposit : ((VaultState.new ⟨0⟩).run [.deposit I64.maxValue, .markToMarket 1,
        .deposit 1, .markToMarket 1, .deposit 1, .markToMarket 1]).deposit 1 =
        .ok (⟨⟨0⟩, U64.maxValue, 2⟩, ⟨U64.maxValue, U64.maxValue, 2⟩) := by decide +kernel
    have hwithdraw : (VaultState.mk ⟨0⟩ U64.maxValue 2).withdraw U64.maxValue =
        .ok (⟨⟨0⟩, 0, 0⟩, ⟨2, 0, 0⟩) := by decide +kernel
    exact not_roundTrip_of_returned hdeposit hwithdraw (by decide +kernel)

end OpenHl.Vault
