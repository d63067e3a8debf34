import OpenHl.Vault.State

/-!
# Deposits and withdrawals of the vault

A deposit mints shares at the current value per share and a withdrawal burns them,
both rounded down.  What the rounding keeps back stays with the holders.

`shareValue_nondecreasing`: along any sequence of deposits and withdrawals the
value per share does not fall, so that a vault back at its number of shares has at
least the assets it had.
-/

namespace OpenHl.Vault

open Machine

inductive DepositError where
  | nonPositiveAssets (provided : I64)
  | belowMinimum (provided minimum : I64)
  | insolventVault (totalAssets : I64) (totalShares : U64)
  | sharesRoundToZero (provided : I64)
  deriving DecidableEq

inductive WithdrawError where
  | zeroShares
  | insufficientShares (requested available : U64)
  | insolventVault (totalAssets : I64) (totalShares : U64)
  deriving DecidableEq

structure DepositResult where
  sharesMinted : U64
  newTotalShares : U64
  newTotalAssets : I64
  deriving DecidableEq

structure WithdrawResult where
  assetsReturned : I64
  newTotalShares : U64
  newTotalAssets : I64
  deriving DecidableEq

/-- Shares for a deposit; one for one while there are none. -/
def assetsToShares (assets : I64) (totalShares : U64) (totalAssets : I64) :
    Option U64 :=
  if assets.val ≤ 0 then none
  else if totalShares = 0 then some (U64.saturate assets.val)
  else if totalAssets.val ≤ 0 then none
  else
    let raw := (saturateI128 (assets.val * totalShares.val)).tdiv totalAssets.val
    if raw < 0 then none else some (U64.saturate raw)

/-- Assets for shares that are burned. -/
def sharesToAssets (shares totalShares : U64) (totalAssets : I64) : Option I64 :=
  if shares = 0 ∨ totalShares = 0 ∨ totalAssets.val ≤ 0 then none
  else toI64? ((saturateI128 (shares.val * totalAssets.val)).tdiv totalShares.val)

namespace VaultState

/-- Shares without assets behind them. -/
def isInsolvent (vault : VaultState) : Bool :=
  0 < vault.totalShares && vault.totalAssets.val ≤ 0

def deposit (vault : VaultState) (assets : I64) :
    Except DepositError (VaultState × DepositResult) :=
  if assets.val ≤ 0 then .error (.nonPositiveAssets assets)
  else if assets.val < vault.params.minDeposit.val then
    .error (.belowMinimum assets vault.params.minDeposit)
  else if vault.isInsolvent then
    .error (.insolventVault vault.totalAssets vault.totalShares)
  else
    match assetsToShares assets vault.totalShares vault.totalAssets with
    | none => .error (.insolventVault vault.totalAssets vault.totalShares)
    | some sharesMinted =>
        if sharesMinted = 0 then .error (.sharesRoundToZero assets)
        else
          let totalShares := vault.totalShares.saturatingAdd sharesMinted
          let totalAssets := vault.totalAssets.saturatingAdd assets
          .ok ({ vault with totalShares := totalShares, totalAssets := totalAssets },
            { sharesMinted := sharesMinted, newTotalShares := totalShares
              newTotalAssets := totalAssets })

def withdraw (vault : VaultState) (shares : U64) :
    Except WithdrawError (VaultState × WithdrawResult) :=
  if shares = 0 then .error .zeroShares
  else if vault.totalShares < shares then
    .error (.insufficientShares shares vault.totalShares)
  else if vault.isInsolvent then
    .error (.insolventVault vault.totalAssets vault.totalShares)
  else
    match sharesToAssets shares vault.totalShares vault.totalAssets with
    | none => .error (.insolventVault vault.totalAssets vault.totalShares)
    | some assetsReturned =>
        let totalShares := vault.totalShares - shares
        let totalAssets := vault.totalAssets.saturatingSub assetsReturned
        .ok ({ vault with totalShares := totalShares, totalAssets := totalAssets },
          { assetsReturned := assetsReturned, newTotalShares := totalShares
            newTotalAssets := totalAssets })

end VaultState

/-! ## Value per share -/

/-- The second vault has at least the value per share of the first. -/
def ShareValueLe (before after : VaultState) : Prop :=
  before.totalAssets.val * after.totalShares.val ≤
    after.totalAssets.val * before.totalShares.val

theorem ShareValueLe.trans {first second third : VaultState}
    (hshares : 0 < second.totalShares) (hle : ShareValueLe first second)
    (hnext : ShareValueLe second third) : ShareValueLe first third := by
  have hpositive : (0 : ℤ) < second.totalShares.val := by exact_mod_cast hshares
  have hfirst : (0 : ℤ) ≤ first.totalShares.val := Int.natCast_nonneg _
  have hthird : (0 : ℤ) ≤ third.totalShares.val := Int.natCast_nonneg _
  rw [ShareValueLe] at hle hnext ⊢
  refine le_of_mul_le_mul_right ?_ hpositive
  calc
    first.totalAssets.val * third.totalShares.val * second.totalShares.val =
        first.totalAssets.val * second.totalShares.val * third.totalShares.val := by ring
    _ ≤ second.totalAssets.val * first.totalShares.val * third.totalShares.val :=
      mul_le_mul_of_nonneg_right hle hthird
    _ = second.totalAssets.val * third.totalShares.val * first.totalShares.val := by ring
    _ ≤ third.totalAssets.val * second.totalShares.val * first.totalShares.val :=
      mul_le_mul_of_nonneg_right hnext hfirst
    _ = third.totalAssets.val * first.totalShares.val * second.totalShares.val := by ring

/-! ## One operation -/

/-- A product of two words is within 128 bits. -/
theorem saturateI128_mul {assets : I64} (hassets : 0 ≤ assets.val) (shares : U64) :
    saturateI128 (assets.val * shares.val) = assets.val * shares.val := by
  have hupper := assets.upper
  have hshares : (shares.val : ℤ) < 2 ^ 64 := by exact_mod_cast shares.isLt
  have hnonneg : (0 : ℤ) ≤ shares.val := Int.natCast_nonneg _
  apply saturateI128_of_inI128
  refine ⟨?_, ?_⟩
  · have hproduct : 0 ≤ assets.val * shares.val := mul_nonneg hassets hnonneg
    omega
  · calc
      assets.val * shares.val ≤ (2 ^ 63 - 1) * (2 ^ 64 - 1) := by
        apply mul_le_mul
        · omega
        · omega
        · exact hnonneg
        · norm_num
      _ < 2 ^ 127 := by norm_num

/-- The shares of a deposit are worth no more than the deposit. -/
theorem assetsToShares_le {assets totalAssets : I64} {totalShares minted : U64}
    (hshares : 0 < totalShares)
    (hminted : assetsToShares assets totalShares totalAssets = some minted) :
    minted.val * totalAssets.val ≤ assets.val * totalShares.val := by
  rw [assetsToShares] at hminted
  split_ifs at hminted with hpositive hnone hinsolvent
  · exact absurd hnone hshares.ne'
  · simp only [saturateI128_mul (not_le.1 hpositive).le, Option.ite_none_left_eq_some,
      Option.some.injEq] at hminted
    obtain ⟨hraw, rfl⟩ := hminted
    have hassets : 0 < totalAssets.val := not_le.1 hinsolvent
    have hproduct : 0 ≤ assets.val * totalShares.val :=
      mul_nonneg (not_le.1 hpositive).le (Int.natCast_nonneg _)
    have hcut : ((U64.saturate ((assets.val * totalShares.val).tdiv
        totalAssets.val)).val : ℤ) ≤ (assets.val * totalShares.val).tdiv
          totalAssets.val := by
      change ((max 0 (min (2 ^ 64 - 1) ((assets.val * totalShares.val).tdiv
        totalAssets.val))).toNat : ℤ) ≤ _
      omega
    calc
      _ ≤ (assets.val * totalShares.val).tdiv totalAssets.val * totalAssets.val :=
        mul_le_mul_of_nonneg_right hcut hassets.le
      _ ≤ assets.val * totalShares.val := by
        rw [Int.tdiv_eq_ediv_of_nonneg hproduct]
        exact Int.ediv_mul_le _ hassets.ne'

/-- What is paid for shares is no more than they are worth. -/
theorem sharesToAssets_le {shares totalShares : U64} {totalAssets returned : I64}
    (hreturned : sharesToAssets shares totalShares totalAssets = some returned) :
    0 ≤ returned.val ∧ returned.val * totalShares.val ≤ shares.val * totalAssets.val := by
  rw [sharesToAssets] at hreturned
  split_ifs at hreturned with hnone
  simp only [not_or, not_le] at hnone
  obtain ⟨-, hshares, hassets⟩ := hnone
  have hpositive : (0 : ℤ) < totalShares.val := by
    exact_mod_cast Nat.pos_of_ne_zero fun hzero => hshares (Fin.ext hzero)
  have hproduct : 0 ≤ (shares.val : ℤ) * totalAssets.val :=
    mul_nonneg (Int.natCast_nonneg _) hassets.le
  rw [mul_comm, saturateI128_mul hassets.le, mul_comm,
    Int.tdiv_eq_ediv_of_nonneg hproduct, toI64?] at hreturned
  split_ifs at hreturned with hfits
  have hval : returned.val = shares.val * totalAssets.val / totalShares.val := by
    rw [← Option.some.inj hreturned]
    exact I64.saturate_val_of_inI64 hfits
  rw [hval]
  exact ⟨Int.ediv_nonneg hproduct hpositive.le, Int.ediv_mul_le _ hpositive.ne'⟩

/-- An accepted operation that saturates neither total. -/
inductive Operates (before after : VaultState) : Prop
  | deposit {assets : I64} {result : DepositResult}
      (hdeposit : before.deposit assets = .ok (after, result))
      (hshares : before.totalShares.val + result.sharesMinted.val < 2 ^ 64)
      (hassets : InI64 (before.totalAssets.val + assets.val))
  | withdraw {shares : U64} {result : WithdrawResult}
      (hwithdraw : before.withdraw shares = .ok (after, result))
      (hassets : InI64 (before.totalAssets.val - result.assetsReturned.val))

/-- An operation that leaves shares. -/
def VaultStep (before after : VaultState) : Prop :=
  Operates before after ∧ 0 < after.totalShares

/-- What an accepted deposit found and did. -/
theorem deposit_eq_ok {before after : VaultState} {assets : I64}
    {result : DepositResult}
    (hdeposit : before.deposit assets = .ok (after, result)) :
    0 < assets.val ∧ before.isInsolvent = false ∧
      assetsToShares assets before.totalShares before.totalAssets =
        some result.sharesMinted ∧
      0 < result.sharesMinted ∧
      after = { before with
        totalShares := before.totalShares.saturatingAdd result.sharesMinted
        totalAssets := before.totalAssets.saturatingAdd assets } := by
  rw [VaultState.deposit] at hdeposit
  split_ifs at hdeposit with hpositive hminimum hsolvent
  cases hminted : assetsToShares assets before.totalShares before.totalAssets with
  | none => simp [hminted] at hdeposit
  | some minted =>
      simp only [hminted] at hdeposit
      split_ifs at hdeposit with hzero
      obtain ⟨rfl, rfl⟩ := Prod.mk.inj (Except.ok.inj hdeposit)
      exact ⟨not_le.1 hpositive, Bool.eq_false_iff.2 hsolvent, rfl,
        Fin.pos_of_ne_zero hzero, rfl⟩

/-- What an accepted withdrawal found and did. -/
theorem withdraw_eq_ok {before after : VaultState} {shares : U64}
    {result : WithdrawResult}
    (hwithdraw : before.withdraw shares = .ok (after, result)) :
    0 < shares ∧ shares ≤ before.totalShares ∧
      sharesToAssets shares before.totalShares before.totalAssets =
        some result.assetsReturned ∧
      after = { before with
        totalShares := before.totalShares - shares
        totalAssets := before.totalAssets.saturatingSub result.assetsReturned } := by
  rw [VaultState.withdraw] at hwithdraw
  split_ifs at hwithdraw with hzero havailable hsolvent
  cases hreturned : sharesToAssets shares before.totalShares before.totalAssets with
  | none => simp [hreturned] at hwithdraw
  | some returned =>
      simp only [hreturned] at hwithdraw
      obtain ⟨rfl, rfl⟩ := Prod.mk.inj (Except.ok.inj hwithdraw)
      exact ⟨Fin.pos_of_ne_zero hzero, not_lt.1 havailable, rfl, rfl⟩

/-- Burning shares the vault has leaves the rest. -/
theorem totalShares_sub {total shares : U64} (havailable : shares ≤ total) :
    ((total - shares : U64).val : ℤ) = total.val - shares.val := by
  rw [U64.val_sub_of_le havailable]
  exact Int.ofNat_sub havailable

theorem deposit_shareValueLe {before after : VaultState} {assets : I64}
    {result : DepositResult} (hpositive : 0 < before.totalShares)
    (hdeposit : before.deposit assets = .ok (after, result))
    (hshares : before.totalShares.val + result.sharesMinted.val < 2 ^ 64)
    (hassets : InI64 (before.totalAssets.val + assets.val)) :
    ShareValueLe before after := by
  obtain ⟨-, -, hminted, -, rfl⟩ := deposit_eq_ok hdeposit
  have hworth := assetsToShares_le hpositive hminted
  rw [ShareValueLe]
  simp only [U64.saturatingAdd_val_of_lt hshares, I64.saturatingAdd_val_of_inI64 hassets,
    Nat.cast_add]
  linarith

theorem withdraw_shareValueLe {before after : VaultState} {shares : U64}
    {result : WithdrawResult}
    (hwithdraw : before.withdraw shares = .ok (after, result))
    (hassets : InI64 (before.totalAssets.val - result.assetsReturned.val)) :
    ShareValueLe before after := by
  obtain ⟨-, havailable, hreturned, rfl⟩ := withdraw_eq_ok hwithdraw
  have hworth := (sharesToAssets_le hreturned).2
  rw [ShareValueLe]
  simp only [totalShares_sub havailable, I64.saturatingSub_val_of_inI64 hassets]
  linarith

/-! ## Sequences of operations -/

/-- Shares with assets behind them. -/
structure Backed (vault : VaultState) : Prop where
  shares : 0 < vault.totalShares
  assets : 0 < vault.totalAssets.val

theorem Backed.not_insolvent {vault : VaultState} (hbacked : Backed vault) :
    vault.isInsolvent = false := by
  have hassets := hbacked.assets
  simp [VaultState.isInsolvent, hassets]

theorem VaultStep.shareValueLe {before after : VaultState} (hbacked : Backed before)
    (hstep : VaultStep before after) : ShareValueLe before after := by
  cases hstep.1 with
  | deposit hdeposit hshares hassets =>
      exact deposit_shareValueLe hbacked.shares hdeposit hshares hassets
  | withdraw hwithdraw hassets => exact withdraw_shareValueLe hwithdraw hassets

theorem VaultStep.backed {before after : VaultState} (hbacked : Backed before)
    (hstep : VaultStep before after) : Backed after := by
  have hvalue := hstep.shareValueLe hbacked
  have hbefore : (0 : ℤ) < before.totalShares.val := by exact_mod_cast hbacked.shares
  have hafter : (0 : ℤ) < after.totalShares.val := by exact_mod_cast hstep.2
  refine ⟨hstep.2, pos_of_mul_pos_left ?_ hbefore.le⟩
  exact (mul_pos hbacked.assets hafter).trans_le hvalue

theorem backed_of_run {start finish : VaultState} (hbacked : Backed start)
    (hrun : Relation.ReflTransGen VaultStep start finish) : Backed finish := by
  induction hrun with
  | refl => exact hbacked
  | tail _ hstep ih => exact hstep.backed ih

theorem shareValueLe_of_run {start finish : VaultState} (hbacked : Backed start)
    (hrun : Relation.ReflTransGen VaultStep start finish) :
    ShareValueLe start finish := by
  induction hrun with
  | refl => exact le_refl _
  | tail hprior hstep ih =>
      have hmiddle := backed_of_run hbacked hprior
      exact ih.trans hmiddle.shares (hstep.shareValueLe hmiddle)

/-- From a vault with shares and assets, any deposits and withdrawals that leave
shares and saturate no total keep the vault solvent and never lower the value per
share, at the next operation or since the start.  Back at its number of shares, the
vault has at least the assets it had. -/
theorem shareValue_nondecreasing (start : VaultState) (hshares : 0 < start.totalShares)
    (hassets : 0 < start.totalAssets.val) (finish : VaultState)
    (hrun : Relation.ReflTransGen VaultStep start finish) :
    finish.isInsolvent = false ∧
      (∀ next, VaultStep finish next →
        finish.totalAssets.val * next.totalShares.val ≤
          next.totalAssets.val * finish.totalShares.val) ∧
      start.totalAssets.val * finish.totalShares.val ≤
        finish.totalAssets.val * start.totalShares.val ∧
      (finish.totalShares = start.totalShares →
        start.totalAssets.val ≤ finish.totalAssets.val) := by
  have hstart : Backed start := ⟨hshares, hassets⟩
  have hfinish := backed_of_run hstart hrun
  have hvalue := shareValueLe_of_run hstart hrun
  refine ⟨hfinish.not_insolvent, fun next hnext => hnext.shareValueLe hfinish, hvalue, ?_⟩
  intro hsame
  have hpositive : (0 : ℤ) < start.totalShares.val := by exact_mod_cast hshares
  rw [ShareValueLe, hsame] at hvalue
  exact le_of_mul_le_mul_right hvalue hpositive

/-- Three shares of ten assets. -/
def threeShares : VaultState :=
  { params := { minDeposit := 0 }, totalShares := 3, totalAssets := 10 }

/-- A deposit of 7 mints two shares, and burning them returns 6. -/
theorem shareValue_nondecreasing_threeShares :
    ∃ deposited withdrawn, threeShares.deposit 7 = .ok deposited ∧
      deposited.1.withdraw 2 = .ok withdrawn ∧ withdrawn.2.assetsReturned = 6 ∧
      threeShares.totalAssets.val ≤ withdrawn.1.totalAssets.val := by
  have hminted : threeShares.deposit 7 =
      .ok ({ threeShares with totalShares := 5, totalAssets := 17 }, ⟨2, 5, 17⟩) := by
    decide +kernel
  have hreturned : { threeShares with totalShares := 5, totalAssets := 17 }.withdraw 2 =
      .ok ({ threeShares with totalAssets := 11 }, ⟨6, 3, 11⟩) := by decide +kernel
  have hdeposit : VaultStep threeShares
      { threeShares with totalShares := 5, totalAssets := 17 } :=
    ⟨.deposit hminted (by decide +kernel) (by decide +kernel), by decide⟩
  have hwithdraw : VaultStep { threeShares with totalShares := 5, totalAssets := 17 }
      { threeShares with totalAssets := 11 } :=
    ⟨.withdraw hreturned (by decide +kernel), by decide⟩
  obtain ⟨-, -, -, hassets⟩ := shareValue_nondecreasing threeShares (by decide)
    (by decide +kernel) _ ((Relation.ReflTransGen.single hdeposit).tail hwithdraw)
  exact ⟨_, _, hminted, hreturned, rfl, hassets rfl⟩

end OpenHl.Vault
