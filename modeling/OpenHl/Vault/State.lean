import OpenHl.Core.Machine

/-!
# The vault

`crates/vault`: the totals of the vault and the share price, as far as the
per-block coordinator touches them.
-/

namespace OpenHl.Vault

open Machine

def sharePriceBpsScale : I64 := 10000

structure VaultParams where
  minDeposit : I64
  deriving DecidableEq

def VaultParams.productionDefault : VaultParams := { minDeposit := 100 }

structure VaultState where
  params : VaultParams
  totalShares : U64
  totalAssets : I64
  deriving DecidableEq

def VaultState.new (params : VaultParams) : VaultState :=
  { params := params, totalShares := 0, totalAssets := 0 }

/-- The vault of a persisted snapshot; nothing is checked. -/
def VaultState.restore (params : VaultParams) (totalShares : U64) (totalAssets : I64) :
    VaultState :=
  { params := params, totalShares := totalShares, totalAssets := totalAssets }

/-- The word of an exact integer, `none` when it does not fit. -/
def toI64? (value : ℤ) : Option I64 :=
  if InI64 value then some (.saturate value) else none

def sharePriceBps (totalShares : U64) (totalAssets : I64) : Option I64 :=
  if totalShares = 0 then some sharePriceBpsScale
  else if totalAssets.val ≤ 0 then none
  else toI64? ((saturateI128 (totalAssets.val * sharePriceBpsScale.val)).tdiv
    totalShares.val)

def VaultState.sharePriceBps (vault : VaultState) : Option I64 :=
  Vault.sharePriceBps vault.totalShares vault.totalAssets

def VaultState.markToMarket (vault : VaultState) (newTotalAssets : I64) :
    VaultState := { vault with totalAssets := newTotalAssets }

end OpenHl.Vault
