import OpenHl.Vault.Redemption

/-!
# The books of the vault

The totals of a vault against what its callers were told.  A deposit adds to both
totals with saturation and reports the shares it computed, so that the books agree with
the reports as long as no sum saturates; a withdrawal always books what it reports.
-/

namespace OpenHl.Vault

open Machine

namespace VaultReply

def sharesMinted : VaultReply → ℤ
  | .deposited _ result => result.sharesMinted.val
  | _ => 0

def sharesBurned : VaultReply → ℤ
  | .withdrawn shares _ => shares.val
  | _ => 0

def assetsDeposited : VaultReply → ℤ
  | .deposited assets _ => assets.val
  | _ => 0

def assetsReturned : VaultReply → ℤ
  | .withdrawn _ result => result.assetsReturned.val
  | _ => 0

def isRejected : VaultReply → Bool
  | .depositRejected _ => true
  | .withdrawRejected _ => true
  | _ => false

end VaultReply

def VaultCall.isMark : VaultCall → Bool
  | .markToMarket _ => true
  | _ => false

namespace VaultState

/-- What the callers were told in the course of the calls. -/
def replies (vault : VaultState) (calls : List VaultCall) : List VaultReply :=
  Journal.journal call vault calls

/-- The sum of an amount over what the callers were told. -/
def reported (amount : VaultReply → ℤ) (vault : VaultState) (calls : List VaultCall) : ℤ :=
  ((vault.replies calls).map amount).sum

/-- Holders withdraw one after the other. -/
def redeemAll (vault : VaultState) : List U64 → Except WithdrawError VaultState
  | [] => .ok vault
  | shares :: holdings =>
      match vault.withdraw shares with
      | .ok (after, _) => after.redeemAll holdings
      | .error failure => .error failure

end VaultState

/-! ## One call -/

/-- Neither sum of the deposit saturates. -/
def DepositFits (vault : VaultState) (assets : I64) : Prop :=
  SharesFit vault assets ∧ vault.totalAssets.val + assets.val < 2 ^ 63

theorem deposit_totalShares {vault after : VaultState} {assets : I64}
    {result : DepositResult} (hdeposit : vault.deposit assets = .ok (after, result)) :
    (after.totalShares.val : ℤ) = vault.totalShares.val + result.sharesMinted.val ↔
      SharesFit vault assets := by
  rw [sharesFit_iff hdeposit]
  obtain ⟨-, -, -, -, rfl⟩ := deposit_eq_ok hdeposit
  change ((max 0 (min (2 ^ 64 - 1) ((vault.totalShares.val : ℤ) +
    result.sharesMinted.val))).toNat : ℤ) = _ ↔ _
  omega

theorem deposit_totalAssets {vault after : VaultState} {assets : I64}
    {result : DepositResult} (hdeposit : vault.deposit assets = .ok (after, result)) :
    after.totalAssets.val = vault.totalAssets.val + assets.val ↔
      vault.totalAssets.val + assets.val < 2 ^ 63 := by
  obtain ⟨hpositive, -, -, -, rfl⟩ := deposit_eq_ok hdeposit
  have hlower := vault.totalAssets.lower
  simp only [I64.saturatingAdd_val]
  omega

theorem withdraw_backed {vault after : VaultState} {shares : U64}
    {result : WithdrawResult}
    (hwithdraw : vault.withdraw shares = .ok (after, result)) :
    0 < vault.totalAssets.val := by
  obtain ⟨-, -, hreturned, -⟩ := withdraw_eq_ok hwithdraw
  by_contra hnone
  rw [sharesToAssets, if_pos (.inr (.inr (not_lt.1 hnone)))] at hreturned
  cases hreturned

/-- A withdrawal books what it reports. -/
theorem withdraw_totals {vault after : VaultState} {shares : U64}
    {result : WithdrawResult}
    (hwithdraw : vault.withdraw shares = .ok (after, result)) :
    (after.totalShares.val : ℤ) = vault.totalShares.val - shares.val ∧
      after.totalAssets.val = vault.totalAssets.val - result.assetsReturned.val := by
  obtain ⟨hshares, havailable, -⟩ := withdraw_eq_ok hwithdraw
  obtain ⟨after', result', hagain, -, htotals⟩ :=
    withdraw_of_pos hshares havailable (withdraw_backed hwithdraw)
  rw [hwithdraw] at hagain
  obtain ⟨rfl, rfl⟩ := Prod.mk.inj (Except.ok.inj hagain)
  exact htotals

/-- The net shares of a reply. -/
def VaultReply.netShares (reply : VaultReply) : ℤ :=
  reply.sharesMinted - reply.sharesBurned

/-- The net assets of a reply. -/
def VaultReply.netAssets (reply : VaultReply) : ℤ :=
  reply.assetsDeposited - reply.assetsReturned

/-- If the call is a deposit that is accepted, it meets the condition. -/
def MeetsDeposit (condition : VaultState → I64 → Prop) (vault : VaultState)
    (next : VaultCall) : Prop :=
  ∀ assets accepted, next = .deposit assets → vault.deposit assets = .ok accepted →
    condition vault assets

/-- What a call does. -/
theorem call_cases (vault : VaultState) (next : VaultCall) :
    (∃ assets after result, next = .deposit assets ∧
      vault.deposit assets = .ok (after, result) ∧
      vault.call next = (after, .deposited assets result)) ∨
    (∃ shares after result, next = .withdraw shares ∧
      vault.withdraw shares = .ok (after, result) ∧
      vault.call next = (after, .withdrawn shares result)) ∨
    (∃ newTotalAssets, next = .markToMarket newTotalAssets ∧
      vault.call next = (vault.markToMarket newTotalAssets, .marked)) ∨
    (∃ reply, vault.call next = (vault, reply) ∧ reply.isRejected = true ∧
      ∀ assets accepted, next = .deposit assets → vault.deposit assets ≠ .ok accepted) := by
  cases next with
  | deposit assets =>
      cases hdeposit : vault.deposit assets with
      | error failure =>
          refine .inr (.inr (.inr ⟨.depositRejected failure, ?_, rfl, ?_⟩))
          · simp [VaultState.call, hdeposit]
          · rintro _ accepted ⟨⟩ haccepted
            rw [hdeposit] at haccepted
            cases haccepted
      | ok accepted =>
          exact .inl ⟨assets, accepted.1, accepted.2, rfl, hdeposit,
            by simp [VaultState.call, hdeposit]⟩
  | withdraw shares =>
      cases hwithdraw : vault.withdraw shares with
      | error failure =>
          refine .inr (.inr (.inr ⟨.withdrawRejected failure, ?_, rfl, ?_⟩))
          · simp [VaultState.call, hwithdraw]
          · rintro _ _ ⟨⟩
      | ok accepted =>
          exact .inr (.inl ⟨shares, accepted.1, accepted.2, rfl, hwithdraw,
            by simp [VaultState.call, hwithdraw]⟩)
  | markToMarket newTotalAssets => exact .inr (.inr (.inl ⟨newTotalAssets, rfl, rfl⟩))

theorem VaultReply.net_of_rejected {reply : VaultReply} (hrejected : reply.isRejected = true) :
    reply.netShares = 0 ∧ reply.netAssets = 0 := by
  cases reply with
  | depositRejected failure => exact ⟨rfl, rfl⟩
  | withdrawRejected failure => exact ⟨rfl, rfl⟩
  | deposited assets result => cases hrejected
  | withdrawn shares result => cases hrejected
  | marked => cases hrejected

theorem meetsDeposit_iff {condition : VaultState → I64 → Prop} {vault : VaultState}
    {assets : I64} {accepted : VaultState × DepositResult}
    (hdeposit : vault.deposit assets = .ok accepted) :
    MeetsDeposit condition vault (.deposit assets) ↔ condition vault assets := by
  constructor
  · intro hmeets
    exact hmeets assets accepted rfl hdeposit
  · rintro hcondition _ _ ⟨⟩ -
    exact hcondition

theorem MeetsDeposit.of_refused {condition : VaultState → I64 → Prop} {vault : VaultState}
    {next : VaultCall}
    (hrefused : ∀ assets accepted, next = .deposit assets →
      vault.deposit assets ≠ .ok accepted) : MeetsDeposit condition vault next := by
  intro assets accepted hnext hdeposit
  exact absurd hdeposit (hrefused assets accepted hnext)

/-- A call books the shares it reports unless it is a deposit whose sum of shares
saturates. -/
theorem call_books_shares_iff (vault : VaultState) (next : VaultCall) :
    Journal.Books VaultState.call (fun state => (state.totalShares.val : ℤ))
        VaultReply.netShares vault next ↔ MeetsDeposit SharesFit vault next := by
  rw [Journal.Books]
  obtain ⟨assets, after, result, rfl, hdeposit, hcall⟩ |
    ⟨shares, after, result, rfl, hwithdraw, hcall⟩ | ⟨newTotalAssets, rfl, hcall⟩ |
    ⟨reply, hcall, hrejected, hnone⟩ := call_cases vault next
  · rw [hcall, meetsDeposit_iff hdeposit, ← deposit_totalShares hdeposit]
    simp [VaultReply.netShares, VaultReply.sharesMinted, VaultReply.sharesBurned]
  · rw [hcall]
    simp [MeetsDeposit, VaultReply.netShares, VaultReply.sharesMinted,
      VaultReply.sharesBurned, (withdraw_totals hwithdraw).1, sub_eq_add_neg]
  · rw [hcall]
    simp [MeetsDeposit, VaultState.markToMarket, VaultReply.netShares,
      VaultReply.sharesMinted, VaultReply.sharesBurned]
  · rw [hcall, (VaultReply.net_of_rejected hrejected).1]
    simp only [add_zero, true_iff]
    exact .of_refused hnone

/-- The same for assets and calls other than a mark. -/
theorem call_books_assets_iff (vault : VaultState) {next : VaultCall}
    (hmark : next.isMark = false) :
    Journal.Books VaultState.call (fun state => state.totalAssets.val)
        VaultReply.netAssets vault next ↔
      MeetsDeposit (fun state assets => state.totalAssets.val + assets.val < 2 ^ 63)
        vault next := by
  rw [Journal.Books]
  obtain ⟨assets, after, result, rfl, hdeposit, hcall⟩ |
    ⟨shares, after, result, rfl, hwithdraw, hcall⟩ | ⟨newTotalAssets, rfl, hcall⟩ |
    ⟨reply, hcall, hrejected, hnone⟩ := call_cases vault next
  · rw [hcall, meetsDeposit_iff hdeposit, ← deposit_totalAssets hdeposit]
    simp [VaultReply.netAssets, VaultReply.assetsDeposited, VaultReply.assetsReturned]
  · rw [hcall]
    simp [MeetsDeposit, VaultReply.netAssets, VaultReply.assetsDeposited,
      VaultReply.assetsReturned, (withdraw_totals hwithdraw).2, sub_eq_add_neg]
  · cases hmark
  · rw [hcall, (VaultReply.net_of_rejected hrejected).2]
    simp only [add_zero, true_iff]
    exact .of_refused hnone

/-! ## Redeeming all holdings -/

/-- Burning some of the shares keeps the vault solvent. -/
theorem withdraw_solvent {vault after : VaultState} {shares : U64}
    {result : WithdrawResult}
    (hwithdraw : vault.withdraw shares = .ok (after, result)) :
    after.isInsolvent = false := by
  have hassets := withdraw_backed hwithdraw
  obtain ⟨hshares, havailable, hreturned, -⟩ := withdraw_eq_ok hwithdraw
  obtain ⟨hcount, htotal⟩ := withdraw_totals hwithdraw
  obtain ⟨-, hworth⟩ := sharesToAssets_le hreturned
  rcases eq_or_ne after.totalShares 0 with hempty | hleft
  · simp [VaultState.isInsolvent, hempty]
  · have hrest : (0 : ℤ) < after.totalShares.val := by
      exact_mod_cast Fin.pos_of_ne_zero hleft
    have hfewer : (shares.val : ℤ) < vault.totalShares.val := by omega
    have hless : result.assetsReturned.val < vault.totalAssets.val := by
      refine lt_of_mul_lt_mul_right ?_ (Int.natCast_nonneg vault.totalShares.val)
      calc
        result.assetsReturned.val * vault.totalShares.val ≤
            shares.val * vault.totalAssets.val := hworth
        _ < vault.totalShares.val * vault.totalAssets.val :=
          mul_lt_mul_of_pos_right hfewer hassets
        _ = vault.totalAssets.val * vault.totalShares.val := mul_comm _ _
    have hpositive : 0 < after.totalAssets.val := by omega
    simp [VaultState.isInsolvent, hpositive]

/-- A solvent vault redeems holdings that make up its shares, whatever their order. -/
theorem redeemAll_ok {vault : VaultState} {holdings : List U64}
    (hsolvent : vault.isInsolvent = false) (hpositive : ∀ shares ∈ holdings, 0 < shares)
    (hsum : (holdings.map fun shares => (shares.val : ℤ)).sum = vault.totalShares.val) :
    ∃ final, vault.redeemAll holdings = .ok final ∧ final.totalShares = 0 := by
  induction holdings generalizing vault with
  | nil =>
      refine ⟨vault, rfl, Fin.ext ?_⟩
      simpa using hsum.symm
  | cons shares holdings ih =>
      have hshares := hpositive shares List.mem_cons_self
      have hrest : 0 ≤ (holdings.map fun shares => (shares.val : ℤ)).sum :=
        List.sum_nonneg (by simp)
      rw [List.map_cons, List.sum_cons] at hsum
      have havailable : shares ≤ vault.totalShares := by
        rw [Fin.le_def]
        omega
      have hassets : 0 < vault.totalAssets.val := by
        simpa [VaultState.isInsolvent, hshares.trans_le havailable] using hsolvent
      obtain ⟨after, result, hwithdraw, -, hcount, -⟩ :=
        withdraw_of_pos hshares havailable hassets
      rw [VaultState.redeemAll, hwithdraw]
      exact ih (withdraw_solvent hwithdraw)
        (fun others hothers => hpositive others (List.mem_cons_of_mem _ hothers))
        (by omega)

/-! ## Whole runs -/

/-- The shares of the vault are those its callers were told of since it was new. -/
def SharesBooked (params : VaultParams) (calls : List VaultCall) : Prop :=
  (((VaultState.new params).run calls).totalShares.val : ℤ) =
    (VaultState.new params).reported VaultReply.sharesMinted calls -
      (VaultState.new params).reported VaultReply.sharesBurned calls

/-- From the vault on, the assets change by what the callers were told. -/
def AssetsBooked (vault : VaultState) (calls : List VaultCall) : Prop :=
  (vault.run calls).totalAssets.val = vault.totalAssets.val +
    (vault.reported VaultReply.assetsDeposited calls -
      vault.reported VaultReply.assetsReturned calls)

/-- Every accepted deposit of the run fits. -/
def DepositsFit (params : VaultParams) (calls : List VaultCall) : Prop :=
  ∀ before assets accepted, before ++ [.deposit assets] <+: calls →
    ((VaultState.new params).run before).deposit assets = .ok accepted →
    DepositFits ((VaultState.new params).run before) assets

theorem total_netShares (vault : VaultState) (calls : List VaultCall) :
    Journal.total VaultState.call VaultReply.netShares vault calls =
      vault.reported VaultReply.sharesMinted calls -
        vault.reported VaultReply.sharesBurned calls :=
  Journal.total_sub _ _ _ vault calls

theorem total_netAssets (vault : VaultState) (calls : List VaultCall) :
    Journal.total VaultState.call VaultReply.netAssets vault calls =
      vault.reported VaultReply.assetsDeposited calls -
        vault.reported VaultReply.assetsReturned calls :=
  Journal.total_sub _ _ _ vault calls

theorem sharesBooked_iff (params : VaultParams) (calls : List VaultCall) :
    (∀ before, before <+: calls → SharesBooked params before) ↔
      ∀ before next, before ++ [next] <+: calls →
        MeetsDeposit SharesFit ((VaultState.new params).run before) next := by
  have hbooks := Journal.prefixes_booked_iff VaultState.call
    (fun state => (state.totalShares.val : ℤ)) VaultReply.netShares (.new params) calls
  have hempty : ((VaultState.new params).totalShares.val : ℤ) = 0 := rfl
  simp only [total_netShares, call_books_shares_iff, hempty, zero_add] at hbooks
  exact hbooks

theorem assetsBooked_iff (params : VaultParams) (calls : List VaultCall) :
    (∀ before segment, before ++ segment <+: calls →
      (∀ next ∈ segment, next.isMark = false) →
        AssetsBooked ((VaultState.new params).run before) segment) ↔
      ∀ before next, before ++ [next] <+: calls → next.isMark = false →
        MeetsDeposit (fun state assets => state.totalAssets.val + assets.val < 2 ^ 63)
          ((VaultState.new params).run before) next := by
  have hbooks := Journal.segments_booked_iff VaultState.call
    (fun state => state.totalAssets.val) VaultReply.netAssets (.new params) calls
    (fun next => next.isMark = false)
  simp only [total_netAssets, Journal.run_append] at hbooks
  refine hbooks.trans ?_
  constructor
  · intro hcalls before next hbefore hmark
    exact (call_books_assets_iff _ hmark).1 (hcalls before next hbefore hmark)
  · intro hcalls before next hbefore hmark
    exact (call_books_assets_iff _ hmark).2 (hcalls before next hbefore hmark)

theorem depositsFit_iff (params : VaultParams) (calls : List VaultCall) :
    DepositsFit params calls ↔
      (∀ before next, before ++ [next] <+: calls →
        MeetsDeposit SharesFit ((VaultState.new params).run before) next) ∧
      ∀ before next, before ++ [next] <+: calls → next.isMark = false →
        MeetsDeposit (fun state assets => state.totalAssets.val + assets.val < 2 ^ 63)
          ((VaultState.new params).run before) next := by
  constructor
  · intro hfit
    constructor
    · rintro before _ hbefore assets accepted rfl hdeposit
      exact (hfit before assets accepted hbefore hdeposit).1
    · rintro before _ hbefore - assets accepted rfl hdeposit
      exact (hfit before assets accepted hbefore hdeposit).2
  · rintro ⟨hshares, hassets⟩ before assets accepted hbefore hdeposit
    exact ⟨hshares before _ hbefore assets accepted rfl hdeposit,
      hassets before _ hbefore rfl assets accepted rfl hdeposit⟩

/-- In a run of a new vault the books are right at every point exactly if every accepted
deposit fits: the shares are those minted less those burned, and between marks the
assets change by what was deposited less what was returned.  A rejected call changes
nothing.  In a run whose deposits fit, a solvent vault redeems all holdings that make up
the shares its callers were told of, in whatever order. -/
theorem books_match_reports (params : VaultParams) (calls : List VaultCall) :
    (((∀ before, before <+: calls → SharesBooked params before) ∧
        ∀ before segment, before ++ segment <+: calls →
          (∀ next ∈ segment, next.isMark = false) →
            AssetsBooked ((VaultState.new params).run before) segment) ↔
      DepositsFit params calls) ∧
    (∀ (vault : VaultState) (next : VaultCall),
      (vault.call next).2.isRejected = true → (vault.call next).1 = vault) ∧
    (DepositsFit params calls →
      ((VaultState.new params).run calls).isInsolvent = false →
      ∀ holdings : List U64, (∀ shares ∈ holdings, 0 < shares) →
        (holdings.map fun shares => (shares.val : ℤ)).sum =
          (VaultState.new params).reported VaultReply.sharesMinted calls -
            (VaultState.new params).reported VaultReply.sharesBurned calls →
        ∃ final, ((VaultState.new params).run calls).redeemAll holdings = .ok final ∧
          final.totalShares = 0) := by
  refine ⟨?_, ?_, ?_⟩
  · rw [sharesBooked_iff, assetsBooked_iff, depositsFit_iff]
  · intro vault next hrejected
    obtain ⟨assets, after, result, -, -, hcall⟩ | ⟨shares, after, result, -, -, hcall⟩ |
      ⟨newTotalAssets, -, hcall⟩ | ⟨reply, hcall, -⟩ := call_cases vault next
    · rw [hcall] at hrejected
      cases hrejected
    · rw [hcall] at hrejected
      cases hrejected
    · rw [hcall] at hrejected
      cases hrejected
    · rw [hcall]
  · intro hfit hsolvent holdings hpositive hsum
    have hbooked : SharesBooked params calls :=
      (sharesBooked_iff params calls).2 ((depositsFit_iff params calls).1 hfit).1 calls
        (List.prefix_refl calls)
    exact redeemAll_ok hsolvent hpositive (hsum.trans hbooked.symm)

/-- Deposits whose shares exceed a word, deposits whose assets exceed a word, and the
holder of a vault that was marked below zero. -/
theorem books_fail :
    ¬ SharesBooked ⟨0⟩ [.deposit I64.maxValue, .markToMarket 1, .deposit 1,
        .markToMarket 1, .deposit 1] ∧
      ¬ AssetsBooked (.new ⟨0⟩) [.deposit I64.maxValue, .deposit 1] ∧
      (SharesBooked ⟨0⟩ [.deposit 100, .markToMarket (-50)] ∧
        ((VaultState.new ⟨0⟩).run [.deposit 100, .markToMarket (-50)]).redeemAll [100] =
          .error (.insolventVault (-50) 100)) := by
  rw [SharesBooked, AssetsBooked, SharesBooked]
  refine ⟨by decide +kernel, by decide +kernel, by decide +kernel, by decide +kernel⟩

end OpenHl.Vault
