import OpenHl.Clob.Book

/-!
# Funding

`crates/funding`: the premium of the mark over the index, the rate derived from
it, and the settlements of one interval.  Quantities in rates are scaled by
`rateScale`.
-/

namespace OpenHl.Funding

open Machine OpenHl.Clob

abbrev MarkPrice := U64
abbrev IndexPrice := U64

def rateScale : ℤ := 1000000000

structure Position where
  account : AccountId
  size : I64
  deriving DecidableEq

/-- What an interval adds to an account's collateral. -/
structure Settlement where
  account : AccountId
  delta : I64
  deriving DecidableEq

structure FundingParams where
  intervalSecs : U64
  rateCap : I64
  divisor : U32
  deriving DecidableEq

def FundingParams.hyperliquidDefault : FundingParams :=
  { intervalSecs := 3600, rateCap := 40000000, divisor := 8 }

def computePremium (mark : MarkPrice) (index : IndexPrice) : I64 :=
  if index = 0 then 0
  else
    let diff : ℤ := mark.val - index.val
    .saturate ((saturateI128 (diff * rateScale)).tdiv index.val)

/-- The premium divided by the divisor and clamped to the cap. -/
def computeRate (premium : I64) (params : FundingParams) : Checked I64 :=
  if params.divisor = 0 then .ok 0
  else do
    let raw := premium.val.tdiv params.divisor.val
    let cap ← params.rateCap.abs
    return .saturate (max (-cap.val) (min cap.val raw))

def settle (mark : MarkPrice) (rate : I64) (position : Position) :
    Checked Settlement := do
  let notional := saturateI128 (position.size.val * mark.val)
  let deltaUnscaled := saturateI128 (notional * rate.val)
  let negated ← negI128 deltaUnscaled
  return { account := position.account
           delta := .saturate (negated.tdiv rateScale) }

/-- One settlement per open position, in the order of the positions. -/
def applyFunding (positions : List Position) (mark : MarkPrice) (rate : I64) :
    Checked (List Settlement) :=
  if rate = 0 then .ok []
  else (positions.filter fun position => position.size ≠ 0).mapM (settle mark rate)

theorem settle_account {mark : MarkPrice} {rate : I64} {position : Position}
    {settlement : Settlement} (hsettle : settle mark rate position = .ok settlement) :
    settlement.account = position.account := by
  obtain ⟨negated, -, hresult⟩ := bind_eq_ok.1 hsettle
  cases hresult
  rfl

theorem mapM_settle_accounts {mark : MarkPrice} {rate : I64}
    {positions : List Position} {settlements : List Settlement}
    (hsettle : positions.mapM (settle mark rate) = .ok settlements) :
    settlements.map Settlement.account = positions.map Position.account := by
  induction positions generalizing settlements with
  | nil =>
      rw [List.mapM_nil] at hsettle
      cases hsettle
      rfl
  | cons position rest ih =>
      rw [List.mapM_cons] at hsettle
      obtain ⟨first, hfirst, hsettle⟩ := bind_eq_ok.1 hsettle
      obtain ⟨others, hothers, hresult⟩ := bind_eq_ok.1 hsettle
      cases hresult
      rw [List.map_cons, List.map_cons, ih hothers, settle_account hfirst]

/-- Settlements go to accounts with a position, each in its place. -/
theorem applyFunding_accounts {positions : List Position} {mark : MarkPrice}
    {rate : I64} {settlements : List Settlement}
    (hfunding : applyFunding positions mark rate = .ok settlements) :
    (settlements.map Settlement.account).Sublist
      (positions.map Position.account) := by
  rw [applyFunding] at hfunding
  split_ifs at hfunding
  · cases hfunding
    exact List.nil_sublist _
  · rw [mapM_settle_accounts hfunding]
    exact List.filter_sublist.map _

structure FundingClock where
  params : FundingParams
  lastSettledAt : U64
  deriving DecidableEq

structure FundingTick where
  settledAt : U64
  premium : I64
  rate : I64
  settlements : List Settlement
  deriving DecidableEq

/-- Settle once if the interval has elapsed; a long gap settles only once. -/
def FundingClock.tick (clock : FundingClock) (now : U64) (mark : MarkPrice)
    (index : IndexPrice) (positions : List Position) :
    Checked (FundingClock × Option FundingTick) :=
  if now < clock.lastSettledAt.saturatingAdd clock.params.intervalSecs then
    .ok (clock, none)
  else do
    let premium := computePremium mark index
    let rate ← computeRate premium clock.params
    let settlements ← applyFunding positions mark rate
    return ({ clock with lastSettledAt := now },
      some { settledAt := now, premium := premium, rate := rate,
             settlements := settlements })

/-- A tick that returns waits, or settles now because the interval has elapsed. -/
theorem FundingClock.tick_eq_ok {clock after : FundingClock} {now : U64}
    {mark : MarkPrice} {index : IndexPrice} {positions : List Position}
    {funding : Option FundingTick}
    (htick : clock.tick now mark index positions = .ok (after, funding)) :
    (funding = none ∧ after = clock) ∨
    ∃ settled, funding = some settled ∧ settled.settledAt = now ∧
      clock.lastSettledAt.saturatingAdd clock.params.intervalSecs ≤ now ∧
      applyFunding positions mark settled.rate = .ok settled.settlements ∧
      after = { clock with lastSettledAt := now } := by
  rw [FundingClock.tick] at htick
  split_ifs at htick with hearly
  · obtain ⟨rfl, rfl⟩ := Prod.mk.inj (Except.ok.inj htick)
    exact .inl ⟨rfl, rfl⟩
  · obtain ⟨rate, -, htick⟩ := bind_eq_ok.1 htick
    obtain ⟨settlements, hfunding, hresult⟩ := bind_eq_ok.1 htick
    obtain ⟨rfl, rfl⟩ := Prod.mk.inj (Except.ok.inj hresult)
    exact .inr ⟨_, rfl, rfl, not_lt.1 hearly, hfunding, rfl⟩

/-- A funding tick settles accounts of the given positions, each in its place. -/
theorem FundingClock.tick_settlements {clock after : FundingClock} {now : U64}
    {mark : MarkPrice} {index : IndexPrice} {positions : List Position}
    {settled : FundingTick}
    (htick : clock.tick now mark index positions = .ok (after, some settled)) :
    (settled.settlements.map Settlement.account).Sublist
      (positions.map Position.account) := by
  obtain ⟨hnone, -⟩ | ⟨settled', hsome, -, -, hfunding, -⟩ := tick_eq_ok htick
  · cases hnone
  · cases hsome
    exact applyFunding_accounts hfunding

end OpenHl.Funding
