import OpenHl.Clearing.ApplyFill
import OpenHl.Core.SortedMap

/-!
# The account map under fills

`apply_fills_to_accounts` of the bridge: every fill is applied to the maker's
and then to the taker's account, creating flat accounts where needed, and the
realized profit goes to the collateral.

The two sides of a fill trade the same contracts at the same price, so they
cancel in the total equity at any mark; what remains is the rounding of the
average entry prices (`applyFills_equity`).
-/

namespace OpenHl.Clearing

open Machine OpenHl.Clob

/-- The accounts of the bridge; each is stored under its own id. -/
@[ext]
structure AccountMap where
  map : SortedMap AccountId Account
  keyed : ∀ key account, map.get? key = some account → account.account = key

namespace AccountMap

def empty : AccountMap := ⟨SortedMap.empty, by simp⟩

def get? (accounts : AccountMap) (key : AccountId) : Option Account :=
  accounts.map.get? key

/-- The account under a key, flat if there is none. -/
def getOrFlat (accounts : AccountMap) (key : AccountId) : Account :=
  (accounts.get? key).getD (Account.flat key)

/-- `entry(key).or_insert_with(flat)` followed by a change in place. -/
def upsert (accounts : AccountMap) (key : AccountId) (change : Account → Account)
    (hkeeps : ∀ account, (change account).account = account.account) :
    AccountMap where
  map := accounts.map.upsert key fun entry =>
    change (entry.getD (Account.flat key))
  keyed := by
    intro other account hget
    rw [SortedMap.get?_upsert] at hget
    split_ifs at hget with hother
    · rw [Option.some.injEq] at hget
      rw [← hget, hkeeps, hother]
      cases hkey : accounts.map.get? key with
      | none => rfl
      | some found => exact accounts.keyed key found hkey
    · exact accounts.keyed other account hget

/-- `insert(account.account, account)`, as when a snapshot is loaded. -/
def insert (accounts : AccountMap) (account : Account) : AccountMap where
  map := accounts.map.insert account.account account
  keyed := by
    intro other found hget
    rw [SortedMap.get?_insert] at hget
    split_ifs at hget with hother
    · rw [Option.some.injEq] at hget
      rw [← hget, hother]
    · exact accounts.keyed other found hget

/-- `get_mut(key)` followed by a change in place. -/
def modify (accounts : AccountMap) (key : AccountId) (change : Account → Account)
    (hkeeps : ∀ account, (change account).account = account.account) :
    AccountMap where
  map := accounts.map.modify key change
  keyed := by
    intro other account hget
    rw [SortedMap.get?_modify] at hget
    split_ifs at hget with hother
    · obtain ⟨found, hfound, rfl⟩ := Option.map_eq_some_iff.1 hget
      rw [hkeeps, accounts.keyed other found hfound]
    · exact accounts.keyed other account hget

section Each

variable {I : Type} (keyOf : I → AccountId) (change : I → Account → Account)
  (hkeeps : ∀ item account, (change item account).account = account.account)

/-- `get_mut` and a change in place for every item of a list. -/
def modifyEach (accounts : AccountMap) (items : List I) : AccountMap :=
  items.foldl (fun accounts item =>
    accounts.modify (keyOf item) (change item) (hkeeps item)) accounts

/-- The changes that the items of one key make to an account. -/
def changesOf (items : List I) (key : AccountId) (account : Account) : Account :=
  (items.filter fun item => keyOf item = key).foldl
    (fun account item => change item account) account

theorem modifyEach_entries (accounts : AccountMap) (items : List I) :
    (accounts.modifyEach keyOf change hkeeps items).map.entries =
      accounts.map.entries.map fun entry =>
        (entry.1, changesOf keyOf change items entry.1 entry.2) := by
  have hmap : (accounts.modifyEach keyOf change hkeeps items).map =
      items.foldl (fun map item => map.modify (keyOf item) (change item))
        accounts.map := by
    rw [modifyEach]
    induction items generalizing accounts with
    | nil => rfl
    | cons item items ih => exact ih _
  rw [hmap, SortedMap.foldl_modify_entries]
  rfl

variable {keyOf change} {items : List I}

/-- With distinct keys at most one item changes an account. -/
theorem changesOf_eq_find? (hdistinct : (items.map keyOf).Nodup) (key : AccountId)
    (account : Account) :
    changesOf keyOf change items key account =
      ((items.find? fun item => keyOf item = key).map
        fun item => change item account).getD account := by
  cases hfind : items.find? fun item => keyOf item = key with
  | none =>
      have hnone : items.filter (fun item => keyOf item = key) = [] := by
        rw [List.filter_eq_nil_iff]
        exact List.find?_eq_none.1 hfind
      rw [changesOf, hnone]
      rfl
  | some item =>
      have hkey : keyOf item = key := by simpa using List.find?_some hfind
      rw [changesOf, ← hkey, SortedMap.filter_key_eq_singleton hdistinct
        (List.mem_of_find?_eq_some hfind)]
      rfl

end Each

/-- Sum of a quantity over all accounts. -/
def total (measure : Account → ℤ) (accounts : AccountMap) : ℤ :=
  accounts.map.sumBy measure

/-- A quantity that flat accounts do not have changes by what the one account
changes. -/
theorem total_upsert {measure : Account → ℤ}
    (hflat : ∀ key, measure (Account.flat key) = 0) (accounts : AccountMap)
    (key : AccountId) (change : Account → Account)
    (hkeeps : ∀ account, (change account).account = account.account) :
    (accounts.upsert key change hkeeps).total measure =
      accounts.total measure +
        (measure (change (accounts.getOrFlat key)) -
          measure (accounts.getOrFlat key)) := by
  rw [total, upsert, SortedMap.sumBy_upsert, total, getOrFlat, get?]
  cases accounts.map.get? key with
  | none =>
      simp only [Option.map_none, Option.getD_none, hflat]
      ring
  | some account =>
      simp only [Option.map_some, Option.getD_some]
      ring

end AccountMap

/-! ## `apply_fills_to_accounts` -/

/-- One side of a fill: the account it concerns and what that account does. -/
structure SideFill where
  account : AccountId
  price : Price
  qty : Qty
  side : Side
  deriving DecidableEq, Repr

def makerSide (fill : Fill) : SideFill :=
  { account := fill.makerAccount, price := fill.price, qty := fill.qty,
    side := fill.makerSide }

def takerSide (fill : Fill) : SideFill :=
  { account := fill.takerAccount, price := fill.price, qty := fill.qty,
    side := fill.makerSide.opposite }

/-- Apply a fill to an account and add the realized profit to its collateral. -/
def settleFill (trade : SideFill) (account : Account) : Account :=
  let (filled, realized) := applyFill account trade.price trade.qty trade.side
  { filled with collateral := filled.collateral.saturatingAdd realized }

theorem settleFill_account (trade : SideFill) (account : Account) :
    (settleFill trade account).account = account.account := rfl

theorem settleFill_positionSize {trade : SideFill} {account : Account}
    (hsize : InI64 (exactSize account trade.qty trade.side)) :
    (settleFill trade account).positionSize.val =
      exactSize account trade.qty trade.side := by
  simp only [settleFill]
  exact applyFill_positionSize hsize

def applySide (accounts : AccountMap) (trade : SideFill) : AccountMap :=
  accounts.upsert trade.account (settleFill trade) (settleFill_account trade)

def applyFillsToAccounts (accounts : AccountMap) (fills : List Fill) :
    AccountMap :=
  fills.foldl (fun accounts fill =>
    applySide (applySide accounts (makerSide fill)) (takerSide fill)) accounts

/-- A fill creates the account of its maker and removes none. -/
theorem applySide_isSome {accounts : AccountMap} {trade : SideFill}
    {key : AccountId} (hkey : key = trade.account ∨ (accounts.get? key).isSome) :
    ((applySide accounts trade).get? key).isSome := by
  rw [AccountMap.get?, applySide, AccountMap.upsert, SortedMap.get?_upsert]
  split_ifs with heq
  · rfl
  · exact hkey.resolve_left heq

theorem applyFillsToAccounts_isSome (fills : List Fill) {accounts : AccountMap}
    {key : AccountId} (hkey : (accounts.get? key).isSome) :
    ((applyFillsToAccounts accounts fills).get? key).isSome := by
  induction fills generalizing accounts with
  | nil => exact hkey
  | cons fill fills ih =>
      exact ih (applySide_isSome (Or.inr (applySide_isSome (Or.inr hkey))))

/-- Fills leave no account map alone except through empty lists. -/
theorem applyFillsToAccounts_eq_self_iff (fills : List Fill) :
    (∀ accounts, applyFillsToAccounts accounts fills = accounts) ↔ fills = [] := by
  constructor
  · intro hself
    cases fills with
    | nil => rfl
    | cons fill fills =>
        have hmade : ((applySide AccountMap.empty (makerSide fill)).get?
            fill.makerAccount).isSome := applySide_isSome (Or.inl rfl)
        have hfilled : ((applySide (applySide AccountMap.empty (makerSide fill))
            (takerSide fill)).get? fill.makerAccount).isSome :=
          applySide_isSome (Or.inr hmade)
        have hall : ((applyFillsToAccounts AccountMap.empty
            (fill :: fills)).get? fill.makerAccount).isSome :=
          applyFillsToAccounts_isSome fills hfilled
        rw [hself AccountMap.empty] at hall
        simp [AccountMap.empty, AccountMap.get?] at hall
  · rintro rfl accounts
    rfl

/-! ## Total equity -/

/-- The `apply_fill` calls of a list of fills, each with the account it meets. -/
def fillCalls (accounts : AccountMap) : List Fill → List (Account × SideFill)
  | [] => []
  | fill :: fills =>
      let made := applySide accounts (makerSide fill)
      (accounts.getOrFlat fill.makerAccount, makerSide fill) ::
        (made.getOrFlat fill.takerAccount, takerSide fill) ::
          fillCalls (applySide made (takerSide fill)) fills

/-- A call in which no 64-bit clamp is hit. -/
structure ExactCall (call : Account × SideFill) : Prop where
  size : InI64 (exactSize call.1 call.2.qty call.2.side)
  realized : InI64 (exactRealized call.1 call.2.price call.2.qty call.2.side)
  collateral : InI64 (call.1.collateral.val +
    exactRealized call.1 call.2.price call.2.qty call.2.side)

instance (call : Account × SideFill) : Decidable (ExactCall call) :=
  decidable_of_iff
    (InI64 (exactSize call.1 call.2.qty call.2.side) ∧
      InI64 (exactRealized call.1 call.2.price call.2.qty call.2.side) ∧
      InI64 (call.1.collateral.val +
        exactRealized call.1 call.2.price call.2.qty call.2.side))
    ⟨fun ⟨hsize, hrealized, hcollateral⟩ => ⟨hsize, hrealized, hcollateral⟩,
      fun ⟨hsize, hrealized, hcollateral⟩ => ⟨hsize, hrealized, hcollateral⟩⟩

def callResidue (call : Account × SideFill) : ℤ :=
  fillResidue call.1 call.2.price call.2.qty call.2.side

/-- The call increases a long position. -/
def IncreasesLong (call : Account × SideFill) : Prop :=
  0 < call.1.positionSize.val ∧ call.2.side = .buy

instance (call : Account × SideFill) : Decidable (IncreasesLong call) :=
  inferInstanceAs (Decidable (_ ∧ _))

def totalEquity (mark : ℤ) (accounts : AccountMap) : ℤ :=
  accounts.total fun account => account.equityAt mark

theorem flat_equityAt (mark : ℤ) (key : AccountId) :
    (Account.flat key).equityAt mark = 0 := by
  simp [Account.equityAt, Account.flat]

theorem settleFill_equity {account : Account} {trade : SideFill}
    (hexact : ExactCall (account, trade)) (mark : ℤ) :
    (settleFill trade account).equityAt mark - account.equityAt mark =
      trade.qty.val * sideSign trade.side * (mark - trade.price.val) +
        callResidue (account, trade) := by
  obtain ⟨hsize, hrealized, hcollateral⟩ := hexact
  have hvalue := applyFill_value trade.price hsize mark
  have hcash : (settleFill trade account).collateral.val =
      account.collateral.val +
        exactRealized account trade.price trade.qty trade.side := by
    have hexactRealized := applyFill_realized hrealized
    rw [← hexactRealized] at hcollateral ⊢
    exact I64.saturatingAdd_val_of_inI64 hcollateral
  simp only [Account.equityAt, hcash, callResidue]
  simp only [settleFill]
  linear_combination hvalue

theorem applySide_totalEquity {accounts : AccountMap} (trade : SideFill)
    (hexact : ExactCall (accounts.getOrFlat trade.account, trade)) (mark : ℤ) :
    totalEquity mark (applySide accounts trade) = totalEquity mark accounts +
      (trade.qty.val * sideSign trade.side * (mark - trade.price.val) +
        callResidue (accounts.getOrFlat trade.account, trade)) := by
  rw [totalEquity, applySide, AccountMap.total_upsert (flat_equityAt mark),
    settleFill_equity hexact]
  rfl

theorem sideSign_opposite (side : Side) : sideSign side.opposite = -sideSign side := by
  cases side <;> rfl

theorem totalEquity_applyFills (mark : ℤ) {fills : List Fill}
    {accounts : AccountMap} (hexact : ∀ call ∈ fillCalls accounts fills, ExactCall call) :
    totalEquity mark (applyFillsToAccounts accounts fills) =
      totalEquity mark accounts + ((fillCalls accounts fills).map callResidue).sum := by
  induction fills generalizing accounts with
  | nil => simp [applyFillsToAccounts, fillCalls]
  | cons fill fills ih =>
      simp only [fillCalls, List.forall_mem_cons] at hexact
      obtain ⟨hmaker, htaker, hrest⟩ := hexact
      have hmade := applySide_totalEquity (makerSide fill) hmaker mark
      have htaken := applySide_totalEquity (takerSide fill) htaker mark
      calc
        totalEquity mark (applyFillsToAccounts accounts (fill :: fills)) =
            totalEquity mark (applySide (applySide accounts (makerSide fill))
              (takerSide fill)) +
              ((fillCalls (applySide (applySide accounts (makerSide fill))
                (takerSide fill)) fills).map callResidue).sum := ih hrest
        _ = totalEquity mark accounts +
            ((fillCalls accounts (fill :: fills)).map callResidue).sum := by
          -- the two sides trade the same contracts at the same price
          rw [htaken, hmade]
          simp only [fillCalls, List.map_cons, List.sum_cons, makerSide, takerSide,
            sideSign_opposite]
          ring

/-- A call gains less than the size of the position it makes, and only an
increase of a long position gains at all. -/
theorem callResidue_le (call : Account × SideFill) :
    callResidue call ≤
      if IncreasesLong call then call.1.positionSize.val + call.2.qty.val - 1
      else 0 :=
  fillResidue_le call.1 call.2.price call.2.qty call.2.side

theorem sum_callResidue_nonpos {calls : List (Account × SideFill)}
    (hlong : ∀ call ∈ calls, ¬ IncreasesLong call) :
    (calls.map callResidue).sum ≤ 0 := by
  rw [← List.sum_map_zero (l := calls)]
  refine List.sum_le_sum fun call hcall => ?_
  have hle := callResidue_le call
  rwa [if_neg (hlong call hcall)] at hle

/-- In unbounded integers, fills change the total equity at any mark by the sum
of the rounding residues of their `apply_fill` calls.  Only an increase of a
long position can gain, by less than the size it makes; without one the total
equity does not grow. -/
theorem applyFills_equity (accounts : AccountMap) (mark : ℤ) (fills : List Fill)
    (hexact : ∀ call ∈ fillCalls accounts fills, ExactCall call) :
    totalEquity mark (applyFillsToAccounts accounts fills) =
        totalEquity mark accounts +
          ((fillCalls accounts fills).map callResidue).sum ∧
      (∀ call, callResidue call ≤ if IncreasesLong call then
        call.1.positionSize.val + call.2.qty.val - 1 else 0) ∧
      ((∀ call ∈ fillCalls accounts fills, ¬ IncreasesLong call) →
        totalEquity mark (applyFillsToAccounts accounts fills) ≤
          totalEquity mark accounts) := by
  have htotal := totalEquity_applyFills mark hexact
  refine ⟨htotal, callResidue_le, fun hlong => ?_⟩
  have hsum := sum_callResidue_nonpos hlong
  omega

/-- A map with one account, long two contracts at 80. -/
def longAtEighty : AccountMap :=
  AccountMap.empty.upsert 1
    (fun account => { account with positionSize := 2, avgEntry := 80 })
    fun _ => rfl

/-- The account above buys five more contracts at 100 from a new account. -/
def fiveAtHundred : Fill :=
  { makerOrderId := 1, takerOrderId := 2, makerAccount := 2, takerAccount := 1,
    price := 100, qty := 5, makerSide := .sell }

theorem applyFills_equity_longAtEighty :
    totalEquity 100 (applyFillsToAccounts longAtEighty [fiveAtHundred]) =
        totalEquity 100 longAtEighty +
          ((fillCalls longAtEighty [fiveAtHundred]).map callResidue).sum :=
  (applyFills_equity longAtEighty 100 [fiveAtHundred] (by decide +kernel)).1

/-- The average price 660 / 7 is rounded down to 94, which gains 2. -/
theorem not_forall_totalEquity_le :
    ¬ ∀ (accounts : AccountMap) (mark : ℤ) (fills : List Fill),
      (∀ call ∈ fillCalls accounts fills, ExactCall call) →
        totalEquity mark (applyFillsToAccounts accounts fills) ≤
          totalEquity mark accounts := by
  intro hnever
  have hle := hnever longAtEighty 100 [fiveAtHundred] (by decide +kernel)
  revert hle
  decide +kernel

end OpenHl.Clearing
