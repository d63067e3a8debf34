import OpenHl.Core.Calls
import OpenHl.Devnet.FilledSizes

/-!
# Replaying a chain history

`bin/openhl`: a history file lists trades and deposits per block height.  The commit
hook applies the events of a height before anything else of that block, and the
applier marks the height before it runs the first event.
-/

namespace OpenHl.Devnet

open Machine OpenHl.Clob OpenHl.Clearing OpenHl.Evm

/-! ## The file -/

inductive SideRpc where
  | buy
  | sell
  deriving DecidableEq, Repr

def SideRpc.toSide : SideRpc → Side
  | .buy => .buy
  | .sell => .sell

inductive OrderKindRpc where
  | limit
  | market
  deriving DecidableEq, Repr

/-- One order; the price is required for a limit order and ignored for a market
order. -/
structure TradeOp where
  id : OrderId
  account : AccountId
  side : SideRpc
  qty : Qty
  kind : OrderKindRpc
  price : Option Price
  deriving DecidableEq, Repr

structure DepositOp where
  account : AccountId
  amount : I64

/-- The events of one block: its trades come before its deposits. -/
structure HistoryBlock where
  height : U64
  trades : List TradeOp
  deposits : List DepositOp

structure ChainHistory where
  blocks : List HistoryBlock

/-- A limit order has a price. -/
def TradeOp.Priced (t : TradeOp) : Prop := t.kind = .limit → t.price.isSome

instance (t : TradeOp) : Decidable t.Priced :=
  inferInstanceAs (Decidable (_ → _))

def TradeOp.orderType? (t : TradeOp) : Option Clob.OrderType :=
  match t.kind with
  | .limit => t.price.map Clob.OrderType.limit
  | .market => some .market

def TradeOp.order? (t : TradeOp) : Option Order :=
  t.orderType?.map fun orderType =>
    { id := t.id, account := t.account, side := t.side.toSide, qty := t.qty, orderType }

theorem TradeOp.order?_eq_none_iff (t : TradeOp) : t.order? = none ↔ ¬ t.Priced := by
  rw [order?, Option.map_eq_none_iff, orderType?, Priced]
  cases t.kind with
  | limit => simp
  | market => simp

/-! ## The applier -/

/-- The blocks of a history by their height. -/
structure BlockIndex where
  map : SortedMap U64 HistoryBlock
  keyed : map.All fun height block => block.height = height

namespace BlockIndex

def empty : BlockIndex := ⟨.empty, SortedMap.All.empty⟩

def insert (index : BlockIndex) (block : HistoryBlock) : BlockIndex where
  map := index.map.insert block.height block
  keyed := index.keyed.insert rfl

/-- A height that is listed twice is an error. -/
def insertAll (index : BlockIndex) : List HistoryBlock → Except String BlockIndex
  | [] => .ok index
  | block :: blocks =>
      match index.map.get? block.height with
      | some _ => .error "chain history: duplicate block height entry"
      | none => insertAll (index.insert block) blocks

end BlockIndex

structure ChainHistoryApplier where
  byHeight : BlockIndex
  /-- Heights whose events have been applied so far. -/
  applied : Finset U64

namespace ChainHistoryApplier

def new (history : ChainHistory) : Except String ChainHistoryApplier := do
  let byHeight ← BlockIndex.empty.insertAll history.blocks
  return { byHeight, applied := ∅ }

def markApplied (applier : ChainHistoryApplier) (height : U64) : ChainHistoryApplier :=
  { applier with applied := insert height applier.applied }

end ChainHistoryApplier

def pricelessText (height : U64) (idx : ℕ) (t : TradeOp) : String :=
  s!"chain history height {height.val} trade #{idx} (id={t.id.val}) " ++
    "is Limit but has no `price`"

/-- Submit the trades from index `idx` on.  An error ends the loop and leaves the
orders before it in place. -/
def applyTrades (height : U64) (idx totalFills : ℕ) (bridge : BridgeState) :
    List TradeOp → Except Panic (BridgeState × Except String ℕ)
  | [] => .ok (bridge, .ok totalFills)
  | t :: trades =>
      match t.order? with
      | none => .ok (bridge, .error (pricelessText height idx t))
      | some order => do
          let (submitted, r) ← submitOrder bridge order
          applyTrades height (idx + 1) (totalFills + r.fills.length) submitted trades

def applyDeposits (bridge : BridgeState) (deposits : List DepositOp) : BridgeState :=
  deposits.foldl (fun state d => deposit state d.account d.amount) bridge

/-- The numbers of trades, fills and deposits that were run. -/
abbrev Counts := ℕ × ℕ × ℕ

/-- The deposits follow once every trade was submitted. -/
def finishBlock (block : HistoryBlock) (traded : BridgeState) :
    Except String ℕ → BridgeState × Except String (Option Counts)
  | .error text => (traded, .error text)
  | .ok totalFills =>
      (applyDeposits traded block.deposits,
        .ok (some (block.trades.length, totalFills, block.deposits.length)))

/-- Apply the events of a height.  The height is marked before its first trade. -/
def applyForHeight (applier : ChainHistoryApplier) (bridge : BridgeState) (height : U64) :
    Except Panic (ChainHistoryApplier × BridgeState × Except String (Option Counts)) :=
  match applier.byHeight.map.get? height with
  | none => .ok (applier, bridge, .ok none)
  | some block =>
      if height ∈ applier.applied then .ok (applier, bridge, .ok none)
      else do
        let marked := applier.markApplied height
        let (traded, outcome) ← applyTrades height 0 0 bridge block.trades
        return (marked, finishBlock block traded outcome)

/-! ## The index of a history -/

theorem BlockIndex.insertAll_eq_ok {index last : BlockIndex} {blocks : List HistoryBlock}
    (hinsert : index.insertAll blocks = .ok last) (height : U64) (block : HistoryBlock) :
    last.map.get? height = some block ↔
      index.map.get? height = some block ∨ block ∈ blocks ∧ block.height = height := by
  induction blocks generalizing index with
  | nil =>
      cases hinsert
      simp
  | cons first blocks ih =>
      rw [insertAll] at hinsert
      cases hfirst : index.map.get? first.height with
      | some other => simp [hfirst] at hinsert
      | none =>
          rw [hfirst] at hinsert
          rw [ih hinsert, insert, SortedMap.get?_insert, List.mem_cons]
          by_cases hheight : height = first.height
          · subst hheight
            rw [if_pos rfl, hfirst]
            constructor
            · rintro (hblock | ⟨hblock, hsame⟩)
              · cases hblock
                exact .inr ⟨.inl rfl, rfl⟩
              · exact .inr ⟨.inr hblock, hsame⟩
            · rintro (hblock | ⟨rfl | hblock, hsame⟩)
              · cases hblock
              · exact .inl rfl
              · exact .inr ⟨hblock, hsame⟩
          · rw [if_neg hheight]
            constructor
            · rintro (hblock | ⟨hblock, hsame⟩)
              · exact .inl hblock
              · exact .inr ⟨.inr hblock, hsame⟩
            · rintro (hblock | ⟨rfl | hblock, hsame⟩)
              · exact .inl hblock
              · exact absurd hsame.symm hheight
              · exact .inr ⟨hblock, hsame⟩

/-- A loaded history lists every block under its height, and none is applied yet. -/
theorem ChainHistoryApplier.new_eq_ok {history : ChainHistory}
    {applier : ChainHistoryApplier} (hnew : new history = .ok applier) :
    applier.applied = ∅ ∧ ∀ height block,
      applier.byHeight.map.get? height = some block ↔
        block ∈ history.blocks ∧ block.height = height := by
  obtain ⟨byHeight, hinsert, happlier⟩ := bind_eq_ok.1 hnew
  cases happlier
  refine ⟨rfl, fun height block => ?_⟩
  rw [BlockIndex.insertAll_eq_ok hinsert, BlockIndex.empty, SortedMap.get?_empty]
  simp

/-! ## The trades of a block -/

theorem exists_orders {trades : List TradeOp} (hpriced : ∀ t ∈ trades, t.Priced) :
    ∃ orders : List Order, trades.map TradeOp.order? = orders.map some := by
  induction trades with
  | nil => exact ⟨[], rfl⟩
  | cons t trades ih =>
      obtain ⟨orders, horders⟩ := ih fun other hother =>
        hpriced other (List.mem_cons_of_mem t hother)
      cases horder : t.order? with
      | none => exact absurd (hpriced t List.mem_cons_self) (t.order?_eq_none_iff.1 horder)
      | some order => exact ⟨order :: orders, by rw [List.map_cons, horder, horders]; rfl⟩

/-- The trades before the first limit order without a price. -/
theorem exists_first_priceless {trades : List TradeOp}
    (hpriceless : ¬ ∀ t ∈ trades, t.Priced) :
    ∃ before t behind, trades = before ++ t :: behind ∧
      (∀ other ∈ before, other.Priced) ∧ ¬ t.Priced := by
  push Not at hpriceless
  obtain ⟨missing, hmissing, hnot⟩ := hpriceless
  cases hfind : trades.find? fun t => !decide t.Priced with
  | none =>
      have hall := List.find?_eq_none.1 hfind missing hmissing
      exact absurd hnot (by simpa using hall)
  | some t =>
      obtain ⟨ht, before, behind, htrades, hbefore⟩ :=
        List.find?_eq_some_iff_append.1 hfind
      exact ⟨before, t, behind, htrades, fun other hother => by
        simpa using hbefore other hother, by simpa using ht⟩

/-- The loop submits the orders of the trades in front and goes on behind them. -/
theorem applyTrades_append {before : List TradeOp} {orders : List Order}
    {bridge traded : BridgeState} {fills : List Fill}
    (horders : before.map TradeOp.order? = orders.map some)
    (hsubmit : submitOrders bridge orders = .ok (traded, fills))
    (height : U64) (idx totalFills : ℕ) (behind : List TradeOp) :
    applyTrades height idx totalFills bridge (before ++ behind) =
      applyTrades height (idx + before.length) (totalFills + fills.length) traded
        behind := by
  induction before generalizing orders bridge fills idx totalFills with
  | nil =>
      obtain rfl : orders = [] := by simpa using horders.symm
      cases hsubmit
      rfl
  | cons t before ih =>
      cases orders with
      | nil => simp at horders
      | cons order orders =>
          obtain ⟨hfirst, hrest⟩ := List.cons.inj horders
          rw [submitOrders] at hsubmit
          obtain ⟨⟨submitted, r⟩, hone, hsubmit⟩ := bind_eq_ok.1 hsubmit
          obtain ⟨⟨last, others⟩, hothers, hsubmit⟩ := bind_eq_ok.1 hsubmit
          obtain ⟨rfl, rfl⟩ := Prod.mk.inj (Except.ok.inj hsubmit)
          rw [List.cons_append, applyTrades, hfirst]
          dsimp only
          rw [hone, ok_bind]
          dsimp only
          rw [ih hrest hothers, List.length_cons, List.length_append]
          congr 1 <;> omega

/-! ## One call -/

/-- The block of a height, unless its events have been applied. -/
def ChainHistoryApplier.due? (applier : ChainHistoryApplier) (height : U64) :
    Option HistoryBlock :=
  if height ∈ applier.applied then none else applier.byHeight.map.get? height

/-- All trades of a block and then all its deposits, in their order. -/
def AppliedInOrder (block : HistoryBlock) (bridge after : BridgeState)
    (counts : Counts) : Prop :=
  ∃ orders traded fills,
    block.trades.map TradeOp.order? = orders.map some ∧
    submitOrders bridge orders = .ok (traded, fills) ∧
    after = applyDeposits traded block.deposits ∧
    counts = (block.trades.length, fills.length, block.deposits.length)

/-- The trades before a limit order without a price, and nothing behind them. -/
def StoppedAtPriceless (block : HistoryBlock) (bridge after : BridgeState)
    (text : String) : Prop :=
  ∃ before t behind orders fills,
    block.trades = before ++ t :: behind ∧
    before.map TradeOp.order? = orders.map some ∧ ¬ t.Priced ∧
    submitOrders bridge orders = .ok (after, fills) ∧
    text = pricelessText block.height before.length t

section Call

variable {applier : ChainHistoryApplier} {bridge : BridgeState} {height : U64}
variable {block : HistoryBlock}

theorem ChainHistoryApplier.due?_eq_some_iff :
    applier.due? height = some block ↔
      height ∉ applier.applied ∧ applier.byHeight.map.get? height = some block := by
  rw [due?]
  split_ifs with happlied
  · simp [happlied]
  · simp [happlied]

theorem ChainHistoryApplier.due?_height (hdue : applier.due? height = some block) :
    block.height = height :=
  applier.byHeight.keyed height block (due?_eq_some_iff.1 hdue).2

theorem applyForHeight_of_not_due (hdue : applier.due? height = none) :
    applyForHeight applier bridge height = .ok (applier, bridge, .ok none) := by
  rw [applyForHeight]
  rw [ChainHistoryApplier.due?] at hdue
  cases hget : applier.byHeight.map.get? height with
  | none => rfl
  | some block =>
      dsimp only
      split_ifs at hdue ⊢ with happlied
      · rfl
      · rw [hget] at hdue
        cases hdue

theorem applyForHeight_of_trades {traded : BridgeState} {outcome : Except String ℕ}
    (hdue : applier.due? height = some block)
    (htrades : applyTrades height 0 0 bridge block.trades = .ok (traded, outcome)) :
    applyForHeight applier bridge height =
      .ok (applier.markApplied height, finishBlock block traded outcome) := by
  obtain ⟨happlied, hget⟩ := ChainHistoryApplier.due?_eq_some_iff.1 hdue
  rw [applyForHeight, hget]
  dsimp only
  rw [if_neg happlied, htrades, ok_bind]
  rfl

theorem applyForHeight_of_priced (hbook : bridge.clob.NoEmptyLevel)
    (hdue : applier.due? height = some block) (hpriced : ∀ t ∈ block.trades, t.Priced) :
    ∃ after counts, AppliedInOrder block bridge after counts ∧
      applyForHeight applier bridge height =
        .ok (applier.markApplied height, after, .ok (some counts)) := by
  obtain ⟨orders, horders⟩ := exists_orders hpriced
  obtain ⟨traded, fills, hsubmit, -⟩ := submitOrders_eq_ok hbook orders
  have htrades := applyTrades_append horders hsubmit height 0 0 []
  rw [List.append_nil, Nat.zero_add, Nat.zero_add, applyTrades] at htrades
  exact ⟨_, _, ⟨orders, traded, fills, horders, hsubmit, rfl, rfl⟩,
    applyForHeight_of_trades hdue htrades⟩

theorem applyForHeight_of_priceless (hbook : bridge.clob.NoEmptyLevel)
    (hdue : applier.due? height = some block)
    (hpriceless : ¬ ∀ t ∈ block.trades, t.Priced) :
    ∃ after text, StoppedAtPriceless block bridge after text ∧
      applyForHeight applier bridge height =
        .ok (applier.markApplied height, after, .error text) := by
  obtain ⟨before, t, behind, hsplit, hbefore, ht⟩ := exists_first_priceless hpriceless
  obtain ⟨orders, horders⟩ := exists_orders hbefore
  obtain ⟨traded, fills, hsubmit, -⟩ := submitOrders_eq_ok hbook orders
  have htrades := applyTrades_append horders hsubmit height 0 0 (t :: behind)
  rw [← hsplit, Nat.zero_add, Nat.zero_add, applyTrades,
    t.order?_eq_none_iff.2 ht] at htrades
  have hheight := ChainHistoryApplier.due?_height hdue
  exact ⟨_, _, ⟨before, t, behind, orders, fills, hsplit, horders, ht, hsubmit,
    by rw [hheight]⟩, applyForHeight_of_trades hdue htrades⟩

/-- There is nothing to run, all events of the block are applied, or the call stops at a
limit order without a price. -/
theorem applyForHeight_cases (hbook : bridge.clob.NoEmptyLevel)
    (applier : ChainHistoryApplier) (height : U64) :
    applyForHeight applier bridge height = .ok (applier, bridge, .ok none) ∨
    (∃ block after counts, applier.due? height = some block ∧
      AppliedInOrder block bridge after counts ∧
      applyForHeight applier bridge height =
        .ok (applier.markApplied height, after, .ok (some counts))) ∨
    ∃ block after text, applier.due? height = some block ∧
      StoppedAtPriceless block bridge after text ∧
      applyForHeight applier bridge height =
        .ok (applier.markApplied height, after, .error text) := by
  cases hdue : applier.due? height with
  | none => exact .inl (applyForHeight_of_not_due hdue)
  | some block =>
      by_cases hpriced : ∀ t ∈ block.trades, t.Priced
      · obtain ⟨after, counts, happlied, hcall⟩ :=
          applyForHeight_of_priced hbook hdue hpriced
        exact .inr (.inl ⟨block, after, counts, rfl, happlied, hcall⟩)
      · obtain ⟨after, text, hstopped, hcall⟩ :=
          applyForHeight_of_priceless hbook hdue hpriced
        exact .inr (.inr ⟨block, after, text, rfl, hstopped, hcall⟩)

/-- A call answers with nothing and changes nothing, or it marks a height that was not
marked. -/
theorem applyForHeight_marks {marked : ChainHistoryApplier} {after : BridgeState}
    {reply : Except String (Option Counts)}
    (hcall : applyForHeight applier bridge height = .ok (marked, after, reply)) :
    reply = .ok none ∧ marked = applier ∧ after = bridge ∨
      reply ≠ .ok none ∧ height ∉ applier.applied ∧
        marked = applier.markApplied height := by
  cases hdue : applier.due? height with
  | none =>
      rw [applyForHeight_of_not_due hdue] at hcall
      cases hcall
      exact .inl ⟨rfl, rfl, rfl⟩
  | some block =>
      obtain ⟨happlied, hget⟩ := ChainHistoryApplier.due?_eq_some_iff.1 hdue
      have hrun := hcall
      rw [applyForHeight, hget] at hrun
      dsimp only at hrun
      rw [if_neg happlied] at hrun
      obtain ⟨⟨traded, outcome⟩, htrades, -⟩ := bind_eq_ok.1 hrun
      rw [applyForHeight_of_trades hdue htrades] at hcall
      cases outcome with
      | error text =>
          cases hcall
          exact .inr ⟨nofun, happlied, rfl⟩
      | ok totalFills =>
          cases hcall
          exact .inr ⟨nofun, happlied, rfl⟩

end Call

/-- An error leaves the bridge and the applied heights as they were. -/
def ErrorsAreClean (applier : ChainHistoryApplier) (bridge : BridgeState)
    (height : U64) : Prop :=
  ∀ marked after text,
    applyForHeight applier bridge height = .ok (marked, after, .error text) →
      after = bridge ∧ marked.applied = applier.applied

/-- Every error marks its height, so no error is clean. -/
theorem errorsAreClean_iff {applier : ChainHistoryApplier} {bridge : BridgeState}
    (hbook : bridge.clob.NoEmptyLevel) (height : U64) :
    ErrorsAreClean applier bridge height ↔
      ∀ block, applier.due? height = some block → ∀ t ∈ block.trades, t.Priced := by
  constructor
  · intro hclean block hdue
    by_contra hpriceless
    obtain ⟨after, text, -, hcall⟩ := applyForHeight_of_priceless hbook hdue hpriceless
    obtain ⟨-, hsame⟩ := hclean _ after text hcall
    obtain ⟨hfresh, -⟩ := ChainHistoryApplier.due?_eq_some_iff.1 hdue
    have hmark : height ∈ (applier.markApplied height).applied :=
      Finset.mem_insert_self height applier.applied
    rw [hsame] at hmark
    exact hfresh hmark
  · intro hpriced marked after text herror
    cases hdue : applier.due? height with
    | none =>
        rw [applyForHeight_of_not_due hdue] at herror
        cases herror
    | some block =>
        obtain ⟨done, counts, -, hcall⟩ :=
          applyForHeight_of_priced hbook hdue (hpriced block hdue)
        rw [hcall] at herror
        cases herror

/-- The errors of a loaded history are clean at every height exactly if all its limit
orders have a price. -/
theorem errorsAreClean_history_iff {history : ChainHistory}
    {applier : ChainHistoryApplier} {bridge : BridgeState}
    (hbook : bridge.clob.NoEmptyLevel)
    (hnew : ChainHistoryApplier.new history = .ok applier) :
    (∀ height, ErrorsAreClean applier bridge height) ↔
      ∀ block ∈ history.blocks, ∀ t ∈ block.trades, t.Priced := by
  obtain ⟨hfresh, hlisted⟩ := ChainHistoryApplier.new_eq_ok hnew
  have hdue : ∀ height block, applier.due? height = some block ↔
      block ∈ history.blocks ∧ block.height = height := by
    intro height block
    rw [ChainHistoryApplier.due?_eq_some_iff, hfresh, hlisted]
    simp
  constructor
  · intro hclean block hblock
    exact (errorsAreClean_iff hbook block.height).1 (hclean block.height) block
      ((hdue block.height block).2 ⟨hblock, rfl⟩)
  · intro hpriced height
    rw [errorsAreClean_iff hbook]
    intro block hblock
    exact hpriced block ((hdue height block).1 hblock).1

/-! ## Runs of calls -/

/-- A call with the bridge it found and the bridge it left. -/
structure HistoryCall where
  height : U64
  before : BridgeState
  after : BridgeState
  reply : Except String (Option Counts)

/-- The bridge may change in any way between two calls. -/
def callAt (applier : ChainHistoryApplier) (input : BridgeState × U64) :
    Except Panic (ChainHistoryApplier × HistoryCall) := do
  let (marked, after, reply) ← applyForHeight applier input.1 input.2
  return (marked, { height := input.2, before := input.1, after, reply })

/-- The height whose events a call ran, to their end or to an error. -/
def HistoryCall.ran? (call : HistoryCall) : Option U64 :=
  match call.reply with
  | .ok none => none
  | _ => some call.height

theorem HistoryCall.ran?_of_ne {call : HistoryCall} (hreply : call.reply ≠ .ok none) :
    call.ran? = some call.height := by
  rw [ran?]
  split
  · contradiction
  · rfl

theorem callAt_cases {applier marked : ChainHistoryApplier} {input : BridgeState × U64}
    {call : HistoryCall} (hcall : callAt applier input = .ok (marked, call)) :
    call.ran? = none ∧ marked = applier ∧ call.after = call.before ∨
      call.ran? = some input.2 ∧ input.2 ∉ applier.applied ∧
        marked = applier.markApplied input.2 := by
  obtain ⟨⟨next, after, reply⟩, happly, hcall⟩ := bind_eq_ok.1 hcall
  cases hcall
  rcases applyForHeight_marks happly with ⟨rfl, rfl, rfl⟩ | ⟨hreply, hfresh, rfl⟩
  · exact .inl ⟨rfl, rfl, rfl⟩
  · exact .inr ⟨HistoryCall.ran?_of_ne hreply, hfresh, rfl⟩

/-- No run of calls runs the events of a height twice. -/
theorem run_callAt_distinct {applier last : ChainHistoryApplier}
    {inputs : List (BridgeState × U64)} {calls : List HistoryCall}
    (hrun : Calls.run callAt applier inputs = .ok (last, calls)) :
    (calls.filterMap HistoryCall.ran?).Nodup := by
  have hkeep : ∀ state input after output, callAt state input = .ok (after, output) →
      ∀ height, height ∈ state.applied → height ∈ after.applied := by
    intro state input after call hcall height hheight
    rcases callAt_cases hcall with ⟨-, rfl, -⟩ | ⟨-, -, rfl⟩
    · exact hheight
    · exact Finset.mem_insert_of_mem hheight
  have hfire : ∀ state input after output, callAt state input = .ok (after, output) →
      ∀ height, output.ran? = some height →
        height ∉ state.applied ∧ height ∈ after.applied := by
    intro state input after call hcall height hran
    rcases callAt_cases hcall with ⟨hnone, -⟩ | ⟨hsome, hfresh, rfl⟩
    · rw [hnone] at hran
      cases hran
    · rw [hsome] at hran
      cases hran
      exact ⟨hfresh, Finset.mem_insert_self input.2 state.applied⟩
  exact (Calls.run_fires_once hkeep hfire hrun).1

/-- A call that finds nothing to run leaves the bridge alone. -/
theorem run_callAt_idle {applier last : ChainHistoryApplier}
    {inputs : List (BridgeState × U64)} {calls : List HistoryCall}
    (hrun : Calls.run callAt applier inputs = .ok (last, calls)) :
    ∀ call ∈ calls, call.ran? = none → call.after = call.before := by
  refine Calls.forall_mem_outputs ?_ hrun
  intro state input after call hcall hnone
  rcases callAt_cases hcall with ⟨-, -, hsame⟩ | ⟨hsome, -⟩
  · exact hsame
  · rw [hnone] at hsome
    cases hsome

/-- A call always returns.  Its errors leave the state as it was exactly when the block
that is due lists no limit order without a price; otherwise the trades before that order
stay in place and the height counts as applied.  A call that succeeds applies all trades
and then all deposits, and no height is run twice.  A new history is safe at every height
exactly if it lists no limit order without a price. -/
theorem applyForHeight_exact (applier : ChainHistoryApplier) {bridge : BridgeState}
    (hbook : bridge.clob.NoEmptyLevel) (height : U64) :
    (ErrorsAreClean applier bridge height ↔
      ∀ block, applier.due? height = some block → ∀ t ∈ block.trades, t.Priced) ∧
    (∃ result, applyForHeight applier bridge height = .ok result) ∧
    (∀ marked after counts,
      applyForHeight applier bridge height = .ok (marked, after, .ok (some counts)) →
        ∃ block, applier.due? height = some block ∧
          marked = applier.markApplied height ∧
          AppliedInOrder block bridge after counts) ∧
    (∀ marked after text,
      applyForHeight applier bridge height = .ok (marked, after, .error text) →
        ∃ block, applier.due? height = some block ∧
          marked = applier.markApplied height ∧
          StoppedAtPriceless block bridge after text) ∧
    (∀ inputs last calls, Calls.run callAt applier inputs = .ok (last, calls) →
      (calls.filterMap HistoryCall.ran?).Nodup ∧
      ∀ call ∈ calls, call.ran? = none → call.after = call.before) ∧
    ∀ history, ChainHistoryApplier.new history = .ok applier →
      ((∀ every, ErrorsAreClean applier bridge every) ↔
        ∀ block ∈ history.blocks, ∀ t ∈ block.trades, t.Priced) := by
  have hcases := applyForHeight_cases hbook applier height
  refine ⟨errorsAreClean_iff hbook height, ?_, ?_, ?_, fun inputs last calls hrun =>
    ⟨run_callAt_distinct hrun, run_callAt_idle hrun⟩, fun history hnew =>
    errorsAreClean_history_iff hbook hnew⟩
  · rcases hcases with hcall | ⟨block, after, counts, -, -, hcall⟩ |
      ⟨block, after, text, -, -, hcall⟩
    · exact ⟨_, hcall⟩
    · exact ⟨_, hcall⟩
    · exact ⟨_, hcall⟩
  · intro marked after counts hcall
    rcases hcases with hidle | ⟨block, done, all, hdue, happlied, hdone⟩ |
      ⟨block, done, text, -, -, hstopped⟩
    · rw [hidle] at hcall
      cases hcall
    · rw [hdone] at hcall
      cases hcall
      exact ⟨block, hdue, rfl, happlied⟩
    · rw [hstopped] at hcall
      cases hcall
  · intro marked after text hcall
    rcases hcases with hidle | ⟨block, done, all, -, -, hdone⟩ |
      ⟨block, left, reason, hdue, hstopped, hleft⟩
    · rw [hidle] at hcall
      cases hcall
    · rw [hdone] at hcall
      cases hcall
    · rw [hleft] at hcall
      cases hcall
      exact ⟨block, hdue, rfl, hstopped⟩

/-- The history with one block, of which nothing is applied. -/
def applierOf (block : HistoryBlock) : ChainHistoryApplier :=
  { byHeight := BlockIndex.empty.insert block, applied := ∅ }

/-- At height 3 a sell limit order rests and its account gets a deposit. -/
def pricedBlock : HistoryBlock :=
  { height := 3
    trades := [{ id := 1, account := 40, side := .sell, qty := 10, kind := .limit
                 price := some 110 }]
    deposits := [{ account := 40, amount := 500 }] }

theorem applyForHeight_exact_pricedBlock :
    ErrorsAreClean (applierOf pricedBlock) LiveBridge.new.toBridgeState 3 :=
  (applyForHeight_exact (applierOf pricedBlock) Book.new_noEmptyLevel 3).1.2
    fun block hdue => by
      obtain rfl : pricedBlock = block := Option.some.inj hdue
      decide

/-- A second limit order at height 3 has no price. -/
def pricelessBlock : HistoryBlock :=
  { pricedBlock with
    trades := pricedBlock.trades ++
      [{ id := 2, account := 10, side := .buy, qty := 5, kind := .limit
         price := none }] }

/-- The first order stays in the book, and the height counts as applied: the next call
answers that there is nothing to do. -/
theorem applyForHeight_pricelessBlock :
    ChainHistoryApplier.new { blocks := [pricelessBlock] } =
      .ok (applierOf pricelessBlock) ∧
    ¬ ErrorsAreClean (applierOf pricelessBlock) LiveBridge.new.toBridgeState 3 ∧
    ∃ marked after text,
      applyForHeight (applierOf pricelessBlock) LiveBridge.new.toBridgeState 3 =
        .ok (marked, after, .error text) ∧
      LiveBridge.new.clob.bestAsk = none ∧ after.clob.bestAsk = some 110 ∧
      3 ∉ (applierOf pricelessBlock).applied ∧ 3 ∈ marked.applied ∧
      applyForHeight marked after 3 = .ok (marked, after, .ok none) := by
  refine ⟨rfl, fun hclean => ?_, _, _, _, rfl, rfl, rfl, by decide, by decide, rfl⟩
  obtain ⟨-, hsame⟩ := hclean _ _ _ rfl
  exact absurd (congrArg (3 ∈ ·) hsame) (by decide)

end OpenHl.Devnet
