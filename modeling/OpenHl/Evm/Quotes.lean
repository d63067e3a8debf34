import OpenHl.Clob.BestLevel
import OpenHl.Evm.AccountPrecompiles

/-!
# Quotes from the book

The best bid with its quantity, as the `clob_read_best_bid` precompile returns it, and the
midpoint, which the bridge and the precompiles compute separately.  Both add words, with or
without overflow checks.

`bestQuotes_exact`: the quantities are right exactly if they are words.
`currentMarks_agree_iff`: the midpoints are one value between the best prices exactly if
the sum of the best prices is a word.
-/

namespace OpenHl.Evm

open Machine OpenHl.Clob OpenHl.Funding

/-! ## The best bid -/

def currentBestBid (checks : U64.OverflowChecks) (globals : Globals)
    (bridge : BridgeState) : Checked (Option (Price × Qty)) :=
  if globals.clobInstalled then bridge.clob.bestBidWithQty checks else .ok none

/-- The `clob_read_best_bid` precompile: two words, or zeroes if there is no bid. -/
def readBestBid (checks : U64.OverflowChecks) (globals : Globals) (bridge : BridgeState) :
    Checked PrecompileOutput :=
  (currentBestBid checks globals bridge).map fun best =>
    { gasUsed := clobBaseGasCost
      bytes := match best with
        | none => List.replicate 64 0
        | some (price, qty) => abiWord price.val ++ abiWord qty.val }

/-- The bytes of the best price and of the quantity resting there. -/
structure EncodesBestBid (book : Book) (bytes : List U8) : Prop where
  length : bytes.length = 64
  noBid : book.bestBid = none → bytes = List.replicate 64 0
  bid : ∀ price queue, book.BestLevel .buy price queue →
    BigEndian.ofBytes (bytes.take 32) = price.val ∧
      BigEndian.ofBytes (bytes.drop 32) = queueQty queue

/-- Both sides of the book are reported with their exact quantity, and so is the best bid
to contracts. -/
structure ReportsBest (checks : U64.OverflowChecks) (book : Book) : Prop where
  bid : ∃ quote, book.bestBidWithQty checks = .ok quote ∧ book.Reports .buy quote
  ask : ∃ quote, book.bestAskWithQty checks = .ok quote ∧ book.Reports .sell quote
  precompile : ∀ (globals : Globals) (bridge : BridgeState), globals.clobInstalled = true →
    bridge.clob = book →
      ∃ output, readBestBid checks globals bridge = .ok output ∧
        EncodesBestBid book output.bytes

theorem ofBytes_abiWord (word : U64) : BigEndian.ofBytes (abiWord word.val) = word.val := by
  have hhigh : BigEndian.ofBytes (List.replicate 24 0) = 0 := by decide
  have hword : word.val < 256 ^ 8 := word.isLt
  rw [abiWord, BigEndian.ofBytes_append, hhigh, BigEndian.ofBytes_toBytes, zero_mul,
    zero_add, Nat.mod_eq_of_lt hword]

theorem encodesBestBid_of_reports {book : Book} {price : Price} {qty : Qty}
    (hreports : book.Reports .buy (some (price, qty))) :
    EncodesBestBid book (abiWord price.val ++ abiWord qty.val) := by
  obtain ⟨queue, hlevel, hqty⟩ := hreports
  constructor
  · simp
  · intro hnone
    have hprice := hlevel.1
    rw [Book.bestPrice, hnone] at hprice
    cases hprice
  · intro other otherQueue hother
    obtain ⟨rfl, rfl⟩ := hlevel.unique hother
    rw [List.take_left' (by simp), List.drop_left' (by simp), ofBytes_abiWord,
      ofBytes_abiWord]
    exact ⟨rfl, hqty⟩

theorem encodesBestBid_of_noBid {book : Book} (hnone : book.bestBid = none) :
    EncodesBestBid book (List.replicate 64 0) where
  length := by simp
  noBid _ := rfl
  bid price queue hlevel := by
    have hprice := hlevel.1
    rw [Book.bestPrice, hnone] at hprice
    cases hprice

theorem reportsBest_iff (checks : U64.OverflowChecks) (book : Book) :
    ReportsBest checks book ↔ book.BestFits .buy ∧ book.BestFits .sell := by
  have hbid := book.bestWithQty_reports_iff checks .buy
  have hask := book.bestWithQty_reports_iff checks .sell
  rw [← hbid, ← hask]
  constructor
  · intro hreports
    exact ⟨hreports.bid, hreports.ask⟩
  · rintro ⟨⟨quote, hquote, hreports⟩, hsell⟩
    refine ⟨⟨quote, hquote, hreports⟩, hsell, ?_⟩
    rintro globals bridge hinstalled rfl
    change bridge.clob.bestBidWithQty checks = .ok quote at hquote
    rw [readBestBid, currentBestBid, hinstalled, if_pos rfl, hquote]
    refine ⟨_, rfl, ?_⟩
    cases quote with
    | none => exact encodesBestBid_of_noBid hreports
    | some best => exact encodesBestBid_of_reports hreports

/-- In a build with overflow checks and in one without: on a reachable book the best levels
are reported exactly if their quantities are words.  So they are in every run in which no
order comes to rest at a price whose total it would take out of range. -/
theorem bestQuotes_exact (checks : U64.OverflowChecks) :
    (∀ book : Book, book.Reachable →
      (ReportsBest checks book ↔ book.BestFits .buy ∧ book.BestFits .sell)) ∧
    (∀ (calls : List Call) (book : Book), Book.new.StepsFit calls →
      Book.new.run calls = .ok book → ReportsBest checks book) := by
  refine ⟨fun book _ => reportsBest_iff checks book, ?_⟩
  intro calls book hsteps hrun
  obtain ⟨hbook, hlists⟩ := run_levelsFit Book.new_noEmptyLevel new_levelsFit hsteps hrun
  exact (reportsBest_iff checks book).2
    ⟨Book.bestFits_of_levelsFit hbook hlists .buy,
      Book.bestFits_of_levelsFit hbook hlists .sell⟩

/-- A buy of 5 comes to rest, and a sell of 7 at its price takes it and rests with 2. -/
def crossingPair : List Call :=
  [.submit ⟨1, 1, .buy, 5, .limit 100⟩, .submit ⟨2, 2, .sell, 7, .limit 100⟩]

def crossedBook : Book := Book.new.rest .sell 100 { id := 2, account := 2, qty := 2 }

theorem crossingPair_stepsFit : Book.new.StepsFit crossingPair := by
  constructor
  · intro limitPrice hlimit
    cases hlimit
    decide +kernel
  · intro next hnext
    have hrested : Book.new.apply (.submit ⟨1, 1, .buy, 5, .limit 100⟩) =
        .ok (Book.new.rest .buy 100 { id := 1, account := 1, qty := 5 }) := by decide +kernel
    obtain rfl := Except.ok.inj (hrested.symm.trans hnext)
    refine ⟨?_, fun _ _ => trivial⟩
    intro limitPrice hlimit
    cases hlimit
    decide +kernel

theorem bestQuotes_exact_threeResting :
    threeResting.Reachable ∧ ReportsBest .on threeResting ∧
      Book.new.run crossingPair = .ok crossedBook ∧ ReportsBest .on crossedBook := by
  have hrun : Book.new.run crossingPair = .ok crossedBook := by decide +kernel
  refine ⟨threeResting_reachable, ?_, hrun,
    (bestQuotes_exact .on).2 crossingPair crossedBook crossingPair_stepsFit hrun⟩
  rw [(bestQuotes_exact .on).1 threeResting threeResting_reachable]
  constructor
  · rintro price queue ⟨hprice, hlevel⟩
    have hbest : threeResting.bestPrice .buy = some 90 := by decide +kernel
    obtain rfl := Option.some.inj (hbest.symm.trans hprice)
    have hqueue : threeResting.level? .buy 90 = some [⟨1, 1, 5⟩, ⟨2, 2, 4⟩] := by
      decide +kernel
    obtain rfl := Option.some.inj (hqueue.symm.trans hlevel)
    decide
  · rintro price queue ⟨hprice, hlevel⟩
    have hbest : threeResting.bestPrice .sell = some 100 := by decide +kernel
    obtain rfl := Option.some.inj (hbest.symm.trans hprice)
    have hqueue : threeResting.level? .sell 100 = some [⟨3, 3, 6⟩] := by decide +kernel
    obtain rfl := Option.some.inj (hqueue.symm.trans hlevel)
    decide

/-- Bids of `2 ^ 64 - 1` and of 1 contract at one price. -/
def overfull : Book :=
  (Book.new.rest .buy 100 { id := 1, account := 1, qty := U64.maxValue }).rest .buy 100
    { id := 2, account := 2, qty := 1 }

/-- Two orders make the book; with overflow checks its best bid cannot be read, and without
them it has quantity 0. -/
theorem bestQuotes_overflow :
    Book.new.run [.submit ⟨1, 1, .buy, U64.maxValue, .limit 100⟩,
        .submit ⟨2, 2, .buy, 1, .limit 100⟩] = .ok overfull ∧
      overfull.bestBidWithQty .on = .error .overflow ∧
      overfull.bestBidWithQty .off = .ok (some (100, 0)) ∧
      ∀ checks, ¬ ReportsBest checks overfull := by
  refine ⟨by decide +kernel, by decide +kernel, by decide +kernel, ?_⟩
  intro checks hreports
  have hfits := ((reportsBest_iff checks overfull).1 hreports).1
  have hqty := hfits 100 [⟨1, 1, U64.maxValue⟩, ⟨2, 2, 1⟩]
    ⟨by decide +kernel, by decide +kernel⟩
  revert hqty
  decide

/-! ## The midpoint -/

/-- The bridge and the precompiles that share its book read one value, the midpoint of the
best prices, and it lies between them. -/
def MarksAgree (checks : U64.OverflowChecks) (book : Book) (bid ask : Price) : Prop :=
  ∀ (bridge : LiveBridge) (globals : ProcessGlobals), bridge.clob = book →
    globals.clobInstalled = true →
      ∃ mark : MarkPrice, bridge.currentMark checks = .ok (some mark) ∧
        globals.currentMark checks bridge.toBridgeState = .ok (some mark) ∧
        bid ≤ mark ∧ mark ≤ ask ∧ (mark : ℕ) = (bid.val + ask.val) / 2

/-- On a reachable book with two sides, in a build with overflow checks and in one without:
both midpoints are one value between the best prices exactly if the sum of the best prices
is a word. -/
theorem currentMarks_agree_iff (checks : U64.OverflowChecks) {book : Book}
    (hbook : book.Reachable) {bid ask : Price} (hbid : book.bestBid = some bid)
    (hask : book.bestAsk = some ask) :
    MarksAgree checks book bid ask ↔ bid.val + ask.val < 2 ^ 64 := by
  have hmark : currentMark checks book =
      (U64.add checks bid ask).map fun sum => some (sum / 2) := by
    rw [currentMark, hbid, hask]
  constructor
  · intro hagree
    let bridge : LiveBridge := { LiveBridge.new with clob := book }
    obtain ⟨mark, hlive, -, -, -, hexact⟩ :=
      hagree bridge ProcessGlobals.fresh.installBridge rfl rfl
    change currentMark checks book = .ok (some mark) at hlive
    rw [hmark] at hlive
    by_contra hlarge
    cases checks with
    | on =>
        rw [U64.add, if_neg hlarge] at hlive
        cases hlive
    | off =>
        -- the wrapped sum is too small by a whole word
        obtain rfl := Option.some.inj (Except.ok.inj hlive)
        rw [Fin.div_val, Fin.val_add] at hexact
        have hbidLt := bid.isLt
        have haskLt := ask.isLt
        change (bid.val + ask.val) % 2 ^ 64 / 2 = _ at hexact
        omega
  · intro hrange
    have hspread : bid.val < ask.val := hbook.wellFormed.uncrossed bid ask hbid hask
    have hsum : (bid + ask).val = bid.val + ask.val := Fin.val_add_eq_of_add_lt hrange
    have hmid : ((bid + ask) / 2 : U64).val = (bid.val + ask.val) / 2 := by
      rw [Fin.div_val, hsum]
      rfl
    rw [U64.add_of_lt checks hrange] at hmark
    rintro bridge globals rfl hinstalled
    refine ⟨(bid + ask) / 2, hmark, ?_, ?_, ?_, hmid⟩
    · rw [ProcessGlobals.currentMark, if_pos hinstalled]
      exact hmark
    · rw [Fin.le_def, hmid]
      omega
    · rw [Fin.le_def, hmid]
      omega

theorem currentMarks_agree_threeResting :
    threeResting.bestBid = some 90 ∧ threeResting.bestAsk = some 100 ∧
      MarksAgree .on threeResting 90 100 ∧ MarksAgree .off threeResting 90 100 := by
  have hbid : threeResting.bestBid = some 90 := by decide +kernel
  have hask : threeResting.bestAsk = some 100 := by decide +kernel
  refine ⟨hbid, hask, ?_, ?_⟩
  · exact (currentMarks_agree_iff .on threeResting_reachable hbid hask).2 (by decide)
  · exact (currentMarks_agree_iff .off threeResting_reachable hbid hask).2 (by decide)

/-- A bid at `2 ^ 63` and an offer one above. -/
def highPriced : Book :=
  (Book.new.rest .buy (2 ^ 63) { id := 1, account := 1, qty := 1 }).rest .sell
    (2 ^ 63 + 1) { id := 2, account := 2, qty := 1 }

/-- Two orders make the book; with overflow checks it has no mark, and without them its
mark is 0, below the bid. -/
theorem currentMarks_overflow :
    Book.new.run [.submit ⟨1, 1, .buy, 1, .limit (2 ^ 63)⟩,
        .submit ⟨2, 2, .sell, 1, .limit (2 ^ 63 + 1)⟩] = .ok highPriced ∧
      highPriced.bestBid = some (2 ^ 63) ∧ highPriced.bestAsk = some (2 ^ 63 + 1) ∧
      currentMark .on highPriced = .error .overflow ∧
      currentMark .off highPriced = .ok (some 0) ∧
      ∀ checks, ¬ MarksAgree checks highPriced (2 ^ 63) (2 ^ 63 + 1) := by
  have hon : currentMark .on highPriced = .error .overflow := by decide +kernel
  have hoff : currentMark .off highPriced = .ok (some 0) := by decide +kernel
  refine ⟨by decide +kernel, by decide +kernel, by decide +kernel, hon, hoff, ?_⟩
  intro checks hagree
  let bridge : LiveBridge := { LiveBridge.new with clob := highPriced }
  obtain ⟨mark, hlive, -, hbid, -⟩ :=
    hagree bridge ProcessGlobals.fresh.installBridge rfl rfl
  change currentMark checks highPriced = .ok (some mark) at hlive
  cases checks with
  | on =>
      rw [hon] at hlive
      cases hlive
  | off =>
      rw [hoff] at hlive
      obtain rfl := Option.some.inj (Except.ok.inj hlive)
      revert hbid
      decide

end OpenHl.Evm
