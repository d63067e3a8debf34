import OpenHl.Node.Freshness

/-!
# The time between two settlements

The funding clock keeps the time of its last settlement and lets a tick settle once the
interval has passed.  Block times may jump in both directions, a tick without a fresh
index does not reach the clock, and a restart rebuilds the clock from a snapshot.

`settlements_spaced`: in every run two successive settlements are at least an interval
apart.
-/

namespace OpenHl.Node

open Machine OpenHl.Clob OpenHl.Funding OpenHl.Liquidation OpenHl.Oracle OpenHl.Vault

/-- The end of the interval since the last settlement is a time. -/
def OpenHlNode.DeadlineFits (node : OpenHlNode) : Prop :=
  node.fundingClock.lastSettledAt.val + node.fundingClock.params.intervalSecs.val < 2 ^ 64

instance (node : OpenHlNode) : Decidable node.DeadlineFits :=
  inferInstanceAs (Decidable (_ < _))

/-- Runs of a coordinator with the given configuration, with the reports of its ticks:
ticks at any time, whatever else happens to the oracle and the vault in between, and
restarts, in which a coordinator with the same configuration loads the snapshot. -/
inductive TickRun (config : OpenHlNodeConfig) : List TickReport → OpenHlNode → Prop
  | start (fund : InsuranceFund) : TickRun config [] (.withInsuranceFund config fund)
  | tick {reports : List TickReport} {node after : OpenHlNode} {report : TickReport}
      (hrun : TickRun config reports node) (input : TickInput)
      (hdeadline : node.DeadlineFits) (htick : node.tick input = .ok (after, report)) :
      TickRun config (reports ++ [report]) after
  | oracle {reports : List TickReport} {node : OpenHlNode} (oracle : OracleState)
      (hrun : TickRun config reports node) :
      TickRun config reports { node with oracle := oracle }
  | vault {reports : List TickReport} {node : OpenHlNode} (vault : VaultState)
      (hrun : TickRun config reports node) :
      TickRun config reports { node with vault := vault }
  | restart {reports : List TickReport} {node : OpenHlNode} (target : OpenHlNode)
      (hconfig : target.config = config) (hrun : TickRun config reports node) :
      TickRun config reports (target.loadSnapshot node.snapshot)

/-- The times of the settlements that the reports tell of. -/
def settledTimes (reports : List TickReport) : List U64 :=
  (reports.filterMap TickReport.funding).map FundingTick.settledAt

/-- The second time is at least an interval after the first. -/
def Apart (interval earlier later : U64) : Prop :=
  earlier.val + interval.val ≤ later.val

/-! ## One tick -/

/-- A tick reports no settlement and leaves the clock, or settles at its block time, not
before the deadline, and sets the clock to it. -/
theorem tick_clock_cases {node after : OpenHlNode} {input : TickInput}
    {report : TickReport} (htick : node.tick input = .ok (after, report)) :
    (report.funding = none ∧ after.fundingClock = node.fundingClock) ∨
    ∃ settled, report.funding = some settled ∧ settled.settledAt = input.blockTime ∧
      node.fundingClock.lastSettledAt.saturatingAdd
        node.fundingClock.params.intervalSecs ≤ input.blockTime ∧
      after.fundingClock = { node.fundingClock with lastSettledAt := input.blockTime } := by
  have hclock := OpenHlNode.maybeRefreshOracle_fundingClock node input.blockTime
  obtain ⟨clock, funding, hfunding, rfl, rfl⟩ := OpenHlNode.tick_eq_ok htick
  rw [OpenHlNode.tickFunding] at hfunding
  split at hfunding
  · obtain ⟨rfl, rfl⟩ := Prod.mk.inj (Except.ok.inj hfunding)
    exact .inl ⟨rfl, hclock⟩
  · rw [hclock] at hfunding
    obtain ⟨rfl, rfl⟩ | ⟨settled, rfl, hat, hdeadline, -, rfl⟩ :=
      FundingClock.tick_eq_ok hfunding
    · exact .inl ⟨rfl, rfl⟩
    · exact .inr ⟨settled, rfl, hat, hdeadline, rfl⟩

theorem apart_of_deadline {node : OpenHlNode} {time : U64} (hfits : node.DeadlineFits)
    (hdeadline : node.fundingClock.lastSettledAt.saturatingAdd
      node.fundingClock.params.intervalSecs ≤ time) :
    Apart node.fundingClock.params.intervalSecs node.fundingClock.lastSettledAt time := by
  rwa [Fin.le_def, U64.saturatingAdd_val_of_lt hfits] at hdeadline

/-! ## Whole runs -/

/-- What a run keeps: the clock has the configured interval and the time of the last
settlement, and the settlements so far are apart. -/
structure Spaced (config : OpenHlNodeConfig) (times : List U64) (node : OpenHlNode) :
    Prop where
  params : node.fundingClock.params = config.fundingParams
  last : ∀ time ∈ times.getLast?, time = node.fundingClock.lastSettledAt
  chain : times.IsChain (Apart config.fundingParams.intervalSecs)

theorem Spaced.of_clock {config : OpenHlNodeConfig} {times : List U64}
    {node other : OpenHlNode} (hspaced : Spaced config times node)
    (hclock : other.fundingClock = node.fundingClock) : Spaced config times other := by
  obtain ⟨hparams, hlast, hchain⟩ := hspaced
  rw [← hclock] at hparams hlast
  exact ⟨hparams, hlast, hchain⟩

theorem Spaced.tick {config : OpenHlNodeConfig} {reports : List TickReport}
    {node after : OpenHlNode} {input : TickInput} {report : TickReport}
    (hspaced : Spaced config (settledTimes reports) node)
    (hdeadline : node.DeadlineFits) (htick : node.tick input = .ok (after, report)) :
    Spaced config (settledTimes (reports ++ [report])) after := by
  obtain ⟨hnone, hclock⟩ | ⟨settled, hsome, hat, helapsed, hclock⟩ :=
    tick_clock_cases htick
  · have htimes : settledTimes (reports ++ [report]) = settledTimes reports := by
      simp [settledTimes, hnone]
    rw [htimes]
    exact hspaced.of_clock hclock
  · have htimes : settledTimes (reports ++ [report]) =
        settledTimes reports ++ [input.blockTime] := by
      simp [settledTimes, hsome, hat]
    have hapart := apart_of_deadline hdeadline helapsed
    rw [hspaced.params] at hapart
    rw [htimes]
    refine ⟨?_, ?_, ?_⟩
    · rw [hclock]
      exact hspaced.params
    · simp [hclock]
    · rw [List.isChain_append]
      refine ⟨hspaced.chain, List.isChain_singleton _, ?_⟩
      intro earlier hearlier later hlater
      cases hlater
      rw [hspaced.last earlier hearlier]
      exact hapart

theorem TickRun.spaced {config : OpenHlNodeConfig} {reports : List TickReport}
    {node : OpenHlNode} (hrun : TickRun config reports node) :
    Spaced config (settledTimes reports) node := by
  induction hrun with
  | start fund => exact ⟨rfl, by simp [settledTimes], List.isChain_nil⟩
  | tick _ input hdeadline htick ih => exact ih.tick hdeadline htick
  | oracle oracle _ ih => exact ih.of_clock rfl
  | vault vault _ ih => exact ih.of_clock rfl
  | restart target hconfig _ ih =>
      refine ih.of_clock ?_
      simp only [OpenHlNode.loadSnapshot, OpenHlNode.snapshot, hconfig, ← ih.params]

theorem span_of_isChain {interval : U64} {times : List U64} {first last : U64}
    (hchain : times.IsChain (Apart interval)) (hfirst : times.head? = some first)
    (hlast : times.getLast? = some last) :
    first.val + (times.length - 1) * interval.val ≤ last.val := by
  induction times generalizing first with
  | nil => cases hfirst
  | cons time times ih =>
      obtain rfl : time = first := Option.some.inj hfirst
      cases times with
      | nil =>
          cases hlast
          simp
      | cons next times =>
          obtain ⟨hapart, hrest⟩ := List.isChain_cons_cons.1 hchain
          have hspan := ih hrest rfl (by simpa using hlast)
          rw [Apart] at hapart
          simp only [List.length_cons, Nat.add_sub_cancel] at hspan ⊢
          calc
            time.val + (times.length + 1) * interval.val =
                time.val + interval.val + times.length * interval.val := by ring
            _ ≤ next.val + times.length * interval.val := Nat.add_le_add_right hapart _
            _ ≤ last.val := hspan

/-- In every run, restarts included, in which the end of the interval never exceeds the
largest time: successive settlements are at least an interval apart, so that `n` of them
take at least `n - 1` intervals, and a tick that reports no settlement leaves the funding
clock as it was. -/
theorem settlements_spaced (config : OpenHlNodeConfig) (reports : List TickReport)
    (node : OpenHlNode) (hrun : TickRun config reports node) :
    (settledTimes reports).IsChain (fun earlier later =>
      earlier.val + config.fundingParams.intervalSecs.val ≤ later.val) ∧
    (∀ first last, (settledTimes reports).head? = some first →
      (settledTimes reports).getLast? = some last →
      first.val + ((settledTimes reports).length - 1) *
        config.fundingParams.intervalSecs.val ≤ last.val) ∧
    (∀ input after report, node.tick input = .ok (after, report) →
      report.funding = none → after.fundingClock = node.fundingClock) := by
  have hspaced := hrun.spaced
  refine ⟨hspaced.chain, ?_, ?_⟩
  · intro first last hfirst hlast
    exact span_of_isChain hspaced.chain hfirst hlast
  · intro input after report htick hnone
    obtain ⟨-, hclock⟩ | ⟨settled, hsome, -⟩ := tick_clock_cases htick
    · exact hclock
    · rw [hnone] at hsome
      cases hsome

/-- An oracle with two feeds observed at the given time. -/
def oracleAt (time : U64) : OracleState :=
  { OracleState.new .hyperliquidDefault with
    feeds := (SortedMap.empty.insert 0
      (OpenHlNode.recordOf (OpenHlNode.observedAt 0 time))).insert 1
        (OpenHlNode.recordOf (OpenHlNode.observedAt 1 time)) }

/-- A settlement at 3600, a block at 3700 that is too early, a restart, and a
settlement at 7200. -/
theorem settlements_spaced_restarted :
    ∃ reports node, TickRun .hyperliquidDefault reports node ∧
      settledTimes reports = [3600, 7200] ∧
      (3600 : U64).val + (2 - 1) * 3600 ≤ (7200 : U64).val := by
  have hstart : TickRun .hyperliquidDefault [] (.new .hyperliquidDefault) := .start .empty
  have hfirst := (hstart.oracle (oracleAt 3600)).tick (OpenHlNode.tickAt 3600)
    (by decide) rfl
  have hearly := (hfirst.oracle (oracleAt 3700)).tick (OpenHlNode.tickAt 3700)
    (by decide) rfl
  have hsecond := ((hearly.restart (.new .hyperliquidDefault) rfl).oracle
    (oracleAt 7200)).tick (OpenHlNode.tickAt 7200) (by decide) rfl
  have hspaced := (settlements_spaced _ _ _ hsecond).2.1 3600 7200 rfl rfl
  exact ⟨_, _, hsecond, rfl, hspaced⟩

end OpenHl.Node
