import OpenHl.Core.TwoKey
import OpenHl.Liquidation.Scanner

/-!
# Auto-deleveraging

When the fund cannot cover a deficit, profitable positions are closed in the
order of their score until their profits have absorbed it.

`mem_executeAdl_closeOrders`: with pairwise distinct accounts, an eligible account
is closed exactly when the profits ranked ahead of it are less than the
deficit.  `executeAdl_eq_of_perm`: the report does not depend on the order in
which they are listed.
-/

namespace OpenHl.Liquidation

open Machine OpenHl.Clob OpenHl.Funding

structure AdlRecord where
  account : AccountId
  closeOrder : CloseOrderSpec
  pnlGross : I64
  haircut : I64
  pnlPaid : I64
  score : I64
  deriving DecidableEq

structure AdlReport where
  records : List AdlRecord
  deficitAbsorbed : I64
  deficitRemaining : I64
  deriving DecidableEq

/-- Profit over collateral times leverage; `none` for accounts that are not
eligible. -/
def adlScore (snapshot : AccountSnapshot) (mark : MarkPrice) : Option I64 :=
  if snapshot.positionSize = 0 then none
  else
    let pnl := (unrealizedPnl snapshot mark).val
    if pnl ≤ 0 then none
    else
      let collateral := snapshot.collateral.val
      if collateral ≤ 0 then none
      else
        let equity := (accountEquity snapshot mark).val
        if equity ≤ 0 then none
        else
          let notional : ℤ := (notionalValue snapshot mark).val
          let pnlPct := (saturateI128 (pnl * marginScale)).tdiv collateral
          let leverage := (saturateI128 (notional * marginScale)).tdiv equity
          some (.saturate ((saturateI128 (pnlPct * leverage)).tdiv marginScale))

structure AdlCandidate where
  snapshot : AccountSnapshot
  score : I64
  pnlGross : I64
  deriving DecidableEq

def adlCandidate? (mark : MarkPrice) (snapshot : AccountSnapshot) :
    Option AdlCandidate :=
  (adlScore snapshot mark).map fun score =>
    { snapshot := snapshot, score := score, pnlGross := unrealizedPnl snapshot mark }

/-- Higher score first, then smaller account id. -/
def AdlCandidate.RanksBefore (first second : AdlCandidate) : Prop :=
  second.score.val < first.score.val ∨
    (first.score.val = second.score.val ∧
      first.snapshot.account ≤ second.snapshot.account)

instance : DecidableRel AdlCandidate.RanksBefore := fun _ _ =>
  inferInstanceAs (Decidable (_ ∨ _))

def rankedCandidates (candidates : List AccountSnapshot) (mark : MarkPrice) :
    List AdlCandidate :=
  (candidates.filterMap (adlCandidate? mark)).insertionSort AdlCandidate.RanksBefore

def adlRecord (remaining : I64) (candidate : AdlCandidate) : AdlRecord :=
  let haircut : I64 :=
    if remaining.val ≤ candidate.pnlGross.val then remaining else candidate.pnlGross
  { account := candidate.snapshot.account
    closeOrder := closeOrderSpec candidate.snapshot
    pnlGross := candidate.pnlGross
    haircut := haircut
    pnlPaid := candidate.pnlGross.saturatingSub haircut
    score := candidate.score }

/-- Haircut the ranked candidates until nothing of the deficit remains. -/
def adlLoop (remaining : I64) (report : AdlReport) :
    List AdlCandidate → AdlReport
  | [] => { report with deficitRemaining := remaining }
  | candidate :: rest =>
      if remaining.val ≤ 0 then { report with deficitRemaining := remaining }
      else
        let record := adlRecord remaining candidate
        adlLoop (remaining.saturatingSub record.haircut)
          { report with
            records := report.records ++ [record]
            deficitAbsorbed := report.deficitAbsorbed.saturatingAdd record.haircut }
          rest

def executeAdl (candidates : List AccountSnapshot) (mark : MarkPrice)
    (deficit : I64) : AdlReport :=
  if deficit.val ≤ 0 then
    { records := [], deficitAbsorbed := 0, deficitRemaining := 0 }
  else
    adlLoop deficit { records := [], deficitAbsorbed := 0, deficitRemaining := 0 }
      (rankedCandidates candidates mark)

/-! ## Which accounts are closed -/

/-- The records of the loop, without the accumulator. -/
def adlRecords : I64 → List AdlCandidate → List AdlRecord
  | _, [] => []
  | remaining, candidate :: rest =>
      if remaining.val ≤ 0 then []
      else
        let record := adlRecord remaining candidate
        record :: adlRecords (remaining.saturatingSub record.haircut) rest

theorem adlLoop_records (remaining : I64) (report : AdlReport)
    (candidates : List AdlCandidate) :
    (adlLoop remaining report candidates).records =
      report.records ++ adlRecords remaining candidates := by
  induction candidates generalizing remaining report with
  | nil => simp [adlLoop, adlRecords]
  | cons candidate rest ih =>
      rw [adlLoop, adlRecords]
      split_ifs with hnone
      · simp
      · simp only [ih, List.append_assoc, List.singleton_append]

theorem executeAdl_records (candidates : List AccountSnapshot) (mark : MarkPrice)
    (deficit : I64) :
    (executeAdl candidates mark deficit).records =
      adlRecords deficit (rankedCandidates candidates mark) := by
  rw [executeAdl]
  split_ifs with hnone
  · cases rankedCandidates candidates mark with
    | nil => rfl
    | cons candidate rest => simp [adlRecords, hnone]
  · simp [adlLoop_records]

/-- Every record is written for some candidate while some of the deficit is open. -/
theorem mem_adlRecords {remaining : I64} {candidates : List AdlCandidate}
    {record : AdlRecord} (hrecord : record ∈ adlRecords remaining candidates) :
    ∃ left : I64, 0 < left.val ∧ ∃ candidate ∈ candidates,
      record = adlRecord left candidate := by
  induction candidates generalizing remaining with
  | nil => simp [adlRecords] at hrecord
  | cons candidate rest ih =>
      rw [adlRecords] at hrecord
      split_ifs at hrecord with hnone
      · exact absurd hrecord List.not_mem_nil
      · rcases List.mem_cons.1 hrecord with rfl | hrest
        · exact ⟨remaining, not_le.1 hnone, candidate, by simp, rfl⟩
        · obtain ⟨left, hleft, other, hother, rfl⟩ := ih hrest
          exact ⟨left, hleft, other, List.mem_cons_of_mem candidate hother, rfl⟩

theorem executeAdl_account (candidates : List AccountSnapshot) (mark : MarkPrice)
    (deficit : I64) : ∀ record ∈ (executeAdl candidates mark deficit).records,
      record.account = record.closeOrder.account := by
  intro record hrecord
  rw [executeAdl_records] at hrecord
  obtain ⟨_, -, _, -, rfl⟩ := mem_adlRecords hrecord
  rfl

def grossSum (candidates : List AdlCandidate) : ℤ :=
  (candidates.map fun candidate => candidate.pnlGross.val).sum

theorem adlRecord_haircut (remaining : I64) (candidate : AdlCandidate) :
    (adlRecord remaining candidate).haircut.val =
      min remaining.val candidate.pnlGross.val := by
  rw [adlRecord]
  simp only
  split_ifs with hlast
  · exact (min_eq_left hlast).symm
  · exact (min_eq_right (not_le.1 hlast).le).symm

theorem adlRecord_open {remaining : I64} {candidate : AdlCandidate}
    (hremaining : 0 < remaining.val) (hgross : 0 < candidate.pnlGross.val) :
    (remaining.saturatingSub (adlRecord remaining candidate).haircut).val =
      remaining.val - (adlRecord remaining candidate).haircut.val := by
  have hhaircut := adlRecord_haircut remaining candidate
  have hupper := remaining.upper
  exact I64.saturatingSub_val_of_inI64 ⟨by omega, by omega⟩

theorem adlRecord_remaining {remaining : I64} {candidate : AdlCandidate}
    (hremaining : 0 < remaining.val) (hgross : 0 < candidate.pnlGross.val) :
    (remaining.saturatingSub (adlRecord remaining candidate).haircut).val =
      max 0 (remaining.val - candidate.pnlGross.val) := by
  rw [adlRecord_open hremaining hgross, adlRecord_haircut]
  omega

/-- The candidates the loop closes: a prefix whose predecessors do not cover
the deficit. -/
def reached : ℤ → List AdlCandidate → List AdlCandidate
  | _, [] => []
  | deficit, candidate :: rest =>
      if deficit ≤ 0 then []
      else candidate :: reached (deficit - candidate.pnlGross.val) rest

theorem reached_of_nonpos {deficit : ℤ} (hdeficit : deficit ≤ 0)
    (candidates : List AdlCandidate) : reached deficit candidates = [] := by
  cases candidates with
  | nil => rfl
  | cons candidate rest => rw [reached, if_pos hdeficit]

theorem reached_sublist (deficit : ℤ) (candidates : List AdlCandidate) :
    (reached deficit candidates).Sublist candidates := by
  induction candidates generalizing deficit with
  | nil => exact List.Sublist.refl _
  | cons candidate rest ih =>
      rw [reached]
      split_ifs
      · exact List.nil_sublist _
      · exact (ih _).cons_cons candidate

/-- The record closes the position of the candidate. -/
structure AdlRecord.IsFor (record : AdlRecord) (candidate : AdlCandidate) : Prop where
  account : record.account = candidate.snapshot.account
  closeOrder : record.closeOrder = closeOrderSpec candidate.snapshot
  pnlGross : record.pnlGross = candidate.pnlGross
  score : record.score = candidate.score

/-- The records are for the candidates the loop reaches, in their order. -/
theorem adlRecords_isFor {candidates : List AdlCandidate}
    (hgross : ∀ candidate ∈ candidates, 0 < candidate.pnlGross.val)
    (remaining : I64) :
    List.Forall₂ AdlRecord.IsFor (adlRecords remaining candidates)
      (reached remaining.val candidates) := by
  induction candidates generalizing remaining with
  | nil => exact .nil
  | cons candidate rest ih =>
      rw [adlRecords, reached]
      split_ifs with hnone
      · exact .nil
      · have hrest := ih (fun other hother => hgross other (by simp [hother]))
          (remaining.saturatingSub (adlRecord remaining candidate).haircut)
        have hleft := adlRecord_remaining (not_le.1 hnone) (hgross candidate (by simp))
        refine .cons ⟨rfl, rfl, rfl, rfl⟩ ?_
        by_cases hmore : 0 < remaining.val - candidate.pnlGross.val
        · rwa [hleft, max_eq_right hmore.le] at hrest
        · rw [reached_of_nonpos (by omega)] at hrest
          rwa [reached_of_nonpos (by omega)]

theorem adlRecords_closeOrders {candidates : List AdlCandidate}
    (hgross : ∀ candidate ∈ candidates, 0 < candidate.pnlGross.val)
    (remaining : I64) :
    (adlRecords remaining candidates).map AdlRecord.closeOrder =
      (reached remaining.val candidates).map fun candidate =>
        closeOrderSpec candidate.snapshot := by
  rw [← List.forall₂_eq_eq_eq, List.forall₂_map_left_iff, List.forall₂_map_right_iff]
  exact (adlRecords_isFor hgross remaining).imp fun _ _ hfor => hfor.closeOrder

/-- The strict ranking of candidates with different accounts. -/
def AdlCandidate.RanksAhead (first second : AdlCandidate) : Prop :=
  second.score.val < first.score.val ∨
    (first.score.val = second.score.val ∧
      first.snapshot.account < second.snapshot.account)

instance : DecidableRel AdlCandidate.RanksAhead := fun _ _ =>
  inferInstanceAs (Decidable (_ ∨ _))

theorem AdlCandidate.RanksAhead.asymm {first second : AdlCandidate}
    (hahead : first.RanksAhead second) : ¬ second.RanksAhead first := by
  rintro (hscore | ⟨hscore, haccount⟩)
  · rcases hahead with hother | ⟨hother, -⟩ <;> omega
  · rcases hahead with hother | ⟨-, hother⟩
    · omega
    · exact haccount.asymm hother

theorem grossSum_nonneg {candidates : List AdlCandidate}
    (hgross : ∀ candidate ∈ candidates, 0 < candidate.pnlGross.val) :
    0 ≤ grossSum candidates := by
  apply List.sum_nonneg
  intro gross hmem
  obtain ⟨candidate, hcandidate, rfl⟩ := List.mem_map.1 hmem
  exact (hgross candidate hcandidate).le

/-- Nothing ranks ahead of the first candidate. -/
theorem filter_ranksAhead_first {first : AdlCandidate} {rest : List AdlCandidate}
    (hfirst : ∀ other ∈ rest, first.RanksAhead other) :
    (first :: rest).filter (fun other => other.RanksAhead first) = [] := by
  rw [List.filter_eq_nil_iff]
  intro other hother
  rcases List.mem_cons.1 hother with rfl | hrest
  · simpa using fun hself : other.RanksAhead other => hself.asymm hself
  · simpa using (hfirst other hrest).asymm

theorem grossSum_filter_cons {first candidate : AdlCandidate}
    (hahead : first.RanksAhead candidate) (rest : List AdlCandidate) :
    grossSum ((first :: rest).filter fun other => other.RanksAhead candidate) =
      first.pnlGross.val +
        grossSum (rest.filter fun other => other.RanksAhead candidate) := by
  rw [List.filter_cons_of_pos (by simpa using hahead)]
  simp [grossSum]

/-- The loop closes the candidates whose predecessors do not cover the deficit. -/
theorem mem_reached {candidates : List AdlCandidate}
    (hranked : candidates.Pairwise AdlCandidate.RanksAhead)
    (hgross : ∀ candidate ∈ candidates, 0 < candidate.pnlGross.val)
    {deficit : ℤ} {candidate : AdlCandidate} :
    candidate ∈ reached deficit candidates ↔ candidate ∈ candidates ∧
      grossSum (candidates.filter fun other => other.RanksAhead candidate) <
        deficit := by
  induction candidates generalizing deficit with
  | nil => simp [reached]
  | cons first rest ih =>
      rw [List.pairwise_cons] at hranked
      have hrestGross := fun other hother =>
        hgross other (List.mem_cons_of_mem first hother)
      rw [reached, List.mem_cons]
      by_cases hfirst : candidate = first
      · subst hfirst
        rw [filter_ranksAhead_first hranked.1]
        split_ifs with hdeficit <;> simp [grossSum] <;> omega
      · have hfirstGross := hgross first (by simp)
        have hahead : 0 ≤ grossSum
            (rest.filter fun other => other.RanksAhead candidate) :=
          grossSum_nonneg fun other hother =>
            hrestGross other (List.mem_filter.1 hother).1
        split_ifs with hdeficit
        · constructor
          · simp
          · rintro ⟨hmem, hless⟩
            have hrest := hmem.resolve_left hfirst
            rw [grossSum_filter_cons (hranked.1 candidate hrest)] at hless
            omega
        · rw [List.mem_cons, ih hranked.2 hrestGross]
          constructor
          · rintro (hequal | ⟨hmem, hless⟩)
            · exact absurd hequal hfirst
            · refine ⟨Or.inr hmem, ?_⟩
              rw [grossSum_filter_cons (hranked.1 candidate hmem)]
              omega
          · rintro ⟨hmem, hless⟩
            have hrest := hmem.resolve_left hfirst
            rw [grossSum_filter_cons (hranked.1 candidate hrest)] at hless
            exact Or.inr ⟨hrest, by omega⟩

/-! ## The ranking -/

instance : Std.Total AdlCandidate.RanksBefore :=
  inferInstanceAs (Std.Total (TwoKey.RanksBefore
    (fun candidate : AdlCandidate => candidate.score.val)
    fun candidate => candidate.snapshot.account))

instance : IsTrans AdlCandidate AdlCandidate.RanksBefore :=
  inferInstanceAs (IsTrans AdlCandidate (TwoKey.RanksBefore
    (fun candidate : AdlCandidate => candidate.score.val)
    fun candidate => candidate.snapshot.account))

section Ranking

variable {accounts : List AccountSnapshot} {mark : MarkPrice}

theorem adlCandidate?_eq_some {snapshot : AccountSnapshot}
    {candidate : AdlCandidate}
    (hcandidate : adlCandidate? mark snapshot = some candidate) :
    candidate.snapshot = snapshot ∧
      candidate.pnlGross = unrealizedPnl snapshot mark := by
  obtain ⟨score, -, rfl⟩ := Option.map_eq_some_iff.1 hcandidate
  exact ⟨rfl, rfl⟩

theorem adlScore_eq_some {snapshot : AccountSnapshot} {score : I64}
    (hscore : adlScore snapshot mark = some score) :
    snapshot.positionSize ≠ 0 ∧ 0 < (unrealizedPnl snapshot mark).val := by
  rw [adlScore] at hscore
  split_ifs at hscore with hflat
  simp only at hscore
  split_ifs at hscore with hpnl
  exact ⟨hflat, not_le.1 hpnl⟩

theorem rankedCandidates_perm (accounts : List AccountSnapshot) (mark : MarkPrice) :
    (rankedCandidates accounts mark).Perm
      (accounts.filterMap (adlCandidate? mark)) :=
  List.perm_insertionSort _ _

theorem mem_rankedCandidates {candidate : AdlCandidate} :
    candidate ∈ rankedCandidates accounts mark ↔
      ∃ snapshot ∈ accounts, adlCandidate? mark snapshot = some candidate := by
  rw [(rankedCandidates_perm accounts mark).mem_iff, List.mem_filterMap]

theorem rankedCandidates_gross (accounts : List AccountSnapshot) (mark : MarkPrice) :
    ∀ candidate ∈ rankedCandidates accounts mark, 0 < candidate.pnlGross.val := by
  intro candidate hcandidate
  obtain ⟨snapshot, -, hsome⟩ := mem_rankedCandidates.1 hcandidate
  obtain ⟨score, hscore, rfl⟩ := Option.map_eq_some_iff.1 hsome
  exact (adlScore_eq_some hscore).2

theorem filterMap_adlCandidate_accounts :
    ((accounts.filterMap (adlCandidate? mark)).map
      fun candidate => candidate.snapshot.account).Sublist
        (accounts.map AccountSnapshot.account) := by
  induction accounts with
  | nil => simp
  | cons snapshot rest ih =>
      cases hcandidate : adlCandidate? mark snapshot with
      | none =>
          rw [List.filterMap_cons_none hcandidate]
          exact ih.cons _
      | some candidate =>
          rw [List.filterMap_cons_some hcandidate, List.map_cons, List.map_cons,
            (adlCandidate?_eq_some hcandidate).1]
          exact ih.cons_cons _

theorem rankedCandidates_distinct
    (hdistinct : (accounts.map AccountSnapshot.account).Nodup) :
    ((rankedCandidates accounts mark).map
      fun candidate => candidate.snapshot.account).Nodup := by
  rw [((rankedCandidates_perm accounts mark).map _).nodup_iff]
  exact hdistinct.sublist filterMap_adlCandidate_accounts

/-- With distinct accounts the ranking is strict. -/
theorem rankedCandidates_pairwise
    (hdistinct : (accounts.map AccountSnapshot.account).Nodup) :
    (rankedCandidates accounts mark).Pairwise AdlCandidate.RanksAhead := by
  have hsorted : (rankedCandidates accounts mark).Pairwise AdlCandidate.RanksBefore :=
    List.pairwise_insertionSort _ _
  refine hsorted.imp₂ ?_ (List.pairwise_map.1 (rankedCandidates_distinct hdistinct))
  intro first second hbefore hne
  rcases hbefore with hscore | ⟨hscore, haccount⟩
  · exact Or.inl hscore
  · exact Or.inr ⟨hscore, lt_of_le_of_ne haccount hne⟩

/-- Profits of the eligible accounts ranked ahead of a candidate. -/
def pnlAhead (accounts : List AccountSnapshot) (mark : MarkPrice)
    (candidate : AdlCandidate) : ℤ :=
  grossSum ((accounts.filterMap (adlCandidate? mark)).filter
    fun other => other.RanksAhead candidate)

/-- Auto-deleveraging closes an account: it is eligible and the profits ranked
ahead of it do not cover the deficit. -/
def AdlCloses (accounts : List AccountSnapshot) (mark : MarkPrice) (deficit : ℤ)
    (snapshot : AccountSnapshot) : Prop :=
  ∃ candidate, adlCandidate? mark snapshot = some candidate ∧
    pnlAhead accounts mark candidate < deficit

instance (accounts : List AccountSnapshot) (mark : MarkPrice) (deficit : ℤ)
    (snapshot : AccountSnapshot) :
    Decidable (AdlCloses accounts mark deficit snapshot) :=
  decidable_of_iff (∃ candidate ∈ adlCandidate? mark snapshot,
    pnlAhead accounts mark candidate < deficit) Iff.rfl

theorem mem_executeAdl_closeOrders
    (hdistinct : (accounts.map AccountSnapshot.account).Nodup) (deficit : I64)
    (order : CloseOrderSpec) :
    order ∈ (executeAdl accounts mark deficit).records.map AdlRecord.closeOrder ↔
      ∃ snapshot ∈ accounts, AdlCloses accounts mark deficit.val snapshot ∧
        order = closeOrderSpec snapshot := by
  rw [executeAdl_records, adlRecords_closeOrders (rankedCandidates_gross accounts mark),
    List.mem_map]
  have hahead : ∀ candidate, grossSum ((rankedCandidates accounts mark).filter
      fun other => other.RanksAhead candidate) = pnlAhead accounts mark candidate :=
    fun candidate =>
      (((rankedCandidates_perm accounts mark).filter _).map _).sum_eq
  constructor
  · rintro ⟨candidate, hreached, rfl⟩
    rw [mem_reached (rankedCandidates_pairwise hdistinct)
      (rankedCandidates_gross accounts mark), hahead] at hreached
    obtain ⟨snapshot, hmem, hsome⟩ := mem_rankedCandidates.1 hreached.1
    rw [(adlCandidate?_eq_some hsome).1]
    exact ⟨snapshot, hmem, ⟨candidate, hsome, hreached.2⟩, rfl⟩
  · rintro ⟨snapshot, hmem, ⟨candidate, hsome, hless⟩, rfl⟩
    refine ⟨candidate, ?_, by rw [(adlCandidate?_eq_some hsome).1]⟩
    rw [mem_reached (rankedCandidates_pairwise hdistinct)
      (rankedCandidates_gross accounts mark), hahead]
    exact ⟨mem_rankedCandidates.2 ⟨snapshot, hmem, hsome⟩, hless⟩

theorem executeAdl_distinct
    (hdistinct : (accounts.map AccountSnapshot.account).Nodup) (deficit : I64) :
    ((executeAdl accounts mark deficit).records.map
      fun record => record.closeOrder.account).Nodup := by
  have horders := adlRecords_closeOrders
    (rankedCandidates_gross accounts mark) deficit
  have haccounts : ((executeAdl accounts mark deficit).records.map
      fun record => record.closeOrder.account) =
        (reached deficit.val (rankedCandidates accounts mark)).map
          fun candidate => candidate.snapshot.account := by
    have hmapped := congrArg (List.map CloseOrderSpec.account) horders
    rw [List.map_map, List.map_map] at hmapped
    rw [executeAdl_records]
    exact hmapped
  rw [haccounts]
  exact (rankedCandidates_distinct hdistinct).sublist
    ((reached_sublist _ _).map _)

/-! ## The order of the candidates -/

/-- Distinct accounts leave the ranking no choice between equal scores. -/
theorem rankedCandidates_eq_of_perm {left right : List AccountSnapshot}
    (hperm : left.Perm right) (hdistinct : (left.map AccountSnapshot.account).Nodup)
    (mark : MarkPrice) : rankedCandidates left mark = rankedCandidates right mark := by
  have hcandidates := hperm.filterMap (adlCandidate? mark)
  exact TwoKey.insertionSort_eq_of_perm hcandidates
    (hdistinct.sublist filterMap_adlCandidate_accounts)

/-- The report does not depend on the order in which distinct accounts are listed. -/
theorem executeAdl_eq_of_perm {left right : List AccountSnapshot}
    (hperm : left.Perm right) (hdistinct : (left.map AccountSnapshot.account).Nodup)
    (mark : MarkPrice) (deficit : I64) :
    executeAdl left mark deficit = executeAdl right mark deficit := by
  rw [executeAdl, executeAdl, rankedCandidates_eq_of_perm hperm hdistinct]

/-- Ten units bought at 100 against a collateral of 100. -/
def profitableLong (account : AccountId) : AccountSnapshot :=
  { account := account, positionSize := 10, avgEntry := 100, collateral := 100 }

/-- Three equal scores listed backwards: the first account loses its whole profit of 200,
the second the last 50 of the deficit, the third keeps its position. -/
theorem executeAdl_eq_of_perm_tied :
    executeAdl [profitableLong 3, profitableLong 2, profitableLong 1] 120 250 =
        executeAdl [profitableLong 1, profitableLong 2, profitableLong 3] 120 250 ∧
      (executeAdl [profitableLong 3, profitableLong 2, profitableLong 1] 120 250).records.map
        (fun record => (record.account, record.haircut)) = [(1, 200), (2, 50)] := by
  have hequal := executeAdl_eq_of_perm
    (List.reverse_perm [profitableLong 1, profitableLong 2, profitableLong 3])
    (by decide) 120 250
  exact ⟨hequal, by decide⟩

end Ranking

end OpenHl.Liquidation
