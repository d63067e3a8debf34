import OpenHl.Core.Waterfall
import OpenHl.Liquidation.Adl

/-!
# What auto-deleveraging absorbs

The ranked candidates are a waterfall: each one closed loses the lesser of its profit and
of the deficit that is still open.

`executeAdl_absorbs`: for every list of candidates, mark and deficit, the report closes
the shortest front part of the ranking that covers the deficit, and its totals add up to
the deficit.
-/

namespace OpenHl.Liquidation

open Machine OpenHl.Clob OpenHl.Funding Waterfall

def haircutSum (records : List AdlRecord) : ℤ :=
  (records.map fun record => record.haircut.val).sum

theorem haircutSum_cons (record : AdlRecord) (records : List AdlRecord) :
    haircutSum (record :: records) = record.haircut.val + haircutSum records :=
  List.sum_cons

/-- What auto-deleveraging of a positive deficit reports. -/
structure AdlReport.Absorbs (report : AdlReport) (ranked : List AdlCandidate)
    (deficit : ℤ) : Prop where
  /-- The records close the shortest front part of the ranking that covers the deficit. -/
  closes : ∃ closed,
    ShortestCover (fun candidate => candidate.pnlGross.val) deficit ranked closed ∧
      List.Forall₂ AdlRecord.IsFor report.records closed
  /-- A haircut takes what it can of the deficit the earlier ones left open. -/
  haircut_eq : ∀ before record after, report.records = before ++ record :: after →
    record.haircut.val = min (deficit - haircutSum before) record.pnlGross.val
  haircut_bounds : ∀ record ∈ report.records,
    0 ≤ record.haircut.val ∧ record.haircut.val ≤ record.pnlGross.val
  pnlPaid_eq : ∀ record ∈ report.records,
    record.pnlPaid.val = record.pnlGross.val - record.haircut.val
  paid_last : ∀ before record after, report.records = before ++ record :: after →
    0 < record.pnlPaid.val → after = []
  absorbed_eq : report.deficitAbsorbed.val = haircutSum report.records
  total_eq : report.deficitAbsorbed.val + report.deficitRemaining.val = deficit
  /-- If some of the deficit remains, every ranked candidate lost its whole profit. -/
  exhausted : 0 < report.deficitRemaining.val →
    List.Forall₂ (fun record candidate =>
      record.IsFor candidate ∧ record.haircut = candidate.pnlGross) report.records ranked

theorem adlRecord_pnlPaid {remaining : I64} {candidate : AdlCandidate}
    (hremaining : 0 < remaining.val) (hgross : 0 < candidate.pnlGross.val) :
    (adlRecord remaining candidate).pnlPaid.val =
      candidate.pnlGross.val - (adlRecord remaining candidate).haircut.val := by
  have hhaircut := adlRecord_haircut remaining candidate
  have hupper := candidate.pnlGross.upper
  have hrange : InI64
      (candidate.pnlGross.val - (adlRecord remaining candidate).haircut.val) :=
    ⟨by omega, by omega⟩
  exact I64.saturatingSub_val_of_inI64 hrange

section Loop

variable {ranked : List AdlCandidate}

/-! ## The records -/

theorem adlRecords_pnlPaid
    (hgross : ∀ candidate ∈ ranked, 0 < candidate.pnlGross.val) {remaining : I64}
    {record : AdlRecord} (hrecord : record ∈ adlRecords remaining ranked) :
    record.pnlPaid.val = record.pnlGross.val - record.haircut.val := by
  obtain ⟨left, hleft, candidate, hcandidate, rfl⟩ := mem_adlRecords hrecord
  exact adlRecord_pnlPaid hleft (hgross candidate hcandidate)

theorem adlRecords_haircut_bounds
    (hgross : ∀ candidate ∈ ranked, 0 < candidate.pnlGross.val) {remaining : I64}
    {record : AdlRecord} (hrecord : record ∈ adlRecords remaining ranked) :
    0 ≤ record.haircut.val ∧ record.haircut.val ≤ record.pnlGross.val := by
  obtain ⟨left, hleft, candidate, hcandidate, rfl⟩ := mem_adlRecords hrecord
  rw [adlRecord_haircut]
  exact ⟨le_min hleft.le (hgross candidate hcandidate).le, min_le_right _ _⟩

theorem reached_shortestCover (deficit : ℤ) (ranked : List AdlCandidate) :
    ShortestCover (fun candidate : AdlCandidate => candidate.pnlGross.val) deficit ranked
      (reached deficit ranked) := by
  induction ranked generalizing deficit with
  | nil => exact .nil
  | cons candidate rest ih =>
      rw [reached]
      split_ifs with hnone
      · exact .of_nonpos hnone _
      · exact .cons (not_le.1 hnone) (ih _)

/-- The haircuts fill the deficit from the profits. -/
theorem adlRecords_fills
    (hgross : ∀ candidate ∈ ranked, 0 < candidate.pnlGross.val) (remaining : I64) :
    Fills (fun record : AdlRecord => record.pnlGross.val)
      (fun record => record.haircut.val) remaining.val (adlRecords remaining ranked) := by
  induction ranked generalizing remaining with
  | nil => trivial
  | cons candidate rest ih =>
      rw [adlRecords]
      split_ifs with hnone
      · trivial
      · have hopen := adlRecord_open (not_le.1 hnone) (hgross candidate (by simp))
        have hrest := ih (fun other hother => hgross other (by simp [hother]))
          (remaining.saturatingSub (adlRecord remaining candidate).haircut)
        rw [hopen] at hrest
        exact ⟨not_le.1 hnone, adlRecord_haircut remaining candidate, hrest⟩

/-! ## The report -/

/-- The loop moves the haircuts from the remaining deficit to the absorbed one. -/
theorem adlLoop_totals (hgross : ∀ candidate ∈ ranked, 0 < candidate.pnlGross.val)
    (remaining : I64) (report : AdlReport) (habsorbed : 0 ≤ report.deficitAbsorbed.val)
    (hrange : InI64 (report.deficitAbsorbed.val + remaining.val)) :
    (adlLoop remaining report ranked).deficitAbsorbed.val =
        report.deficitAbsorbed.val + haircutSum (adlRecords remaining ranked) ∧
      (adlLoop remaining report ranked).deficitRemaining.val =
        remaining.val - haircutSum (adlRecords remaining ranked) := by
  induction ranked generalizing remaining report with
  | nil => simp [adlLoop, adlRecords, haircutSum]
  | cons candidate rest ih =>
      rw [adlLoop, adlRecords]
      split_ifs with hnone
      · simp [haircutSum]
      · have hfirst := hgross candidate (by simp)
        have hopen := adlRecord_open (not_le.1 hnone) hfirst
        have hhaircut := adlRecord_haircut remaining candidate
        have htaken : (report.deficitAbsorbed.saturatingAdd
            (adlRecord remaining candidate).haircut).val =
              report.deficitAbsorbed.val + (adlRecord remaining candidate).haircut.val := by
          have hupper := hrange.2
          exact I64.saturatingAdd_val_of_inI64 ⟨by omega, by omega⟩
        have hmoved : (report.deficitAbsorbed.saturatingAdd
            (adlRecord remaining candidate).haircut).val +
              (remaining.saturatingSub (adlRecord remaining candidate).haircut).val =
                report.deficitAbsorbed.val + remaining.val := by
          rw [hopen, htaken]
          ring
        obtain ⟨habsorbed', hremaining'⟩ :=
          ih (fun other hother => hgross other (by simp [hother]))
            (remaining.saturatingSub (adlRecord remaining candidate).haircut)
            { report with
              records := report.records ++ [adlRecord remaining candidate]
              deficitAbsorbed := report.deficitAbsorbed.saturatingAdd
                (adlRecord remaining candidate).haircut }
            (by simp only [htaken]; omega) (by simpa only [hmoved] using hrange)
        simp only [habsorbed', hremaining', htaken, hopen, haircutSum_cons]
        exact ⟨add_assoc _ _ _, sub_sub _ _ _⟩

/-- If the haircuts do not reach the deficit, every candidate lost its whole profit. -/
theorem adlRecords_exhausted (hgross : ∀ candidate ∈ ranked, 0 < candidate.pnlGross.val)
    {deficit : I64} (hopen : haircutSum (adlRecords deficit ranked) < deficit.val) :
    List.Forall₂ (fun record candidate =>
      record.IsFor candidate ∧ record.haircut = candidate.pnlGross)
        (adlRecords deficit ranked) ranked := by
  have hfor := adlRecords_isFor hgross deficit
  have hwhole : ∀ record ∈ adlRecords deficit ranked,
      record.haircut.val = record.pnlGross.val := fun _ hrecord =>
    (adlRecords_fills hgross deficit).given_eq_supply hopen hrecord
  have hprofits : (adlRecords deficit ranked).map (fun record => record.haircut.val) =
      (reached deficit.val ranked).map fun candidate => candidate.pnlGross.val := by
    rw [List.map_congr_left hwhole, ← List.forall₂_eq_eq_eq, List.forall₂_map_left_iff,
      List.forall₂_map_right_iff]
    exact hfor.imp fun _ _ hrecord => congrArg I64.val hrecord.pnlGross
  have hall : reached deficit.val ranked = ranked := by
    rcases (reached_shortestCover deficit.val ranked).covers with hcovers | hall
    · rw [← hprofits] at hcovers
      exact absurd hcovers (not_le.2 hopen)
    · exact hall
  rw [hall] at hfor
  have hboth := (List.forall₂_and_left _ _).2 ⟨hwhole, hfor⟩
  exact hboth.imp fun _ _ ⟨hequal, hrecord⟩ =>
    ⟨hrecord, I64.ext (hequal.trans (congrArg I64.val hrecord.pnlGross))⟩

/-- Any report with the records and the totals of the loop meets the specification. -/
theorem AdlReport.absorbs_of_records
    (hgross : ∀ candidate ∈ ranked, 0 < candidate.pnlGross.val) {deficit : I64}
    {report : AdlReport} (hrecords : report.records = adlRecords deficit ranked)
    (habsorbed : report.deficitAbsorbed.val = haircutSum report.records)
    (hremaining : report.deficitRemaining.val = deficit.val - haircutSum report.records) :
    report.Absorbs ranked deficit.val := by
  have hfills := adlRecords_fills hgross deficit
  have hfor := adlRecords_isFor hgross deficit
  constructor
  case closes =>
      rw [hrecords]
      exact ⟨_, reached_shortestCover deficit.val ranked, hfor⟩
  case haircut_eq =>
      intro before record after hsplit
      rw [← hrecords, hsplit] at hfills
      exact hfills.given_eq
  case haircut_bounds =>
      intro record hrecord
      exact adlRecords_haircut_bounds hgross (hrecords ▸ hrecord)
  case pnlPaid_eq =>
      intro record hrecord
      exact adlRecords_pnlPaid hgross (hrecords ▸ hrecord)
  case paid_last =>
      intro before record after hsplit hpaying
      have hmem : record ∈ adlRecords deficit ranked := by
        rw [← hrecords, hsplit]
        simp
      have hpaid := adlRecords_pnlPaid hgross hmem
      rw [← hrecords, hsplit] at hfills
      exact hfills.eq_nil_of_lt (by omega)
  case absorbed_eq => exact habsorbed
  case total_eq =>
      rw [habsorbed, hremaining]
      exact add_sub_cancel _ _
  case exhausted =>
      intro hopen
      rw [hremaining, sub_pos, hrecords] at hopen
      rw [hrecords]
      exact adlRecords_exhausted hgross hopen

theorem adlLoop_absorbs (hgross : ∀ candidate ∈ ranked, 0 < candidate.pnlGross.val)
    (deficit : I64) :
    (adlLoop deficit { records := [], deficitAbsorbed := 0, deficitRemaining := 0 }
      ranked).Absorbs ranked deficit.val := by
  have hrecords := adlLoop_records deficit
    { records := [], deficitAbsorbed := 0, deficitRemaining := 0 } ranked
  rw [List.nil_append] at hrecords
  obtain ⟨habsorbed, hremaining⟩ := adlLoop_totals hgross deficit
    { records := [], deficitAbsorbed := 0, deficitRemaining := 0 } le_rfl
    (by simpa using deficit.inI64)
  rw [← hrecords] at habsorbed hremaining
  have hzero : (0 : I64).val = 0 := rfl
  rw [hzero, zero_add] at habsorbed
  exact AdlReport.absorbs_of_records hgross hrecords habsorbed hremaining

end Loop

/-- For every list of candidates, mark and deficit: without a deficit nothing happens;
otherwise the eligible candidates, best score first and smaller account first among
equals, are closed until their profits cover the deficit. -/
theorem executeAdl_absorbs (candidates : List AccountSnapshot) (mark : MarkPrice)
    (deficit : I64) :
    (deficit.val ≤ 0 → executeAdl candidates mark deficit =
      { records := [], deficitAbsorbed := 0, deficitRemaining := 0 }) ∧
    (0 < deficit.val → ∃ ranked,
      ranked.Perm (candidates.filterMap (adlCandidate? mark)) ∧
      ranked.Pairwise AdlCandidate.RanksBefore ∧
      (executeAdl candidates mark deficit).Absorbs ranked deficit.val) := by
  constructor
  · intro hnone
    rw [executeAdl, if_pos hnone]
  · intro hdeficit
    refine ⟨rankedCandidates candidates mark, rankedCandidates_perm candidates mark,
      List.pairwise_insertionSort _ _, ?_⟩
    rw [executeAdl, if_neg (not_le.2 hdeficit)]
    exact adlLoop_absorbs (rankedCandidates_gross candidates mark) deficit

end OpenHl.Liquidation
