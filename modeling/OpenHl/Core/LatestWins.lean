import OpenHl.Core.SortedMap

/-!
# Tables in which the latest record wins

A table keeps, for each key, a record with a stamp, and refuses a record that is
older than the stored one.  Which records are refused depends on the order of their
arrival.  What the table holds in the end does not, as long as no two records of one
key have the same stamp (`foldl_store_perm`).
-/

namespace LatestWins

variable {K R T : Type} [LinearOrder K] [LinearOrder T] (stamp : R → T)

/-- The record a key has after another one arrives. -/
def latest (prior : Option R) (record : R) : Option R :=
  if prior.any fun stored => stamp record < stamp stored then prior else some record

def store (table : SortedMap K R) (key : K) (record : R) : SortedMap K R :=
  if (table.get? key).any fun stored => stamp record < stamp stored then table
  else table.insert key record

variable {stamp}

theorem get?_store (table : SortedMap K R) (key other : K) (record : R) :
    (store stamp table key record).get? other =
      if other = key then latest stamp (table.get? key) record
      else table.get? other := by
  rw [store, latest]
  split_ifs with hrefused hother hother
  · rw [hother]
  · rfl
  · rw [SortedMap.get?_insert, if_pos hother]
  · rw [SortedMap.get?_insert, if_neg hother]

/-- Of two records the later one stays, whichever comes first. -/
theorem latest_latest_of_lt {older newer : R} (hlt : stamp older < stamp newer)
    (prior : Option R) :
    latest stamp (latest stamp prior older) newer =
      latest stamp (latest stamp prior newer) older := by
  cases prior with
  | none => simp [latest, hlt, hlt.not_gt]
  | some stored =>
      by_cases hnewer : stamp newer < stamp stored
      · have holder : stamp older < stamp stored := hlt.trans hnewer
        simp [latest, holder, hnewer]
      · by_cases holder : stamp older < stamp stored
        · simp [latest, holder, hnewer, hlt]
        · simp [latest, holder, hnewer, hlt, hlt.not_gt]

theorem latest_comm {first second : R} (hstamp : stamp first ≠ stamp second)
    (prior : Option R) :
    latest stamp (latest stamp prior first) second =
      latest stamp (latest stamp prior second) first := by
  rcases lt_or_gt_of_ne hstamp with hlt | hlt
  · exact latest_latest_of_lt hlt prior
  · exact (latest_latest_of_lt hlt prior).symm

theorem store_comm {key other : K} {first second : R}
    (hdistinct : (key, stamp first) ≠ (other, stamp second)) (table : SortedMap K R) :
    store stamp (store stamp table key first) other second =
      store stamp (store stamp table other second) key first := by
  apply SortedMap.ext_get?
  intro asked
  simp only [get?_store]
  by_cases hkeys : other = key
  · subst hkeys
    have hstamp : stamp first ≠ stamp second := by
      intro hsame
      exact hdistinct (by rw [hsame])
    by_cases hasked : asked = other
    · simp [hasked, latest_comm hstamp]
    · simp [hasked]
  · simp only [if_neg hkeys, if_neg (Ne.symm hkeys)]
    by_cases hasked : asked = other
    · subst hasked
      simp [hkeys]
    · simp [hasked]

/-- The table after some records does not depend on their order. -/
theorem foldl_store_perm {left right : List (K × R)} (hperm : left.Perm right)
    (hdistinct : (left.map fun entry => (entry.1, stamp entry.2)).Nodup)
    (table : SortedMap K R) :
    left.foldl (fun table entry => store stamp table entry.1 entry.2) table =
      right.foldl (fun table entry => store stamp table entry.1 entry.2) table := by
  apply hperm.foldl_eq'
  intro first hfirst second hsecond current
  by_cases hsame : (first.1, stamp first.2) = (second.1, stamp second.2)
  · rw [List.inj_on_of_nodup_map hdistinct hfirst hsecond hsame]
  · exact store_comm hsame current

end LatestWins
