import OpenHl.Core.Machine

/-!
# Greedy allocation over a list

An amount is taken from the sources of a list, front to back: each source
gives the lesser of what it holds and what is still wanted.  `allocate` lists
what each source gave, `residual` is the list of sources afterwards (a source
that gave everything it had is gone) and `leftover` is what no source could
give.  What a source holds is read by `qtyOf` and written by `withQty`.

An amount can be taken in two goes: what the second go finds is what the first
one left (`inTwoGoes`).
-/

namespace Greedy

open Machine

universe u v

variable {α : Type u} {β : Type v}

def allocate (qtyOf : α → U64) : U64 → List α → List (α × U64)
  | _, [] => []
  | wanted, source :: rest =>
      if wanted = 0 then []
      else
        let given := min (qtyOf source) wanted
        (source, given) :: allocate qtyOf (wanted - given) rest

def residual (qtyOf : α → U64) (withQty : α → U64 → α) :
    U64 → List α → List α
  | _, [] => []
  | wanted, source :: rest =>
      if wanted = 0 then source :: rest
      else
        let given := min (qtyOf source) wanted
        let held := qtyOf source - given
        (if held = 0 then [] else [withQty source held]) ++
          residual qtyOf withQty (wanted - given) rest

def leftover (qtyOf : α → U64) : U64 → List α → U64
  | wanted, [] => wanted
  | wanted, source :: rest =>
      leftover qtyOf (wanted - min (qtyOf source) wanted) rest

section Zero

variable (qtyOf : α → U64) (withQty : α → U64 → α)

@[simp]
theorem allocate_zero (sources : List α) : allocate qtyOf 0 sources = [] := by
  cases sources <;> simp [allocate]

@[simp]
theorem residual_zero (sources : List α) :
    residual qtyOf withQty 0 sources = sources := by
  cases sources <;> simp [residual]

@[simp]
theorem leftover_zero (sources : List α) : leftover qtyOf 0 sources = 0 := by
  induction sources with
  | nil => rfl
  | cons source rest ih => simpa [leftover] using ih

end Zero

/-! ## Totals -/

variable {qtyOf : α → U64} {withQty : α → U64 → α}

/-- What was wanted is what was given plus what is left over. -/
theorem sum_allocate_add_leftover (qtyOf : α → U64) (wanted : U64)
    (sources : List α) :
    ((allocate qtyOf wanted sources).map fun given => (given.2 : ℕ)).sum +
      leftover qtyOf wanted sources = wanted := by
  induction sources generalizing wanted with
  | nil => simp [allocate, leftover]
  | cons source rest ih =>
      by_cases hwanted : wanted = 0
      · simp [hwanted]
      · have hrest := ih (wanted - min (qtyOf source) wanted)
        rw [U64.val_sub_min_right] at hrest
        simp only [allocate, hwanted, if_false, leftover, List.map_cons,
          List.sum_cons, Fin.coe_min]
        omega

/-- What the sources held is what they gave plus what they still hold. -/
theorem sum_allocate_add_residual (qtyOf : α → U64) (withQty : α → U64 → α)
    (hqty : ∀ source held, qtyOf (withQty source held) = held)
    (wanted : U64) (sources : List α) :
    ((allocate qtyOf wanted sources).map fun given => (given.2 : ℕ)).sum +
        ((residual qtyOf withQty wanted sources).map
          fun source => (qtyOf source : ℕ)).sum =
      (sources.map fun source => (qtyOf source : ℕ)).sum := by
  induction sources generalizing wanted with
  | nil => simp [allocate, residual]
  | cons source rest ih =>
      by_cases hwanted : wanted = 0
      · simp [hwanted]
      · have hrest := ih (wanted - min (qtyOf source) wanted)
        have hheld := U64.val_sub_min_left (qtyOf source) wanted
        simp only [allocate, residual, hwanted, if_false, List.map_cons,
          List.sum_cons, List.map_append, List.sum_append, Fin.coe_min]
        split_ifs with hzero
        · rw [U64.eq_zero_iff_val, hheld] at hzero
          simp only [List.map_nil, List.sum_nil]
          omega
        · simp only [List.map_cons, List.map_nil, List.sum_cons, List.sum_nil,
            hqty, hheld]
          omega

/-- A group of sources that the quantity held does not decide holds no more than
before. -/
theorem sum_filter_residual_le (keep : α → Bool)
    (hqty : ∀ source held, qtyOf (withQty source held) = held)
    (hkeep : ∀ source held, keep (withQty source held) = keep source)
    (wanted : U64) (sources : List α) :
    (((residual qtyOf withQty wanted sources).filter keep).map
        fun source => (qtyOf source : ℕ)).sum ≤
      ((sources.filter keep).map fun source => (qtyOf source : ℕ)).sum := by
  induction sources generalizing wanted with
  | nil => exact le_refl _
  | cons source rest ih =>
      by_cases hwanted : wanted = 0
      · rw [hwanted, residual_zero]
      · have hrest := ih (wanted - min (qtyOf source) wanted)
        have hheld := U64.val_sub_min_left (qtyOf source) wanted
        simp only [residual, hwanted, if_false, List.filter_append, List.map_append,
          List.sum_append]
        have hhead : (((if qtyOf source - min (qtyOf source) wanted = 0 then []
            else [withQty source (qtyOf source - min (qtyOf source) wanted)]).filter
              keep).map fun source => (qtyOf source : ℕ)).sum ≤
            (([source].filter keep).map fun source => (qtyOf source : ℕ)).sum := by
          split_ifs with hzero
          · exact Nat.zero_le _
          · cases hkept : keep source with
            | false => simp [hkeep, hkept]
            | true =>
                simp only [hkeep, hkept, List.filter_cons_of_pos, List.filter_nil,
                  List.map_cons, List.map_nil, List.sum_cons, List.sum_nil, hqty, hheld]
                omega
        calc _ ≤ (([source].filter keep).map fun source => (qtyOf source : ℕ)).sum +
              ((rest.filter keep).map fun source => (qtyOf source : ℕ)).sum :=
            Nat.add_le_add hhead hrest
          _ = ((([source] ++ rest).filter keep).map
              fun source => (qtyOf source : ℕ)).sum := by
            rw [List.filter_append, List.map_append, List.sum_append]

/-! ## The sources afterwards -/

/-- A source that is still there is unchanged or holds a positive rest of what
it held. -/
theorem mem_residual {wanted : U64} {sources : List α} {source : α}
    (hmem : source ∈ residual qtyOf withQty wanted sources) :
    source ∈ sources ∨
      ∃ before ∈ sources, ∃ held, held ≠ 0 ∧ source = withQty before held := by
  induction sources generalizing wanted with
  | nil => simp [residual] at hmem
  | cons first rest ih =>
      by_cases hwanted : wanted = 0
      · left
        simpa [hwanted] using hmem
      · simp only [residual, hwanted, if_false, List.mem_append] at hmem
        rcases hmem with hfirst | hrest
        · split_ifs at hfirst with hzero
          · exact absurd hfirst List.not_mem_nil
          · right
            exact ⟨first, by simp, _, hzero, by simpa using hfirst⟩
        · rcases ih hrest with hmem | ⟨before, hbefore, hheld⟩
          · exact Or.inl (by simp [hmem])
          · exact Or.inr ⟨before, by simp [hbefore], hheld⟩

/-- If something is left over, every source was emptied. -/
theorem residual_eq_nil_of_leftover {wanted : U64} {sources : List α}
    (hleft : leftover qtyOf wanted sources ≠ 0) :
    residual qtyOf withQty wanted sources = [] := by
  induction sources generalizing wanted with
  | nil => rfl
  | cons source rest ih =>
      have hwanted : wanted ≠ 0 := by
        rintro rfl
        exact hleft (leftover_zero qtyOf _)
      have hheld : qtyOf source - min (qtyOf source) wanted = 0 := by
        by_contra hne
        rw [U64.eq_zero_iff_val, U64.val_sub_min_left] at hne
        have hnone : wanted - min (qtyOf source) wanted = 0 := by
          rw [U64.eq_zero_iff_val, U64.val_sub_min_right]
          omega
        apply hleft
        rw [leftover, hnone, leftover_zero]
      rw [leftover] at hleft
      simp [residual, hwanted, hheld, ih hleft]

/-- What does not depend on the quantity held is kept in order. -/
theorem residual_map_sublist (key : α → β)
    (hkey : ∀ source held, key (withQty source held) = key source)
    (wanted : U64) (sources : List α) :
    ((residual qtyOf withQty wanted sources).map key).Sublist
      (sources.map key) := by
  induction sources generalizing wanted with
  | nil => exact List.Sublist.refl _
  | cons source rest ih =>
      by_cases hwanted : wanted = 0
      · simp [hwanted]
      · have hrest := ih (wanted - min (qtyOf source) wanted)
        simp only [residual, hwanted, if_false, List.map_append, List.map_cons]
        split_ifs with hzero
        · exact hrest.cons (key source)
        · simpa [hkey] using hrest.cons_cons (key source)

/-! ## Taking an amount in two goes -/

/-- Entries in two lists instead of one: `first` and then `second` are `whole`,
but one entry of `whole` may be the end of `first` and the head of `second`,
with its amount divided between them. -/
inductive Split : List (β × ℕ) → List (β × ℕ) → List (β × ℕ) → Prop
  | nil (second : List (β × ℕ)) : Split second [] second
  | cut (item : β) (left right : ℕ) (after : List (β × ℕ)) :
      Split ((item, left + right) :: after) [(item, left)]
        ((item, right) :: after)
  | cons (entry : β × ℕ) {whole first second : List (β × ℕ)}
      (htail : Split whole first second) :
      Split (entry :: whole) (entry :: first) second

theorem Split.self (list : List (β × ℕ)) : Split list list [] := by
  induction list with
  | nil => exact Split.nil []
  | cons entry entries ih => exact Split.cons entry ih

/-- The total amount under one item. -/
def amountOf [DecidableEq β] (item : β) : List (β × ℕ) → ℕ
  | [] => 0
  | entry :: entries =>
      (if entry.1 = item then entry.2 else 0) + amountOf item entries

theorem Split.amountOf_add [DecidableEq β] {whole first second : List (β × ℕ)}
    (hsplit : Split whole first second) (item : β) :
    amountOf item first + amountOf item second = amountOf item whole := by
  induction hsplit with
  | nil second => simp [amountOf]
  | cut cutItem left right after =>
      simp only [amountOf]
      split_ifs <;> omega
  | cons entry htail ih =>
      simp only [amountOf]
      omega

section Step

variable {wanted : U64} {source : α} {rest : List α}

/-- A source that holds no more than what is wanted gives it all. -/
theorem allocate_cons_of_le (hwanted : wanted ≠ 0) (hle : qtyOf source ≤ wanted) :
    allocate qtyOf wanted (source :: rest) =
      (source, qtyOf source) :: allocate qtyOf (wanted - qtyOf source) rest := by
  simp [allocate, hwanted, min_eq_left hle]

theorem residual_cons_of_le (hwanted : wanted ≠ 0) (hle : qtyOf source ≤ wanted) :
    residual qtyOf withQty wanted (source :: rest) =
      residual qtyOf withQty (wanted - qtyOf source) rest := by
  simp [residual, hwanted, min_eq_left hle]

theorem leftover_cons_of_le (hle : qtyOf source ≤ wanted) :
    leftover qtyOf wanted (source :: rest) =
      leftover qtyOf (wanted - qtyOf source) rest := by
  rw [leftover, min_eq_left hle]

/-- A source that holds more than what is wanted ends the allocation. -/
theorem allocate_cons_of_lt (hwanted : wanted ≠ 0) (hlt : wanted < qtyOf source) :
    allocate qtyOf wanted (source :: rest) = [(source, wanted)] := by
  simp [allocate, hwanted, min_eq_right hlt.le]

theorem residual_cons_of_lt (hwanted : wanted ≠ 0) (hlt : wanted < qtyOf source) :
    residual qtyOf withQty wanted (source :: rest) =
      withQty source (qtyOf source - wanted) :: rest := by
  have hheld : qtyOf source - wanted ≠ 0 := sub_ne_zero.2 hlt.ne'
  simp [residual, hwanted, min_eq_right hlt.le, hheld]

theorem leftover_cons_of_lt (hlt : wanted < qtyOf source) :
    leftover qtyOf wanted (source :: rest) = 0 := by
  simp [leftover, min_eq_right hlt.le]

end Step

/-- What each source gave, named by `key`. -/
def grants (key : α → β) (given : List (α × U64)) : List (β × ℕ) :=
  given.map fun grant => (key grant.1, (grant.2 : ℕ))

/-- Taking `whole` compared with taking `first` and then, from what is left,
`second`. -/
structure InTwoGoes (qtyOf : α → U64) (withQty : α → U64 → α) (key : α → β)
    (whole first second : U64) (sources : List α) : Prop where
  split : Split (grants key (allocate qtyOf whole sources))
    (grants key (allocate qtyOf first sources))
    (grants key (allocate qtyOf second (residual qtyOf withQty first sources)))
  residual_residual :
    residual qtyOf withQty second (residual qtyOf withQty first sources) =
      residual qtyOf withQty whole sources
  leftover_add : (leftover qtyOf first sources : ℕ) +
      leftover qtyOf second (residual qtyOf withQty first sources) =
    leftover qtyOf whole sources

namespace InTwoGoes

variable {key : α → β} {whole first second : U64} {source : α} {rest : List α}

theorem zero_left (key : α → β) (whole : U64) (sources : List α) :
    InTwoGoes qtyOf withQty key whole 0 whole sources where
  split := by
    rw [residual_zero, allocate_zero]
    exact Split.nil _
  residual_residual := by rw [residual_zero]
  leftover_add := by simp

theorem zero_right (key : α → β) (whole : U64) (sources : List α) :
    InTwoGoes qtyOf withQty key whole whole 0 sources where
  split := by
    rw [allocate_zero]
    exact Split.self _
  residual_residual := by rw [residual_zero]
  leftover_add := by simp

/-- The first go empties the source in front. -/
theorem emptied (hfirst : first ≠ 0) (hwhole : (whole : ℕ) = first + second)
    (hle : qtyOf source ≤ first)
    (hrest : InTwoGoes qtyOf withQty key (whole - qtyOf source)
      (first - qtyOf source) second rest) :
    InTwoGoes qtyOf withQty key whole first second (source :: rest) := by
  have hleWhole : qtyOf source ≤ whole := by
    rw [Fin.le_def] at hle ⊢
    omega
  have hwanted : whole ≠ 0 := by
    rw [Ne, U64.eq_zero_iff_val] at hfirst ⊢
    omega
  constructor
  · rw [allocate_cons_of_le hwanted hleWhole, allocate_cons_of_le hfirst hle,
      residual_cons_of_le hfirst hle]
    exact Split.cons _ hrest.split
  · rw [residual_cons_of_le hfirst hle, residual_cons_of_le hwanted hleWhole]
    exact hrest.residual_residual
  · rw [residual_cons_of_le hfirst hle, leftover_cons_of_le hle,
      leftover_cons_of_le hleWhole]
    exact hrest.leftover_add

section Cut

variable (hqty : ∀ source held, qtyOf (withQty source held) = held)
  (hkey : ∀ source held, key (withQty source held) = key source)

include hqty hkey

/-- The first go ends inside the source in front and the second empties it. -/
theorem cut_emptied (hfirst : first ≠ 0) (hsecond : second ≠ 0)
    (hwhole : (whole : ℕ) = first + second) (hlt : first < qtyOf source)
    (hle : qtyOf source ≤ whole) :
    InTwoGoes qtyOf withQty key whole first second (source :: rest) := by
  set held := qtyOf source - first with hheld
  have hval : (held : ℕ) = qtyOf source - first := U64.val_sub_of_le hlt.le
  have hltVal : (first : ℕ) < qtyOf source := hlt
  have hleVal : (qtyOf source : ℕ) ≤ whole := hle
  have hwanted : whole ≠ 0 := by
    rw [Ne, U64.eq_zero_iff_val] at hfirst ⊢
    omega
  have hleHeld : qtyOf (withQty source held) ≤ second := by
    rw [hqty, Fin.le_def]
    omega
  -- the second go wants as much of the other sources as the whole
  have hother : second - held = whole - qtyOf source := by
    apply Fin.ext
    rw [U64.val_sub_of_le (hqty source held ▸ hleHeld), U64.val_sub_of_le hle]
    omega
  have hsum : (qtyOf source : ℕ) = first + held := by omega
  constructor
  · rw [residual_cons_of_lt hfirst hlt, allocate_cons_of_lt hfirst hlt,
      allocate_cons_of_le hwanted hle, ← hheld, allocate_cons_of_le hsecond hleHeld]
    simp only [grants, List.map_cons, List.map_nil, hqty, hkey, hother, hsum]
    exact Split.cut _ _ _ _
  · rw [residual_cons_of_lt hfirst hlt, ← hheld, residual_cons_of_le hsecond hleHeld,
      residual_cons_of_le hwanted hle, hqty, hother]
  · rw [residual_cons_of_lt hfirst hlt, ← hheld, leftover_cons_of_lt hlt,
      leftover_cons_of_le hleHeld, leftover_cons_of_le hle, hqty, hother]
    simp

/-- Both goes end inside the source in front. -/
theorem cut_kept
    (hwith : ∀ source held later,
      withQty (withQty source held) later = withQty source later)
    (hfirst : first ≠ 0) (hsecond : second ≠ 0)
    (hwhole : (whole : ℕ) = first + second) (hlt : whole < qtyOf source) :
    InTwoGoes qtyOf withQty key whole first second (source :: rest) := by
  have hltVal : (whole : ℕ) < qtyOf source := hlt
  have hltFirst : first < qtyOf source := by
    rw [Fin.lt_def]
    omega
  set held := qtyOf source - first with hheld
  have hval : (held : ℕ) = qtyOf source - first := U64.val_sub_of_le hltFirst.le
  have hwanted : whole ≠ 0 := by
    rw [Ne, U64.eq_zero_iff_val] at hfirst ⊢
    omega
  have hltHeld : second < qtyOf (withQty source held) := by
    rw [hqty, Fin.lt_def]
    omega
  have hkept : held - second = qtyOf source - whole := by
    apply Fin.ext
    rw [U64.val_sub_of_le (hqty source held ▸ hltHeld.le), U64.val_sub_of_le hlt.le]
    omega
  constructor
  · rw [residual_cons_of_lt hfirst hltFirst, allocate_cons_of_lt hfirst hltFirst,
      allocate_cons_of_lt hwanted hlt, ← hheld, allocate_cons_of_lt hsecond hltHeld]
    simp only [grants, List.map_cons, List.map_nil, hkey, hwhole]
    exact Split.cut _ _ _ _
  · rw [residual_cons_of_lt hfirst hltFirst, ← hheld,
      residual_cons_of_lt hsecond hltHeld, residual_cons_of_lt hwanted hlt, hqty,
      hwith, hkept]
  · rw [residual_cons_of_lt hfirst hltFirst, ← hheld, leftover_cons_of_lt hltFirst,
      leftover_cons_of_lt hltHeld, leftover_cons_of_lt hlt]
    simp

end Cut

end InTwoGoes

/-- Taking `whole` is taking `first` and then `second` from what is left: at
most one source gives its share in two parts. -/
theorem inTwoGoes {key : α → β}
    (hqty : ∀ source held, qtyOf (withQty source held) = held)
    (hwith : ∀ source held later,
      withQty (withQty source held) later = withQty source later)
    (hkey : ∀ source held, key (withQty source held) = key source)
    {whole first second : U64} (hwhole : (whole : ℕ) = first + second)
    (sources : List α) :
    InTwoGoes qtyOf withQty key whole first second sources := by
  induction sources generalizing whole first with
  | nil =>
      exact ⟨Split.nil [], rfl, by simpa [residual, leftover] using hwhole.symm⟩
  | cons source rest ih =>
      by_cases hfirst : first = 0
      · have hall : whole = second := Fin.ext (by simpa [hfirst] using hwhole)
        rw [hfirst, hall]
        exact InTwoGoes.zero_left key second _
      by_cases hsecond : second = 0
      · have hall : whole = first := Fin.ext (by simpa [hsecond] using hwhole)
        rw [hsecond, hall]
        exact InTwoGoes.zero_right key first _
      rcases le_or_gt (qtyOf source) first with hle | hlt
      · refine InTwoGoes.emptied hfirst hwhole hle (ih ?_)
        have hleVal : (qtyOf source : ℕ) ≤ first := hle
        have hleWhole : qtyOf source ≤ whole := by
          rw [Fin.le_def]
          omega
        rw [U64.val_sub_of_le hleWhole, U64.val_sub_of_le hle]
        omega
      · rcases le_or_gt (qtyOf source) whole with hle | hkept
        · exact InTwoGoes.cut_emptied hqty hkey hfirst hsecond hwhole hlt hle
        · exact InTwoGoes.cut_kept hqty hkey hwith hfirst hsecond hwhole hkept

/-! ## Changing the representation of the sources -/

section Map

variable (qtyOf : α → U64) (qtyOf' : β → U64)
  (withQty : α → U64 → α) (withQty' : β → U64 → β) (image : α → β)

theorem allocate_map (hqty : ∀ source, qtyOf' (image source) = qtyOf source)
    (wanted : U64) (sources : List α) :
    allocate qtyOf' wanted (sources.map image) =
      (allocate qtyOf wanted sources).map fun given =>
        (image given.1, given.2) := by
  induction sources generalizing wanted with
  | nil => rfl
  | cons source rest ih =>
      by_cases hwanted : wanted = 0
      · simp [hwanted]
      · simp [allocate, hwanted, hqty, ih]

theorem leftover_map (hqty : ∀ source, qtyOf' (image source) = qtyOf source)
    (wanted : U64) (sources : List α) :
    leftover qtyOf' wanted (sources.map image) =
      leftover qtyOf wanted sources := by
  induction sources generalizing wanted with
  | nil => rfl
  | cons source rest ih => simp [leftover, hqty, ih]

theorem residual_map (hqty : ∀ source, qtyOf' (image source) = qtyOf source)
    (hwith : ∀ source held,
      withQty' (image source) held = image (withQty source held))
    (wanted : U64) (sources : List α) :
    residual qtyOf' withQty' wanted (sources.map image) =
      (residual qtyOf withQty wanted sources).map image := by
  induction sources generalizing wanted with
  | nil => rfl
  | cons source rest ih =>
      by_cases hwanted : wanted = 0
      · simp [hwanted]
      · simp only [List.map_cons, residual, hwanted, if_false, hqty, hwith, ih,
          List.map_append]
        split_ifs <;> rfl

end Map

end Greedy
