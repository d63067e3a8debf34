import Mathlib.Algebra.BigOperators.Group.List.Basic
import Mathlib.Algebra.Order.Group.Defs
import Mathlib.Algebra.Order.Group.Unbundled.Basic
import Mathlib.Data.List.Infix

/-!
# Meeting a demand from sources in order

Sources are drawn on front to back.  `ShortestCover` says which of them are needed,
`Fills` what each of them gives: the lesser of what it holds and what is still wanted.
-/

namespace Waterfall

variable {α G : Type*} [AddCommGroup G] [LinearOrder G]

/-- The shortest front part of the sources that covers the demand, or all of them. -/
structure ShortestCover (supply : α → G) (demand : G) (sources used : List α) : Prop where
  front : used <+: sources
  short : ∀ fewer, fewer <+: used → fewer ≠ used → (fewer.map supply).sum < demand
  covers : demand ≤ (used.map supply).sum ∨ used = sources

namespace ShortestCover

variable {supply : α → G} {demand : G}

theorem nil : ShortestCover supply demand [] [] where
  front := List.prefix_rfl
  short _ hfewer hne := absurd (List.prefix_nil.1 hfewer) hne
  covers := .inr rfl

theorem of_nonpos (hdemand : demand ≤ 0) (sources : List α) :
    ShortestCover supply demand sources [] where
  front := List.nil_prefix
  short _ hfewer hne := absurd (List.prefix_nil.1 hfewer) hne
  covers := .inl hdemand

theorem cons [IsOrderedAddMonoid G] {source : α} {rest used : List α}
    (hdemand : 0 < demand)
    (hrest : ShortestCover supply (demand - supply source) rest used) :
    ShortestCover supply demand (source :: rest) (source :: used) where
  front := List.cons_prefix_cons.2 ⟨rfl, hrest.front⟩
  short fewer hfewer hne := by
    cases fewer with
    | nil => simpa using hdemand
    | cons first others =>
        obtain ⟨rfl, hothers⟩ := List.cons_prefix_cons.1 hfewer
        have hless := hrest.short others hothers fun hequal => hne (by rw [hequal])
        rw [List.map_cons, List.sum_cons]
        exact lt_sub_iff_add_lt'.1 hless
  covers := by
    rcases hrest.covers with hcovers | rfl
    · left
      rw [List.map_cons, List.sum_cons]
      exact sub_le_iff_le_add'.1 hcovers
    · exact .inr rfl

end ShortestCover

/-- Each entry gives what it can of what is still wanted, and there is no entry once
nothing is wanted. -/
def Fills (supply given : α → G) : G → List α → Prop
  | _, [] => True
  | wanted, entry :: rest =>
      0 < wanted ∧ given entry = min wanted (supply entry) ∧
        Fills supply given (wanted - given entry) rest

namespace Fills

variable {supply given : α → G} {wanted : G} {entries before after : List α} {entry : α}

theorem drop (hfills : Fills supply given wanted (before ++ after)) :
    Fills supply given (wanted - (before.map given).sum) after := by
  induction before generalizing wanted with
  | nil => simpa using hfills
  | cons first rest ih =>
      have hrest := ih hfills.2.2
      rw [List.map_cons, List.sum_cons, ← sub_sub]
      exact hrest

theorem given_eq (hfills : Fills supply given wanted (before ++ entry :: after)) :
    given entry = min (wanted - (before.map given).sum) (supply entry) :=
  hfills.drop.2.1

theorem given_le (hfills : Fills supply given wanted (before ++ entry :: after)) :
    given entry ≤ supply entry := by
  rw [hfills.given_eq]
  exact min_le_right _ _

/-- An entry that keeps something gave all that was still wanted. -/
theorem given_eq_of_lt (hfills : Fills supply given wanted (before ++ entry :: after))
    (hless : given entry < supply entry) :
    given entry = wanted - (before.map given).sum := by
  rw [hfills.given_eq, min_lt_iff] at hless
  rw [hfills.given_eq]
  exact min_eq_left (hless.resolve_right (lt_irrefl _)).le

/-- An entry that keeps something is the last one. -/
theorem eq_nil_of_lt (hfills : Fills supply given wanted (before ++ entry :: after))
    (hless : given entry < supply entry) : after = [] := by
  have hrest := hfills.drop.2.2
  rw [← hfills.given_eq_of_lt hless, sub_self] at hrest
  cases after with
  | nil => rfl
  | cons next others => exact absurd hrest.1 (lt_irrefl 0)

/-- If something is still wanted in the end, every entry gave all it had. -/
theorem given_eq_supply (hfills : Fills supply given wanted entries)
    (hopen : (entries.map given).sum < wanted) (hmem : entry ∈ entries) :
    given entry = supply entry := by
  obtain ⟨before, after, rfl⟩ := List.append_of_mem hmem
  apply hfills.given_le.antisymm
  by_contra hless
  rw [not_le] at hless
  obtain rfl := hfills.eq_nil_of_lt hless
  have hsum : ((before ++ [entry]).map given).sum = wanted := by
    rw [List.map_append, List.sum_append, List.map_singleton, List.sum_singleton,
      hfills.given_eq_of_lt hless, add_sub_cancel]
  exact hopen.ne hsum

/-- No more is given than was wanted. -/
theorem sum_given_le [IsOrderedAddMonoid G] (hfills : Fills supply given wanted entries)
    (hwanted : 0 ≤ wanted) : (entries.map given).sum ≤ wanted := by
  induction entries generalizing wanted with
  | nil => exact hwanted
  | cons entry rest ih =>
      obtain ⟨-, hgiven, hrest⟩ := hfills
      have hleft : 0 ≤ wanted - given entry := by
        rw [sub_nonneg, hgiven]
        exact min_le_left _ _
      rw [List.map_cons, List.sum_cons]
      exact le_sub_iff_add_le'.1 (ih hrest hleft)

end Fills

end Waterfall
