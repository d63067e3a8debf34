import OpenHl.Core.SortedMap

/-!
# Items under increasing numbers

A hash map into which every item goes under the next number holds a list: the item of a
number is the item at that position.  A search over the values visits them in the order in
which the hash map is iterated, of which nothing is known but that it visits each entry
once; so a search finds an item exactly if the list has one, but not which.
-/

namespace Numbered

universe u

variable {A : Type u}

/-- The map has the items of the list under their positions. -/
def Holds (items : SortedMap ℕ A) (list : List A) : Prop :=
  ∀ number, items.get? number = list[number]?

/-- An order in which hash maps are iterated. -/
structure Iteration (A : Type u) where
  order : SortedMap ℕ A → List A
  perm : ∀ items, (order items).Perm items.values

/-- The order of the numbers. -/
def Iteration.ascending : Iteration A := ⟨SortedMap.values, fun _ => List.Perm.refl _⟩

theorem mem_values_iff {items : SortedMap ℕ A} {item : A} :
    item ∈ items.values ↔ ∃ number, items.get? number = some item := by
  rw [SortedMap.values, List.mem_map]
  constructor
  · rintro ⟨⟨number, other⟩, hmem, rfl⟩
    exact ⟨number, (items.get?_eq_some_iff).2 hmem⟩
  · rintro ⟨number, hget⟩
    exact ⟨(number, item), (items.get?_eq_some_iff).1 hget, rfl⟩

theorem Holds.empty : Holds (SortedMap.empty : SortedMap ℕ A) [] := fun _ => rfl

/-- The next item goes to the end of the list. -/
theorem Holds.insert {items : SortedMap ℕ A} {list : List A} (hholds : Holds items list)
    (item : A) : Holds (items.insert list.length item) (list ++ [item]) := by
  intro number
  rw [SortedMap.get?_insert]
  split_ifs with hnumber
  · rw [hnumber, List.getElem?_concat_length]
  · rw [hholds number]
    rcases lt_or_gt_of_ne hnumber with hlt | hgt
    · rw [List.getElem?_append_left hlt]
    · rw [List.getElem?_eq_none hgt.le,
        List.getElem?_eq_none (by rw [List.length_append, List.length_singleton]; omega)]

theorem Holds.mem_iff {items : SortedMap ℕ A} {list : List A} (hholds : Holds items list)
    {item : A} : (∃ number, items.get? number = some item) ↔ item ∈ list := by
  rw [List.mem_iff_getElem?]
  exact exists_congr fun number => by rw [hholds number]

/-- The values in the order of their numbers are the list. -/
theorem Holds.values_eq {items : SortedMap ℕ A} {list : List A}
    (hholds : Holds items list) : items.values = list := by
  have hkeys : items.entries.map Prod.fst = List.range list.length := by
    refine List.Perm.eq_of_pairwise ?_ items.sorted List.pairwise_lt_range ?_
    · intro first second _ _ hlt hgt
      exact absurd hlt hgt.asymm
    · refine (List.perm_ext_iff_of_nodup (items.sorted.imp ne_of_lt) List.nodup_range).2 ?_
      intro number
      rw [List.mem_range]
      constructor
      · intro hmem
        obtain ⟨⟨other, item⟩, hentry, rfl⟩ := List.mem_map.1 hmem
        have hget := (items.get?_eq_some_iff).2 hentry
        rw [hholds other] at hget
        exact (List.getElem?_eq_some_iff.1 hget).1
      · intro hlt
        have hget := hholds number
        rw [List.getElem?_eq_getElem hlt] at hget
        exact List.mem_map.2 ⟨_, (items.get?_eq_some_iff).1 hget, rfl⟩
  have hlength : items.entries.length = list.length := by
    rw [← List.length_map Prod.fst, hkeys, List.length_range]
  refine List.ext_getElem? fun number => ?_
  rw [← hholds number, SortedMap.values, List.getElem?_map]
  rcases lt_or_ge number items.entries.length with hlt | hge
  · have hkey : items.entries[number].1 = number := by
      have hindex := congrArg (fun keys => keys[number]?) hkeys
      simpa [hlt, hlength ▸ hlt] using hindex
    rw [List.getElem?_eq_getElem hlt, Option.map_some, eq_comm, items.get?_eq_some_iff]
    nth_rewrite 1 [← hkey]
    exact List.getElem_mem hlt
  · rw [List.getElem?_eq_none hge, hholds number, List.getElem?_eq_none (hlength ▸ hge)]
    rfl

/-- What a search finds is an item of the list with the property. -/
theorem Iteration.find?_eq_some (iteration : Iteration A) {items : SortedMap ℕ A}
    {list : List A} (hholds : Holds items list) {holds : A → Bool} {item : A}
    (hfind : (iteration.order items).find? holds = some item) :
    item ∈ list ∧ holds item = true := by
  have hmem := (iteration.perm items).mem_iff.1 (List.mem_of_find?_eq_some hfind)
  exact ⟨hholds.mem_iff.1 (mem_values_iff.1 hmem), List.find?_some hfind⟩

/-- A search finds nothing exactly if no item of the list has the property. -/
theorem Iteration.find?_eq_none_iff (iteration : Iteration A) {items : SortedMap ℕ A}
    {list : List A} (hholds : Holds items list) {holds : A → Bool} :
    (iteration.order items).find? holds = none ↔ ∀ item ∈ list, holds item = false := by
  rw [List.find?_eq_none]
  constructor
  · intro hnone item hmem
    have hvalue := mem_values_iff.2 (hholds.mem_iff.2 hmem)
    simpa using hnone item ((iteration.perm items).mem_iff.2 hvalue)
  · intro hnone item hmem
    have hvalue := mem_values_iff.1 ((iteration.perm items).mem_iff.1 hmem)
    simpa using hnone item (hholds.mem_iff.1 hvalue)

/-- The items have the numbers below the next one. -/
structure Dense (items : SortedMap ℕ A) (next : ℕ) : Prop where
  holds : Holds items items.values
  length : items.values.length = next

theorem Dense.empty : Dense (SortedMap.empty : SortedMap ℕ A) 0 := ⟨Holds.empty, rfl⟩

theorem Dense.values_insert {items : SortedMap ℕ A} {next : ℕ} (hdense : Dense items next)
    (item : A) : (items.insert next item).values = items.values ++ [item] := by
  rw [← hdense.length]
  exact (hdense.holds.insert item).values_eq

theorem Dense.insert {items : SortedMap ℕ A} {next : ℕ} (hdense : Dense items next)
    (item : A) : Dense (items.insert next item) (next + 1) := by
  have hvalues := hdense.values_insert item
  constructor
  · rw [hvalues, ← hdense.length]
    exact hdense.holds.insert item
  · rw [hvalues, List.length_append, hdense.length]
    rfl

end Numbered
