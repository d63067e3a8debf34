import Mathlib

/-!
# Finite maps iterated in key order

A finite map is the list of its entries with strictly increasing keys, so two
maps with the same lookups are equal and iteration order is key order.  This
is the behaviour of an ordered tree map; an unordered map whose iteration
order is never observed is the same type.

The operations are the ones mutable map code uses: lookup, first key,
`upsert` (create or update one entry), `modify` (update an entry that
exists), `erase`, and `retain`, which visits all entries in key order with an
accumulator and may change or drop each of them.
-/

universe u v w

/-- Finite maps with strictly increasing keys. -/
@[ext]
structure SortedMap (K : Type u) (V : Type v) [LinearOrder K] where
  entries : List (K × V)
  sorted : (entries.map Prod.fst).Pairwise (· < ·)

namespace SortedMap

variable {K : Type u} {V : Type v} [LinearOrder K]

instance [DecidableEq V] : DecidableEq (SortedMap K V) := fun left right =>
  decidable_of_iff (left.entries = right.entries) SortedMap.ext_iff.symm

/-! ## Entry lists -/

/-- The value of the first entry with the given key. -/
def lookupEntries (key : K) : List (K × V) → Option V
  | [] => none
  | (other, value) :: rest =>
      if other = key then some value else lookupEntries key rest

/-- Update the entry with the given key, or create it in key order. -/
def upsertEntries (key : K) (update : Option V → V) :
    List (K × V) → List (K × V)
  | [] => [(key, update none)]
  | (other, value) :: rest =>
      if key < other then (key, update none) :: (other, value) :: rest
      else if key = other then (other, update (some value)) :: rest
      else (other, value) :: upsertEntries key update rest

/-- Visit entries in order; a visit returns the next accumulator and the value
to keep, or `none` to drop the entry. -/
def retainEntries {S : Type w} (visit : S → V → S × Option V) :
    S → List (K × V) → S × List (K × V)
  | state, [] => (state, [])
  | state, (key, value) :: rest =>
      let visited := visit state value
      let tail := retainEntries visit visited.1 rest
      (tail.1, (visited.2.map fun kept => (key, kept)).toList ++ tail.2)

theorem mem_keys_upsertEntries {key other : K} {update : Option V → V}
    {list : List (K × V)}
    (hmem : other ∈ (upsertEntries key update list).map Prod.fst) :
    other = key ∨ other ∈ list.map Prod.fst := by
  induction list with
  | nil => simpa [upsertEntries] using hmem
  | cons entry rest ih =>
      obtain ⟨head, value⟩ := entry
      rw [upsertEntries] at hmem
      split_ifs at hmem with hlt heq
      · simpa using hmem
      · right
        simpa using hmem
      · rw [List.map_cons, List.mem_cons] at hmem
        rcases hmem with hhead | htail
        · right
          simp [hhead]
        · rcases ih htail with hkey | hrest
          · exact Or.inl hkey
          · right
            rw [List.map_cons]
            exact List.mem_cons_of_mem _ hrest

theorem upsertEntries_sorted (key : K) (update : Option V → V)
    {list : List (K × V)} (hsorted : (list.map Prod.fst).Pairwise (· < ·)) :
    ((upsertEntries key update list).map Prod.fst).Pairwise (· < ·) := by
  induction list with
  | nil => simp [upsertEntries]
  | cons entry rest ih =>
      obtain ⟨head, value⟩ := entry
      rw [List.map_cons, List.pairwise_cons] at hsorted
      rw [upsertEntries]
      split_ifs with hlt heq
      · simp only [List.map_cons, List.pairwise_cons, List.mem_cons]
        refine ⟨?_, hsorted⟩
        rintro other (rfl | hother)
        · exact hlt
        · exact hlt.trans (hsorted.1 other hother)
      · exact List.pairwise_cons.2 hsorted
      · rw [List.map_cons, List.pairwise_cons]
        refine ⟨?_, ih hsorted.2⟩
        intro other hother
        rcases mem_keys_upsertEntries hother with rfl | hrest
        · exact lt_of_le_of_ne (not_lt.mp hlt) (Ne.symm heq)
        · exact hsorted.1 other hrest

omit [LinearOrder K] in
theorem retainEntries_keys_sublist {S : Type w}
    (visit : S → V → S × Option V) (state : S) (list : List (K × V)) :
    ((retainEntries visit state list).2.map Prod.fst).Sublist
      (list.map Prod.fst) := by
  induction list generalizing state with
  | nil => simp [retainEntries]
  | cons entry rest ih =>
      obtain ⟨key, value⟩ := entry
      simp only [retainEntries, List.map_cons]
      cases hvisit : (visit state value).2 with
      | none => simpa [hvisit] using (ih _).cons key
      | some kept => simpa [hvisit] using (ih _).cons_cons key

theorem lookupEntries_eq_none_of_forall_lt {key : K} {list : List (K × V)}
    (hlt : ∀ other ∈ list.map Prod.fst, key < other) :
    lookupEntries key list = none := by
  induction list with
  | nil => rfl
  | cons entry rest ih =>
      obtain ⟨head, value⟩ := entry
      have hhead : key < head := hlt head (by simp)
      rw [lookupEntries, if_neg hhead.ne']
      exact ih fun other hother => hlt other (by simp [hother])

/-- Nothing is stored below the least key. -/
theorem lookupEntries_eq_none_of_lt_head (key : K) {head : K} {value : V}
    {rest : List (K × V)}
    (hsorted : (((head, value) :: rest).map Prod.fst).Pairwise (· < ·))
    (hlt : key < head) : lookupEntries key ((head, value) :: rest) = none := by
  rw [List.map_cons, List.pairwise_cons] at hsorted
  apply lookupEntries_eq_none_of_forall_lt
  intro later hlater
  rw [List.map_cons, List.mem_cons] at hlater
  rcases hlater with rfl | hrest
  · exact hlt
  · exact hlt.trans (hsorted.1 later hrest)

/-- A lookup succeeds exactly on the entries of a sorted list. -/
theorem lookupEntries_eq_some_iff {key : K} {value : V} {list : List (K × V)}
    (hsorted : (list.map Prod.fst).Pairwise (· < ·)) :
    lookupEntries key list = some value ↔ (key, value) ∈ list := by
  induction list with
  | nil => simp [lookupEntries]
  | cons entry rest ih =>
      obtain ⟨head, other⟩ := entry
      rw [List.map_cons, List.pairwise_cons] at hsorted
      rw [lookupEntries, List.mem_cons]
      split_ifs with heq
      · subst heq
        constructor
        · intro h
          left
          rw [Option.some.inj h]
        · rintro (h | hmem)
          · rw [(Prod.mk.inj h).2]
          · exact absurd (hsorted.1 head (List.mem_map_of_mem hmem))
              (lt_irrefl head)
      · rw [ih hsorted.2]
        constructor
        · exact Or.inr
        · rintro (h | hmem)
          · exact absurd (Prod.mk.inj h).1.symm heq
          · exact hmem

theorem lookupEntries_upsertEntries (key other : K) (update : Option V → V)
    {list : List (K × V)} (hsorted : (list.map Prod.fst).Pairwise (· < ·)) :
    lookupEntries other (upsertEntries key update list) =
      if other = key then some (update (lookupEntries key list))
      else lookupEntries other list := by
  induction list with
  | nil =>
      by_cases heq : other = key
      · simp [upsertEntries, lookupEntries, heq]
      · simp [upsertEntries, lookupEntries, heq, Ne.symm heq]
  | cons entry rest ih =>
      obtain ⟨head, value⟩ := entry
      have hbelow := lookupEntries_eq_none_of_lt_head key hsorted
      rw [List.map_cons, List.pairwise_cons] at hsorted
      rw [upsertEntries]
      by_cases hlt : key < head
      · rw [if_pos hlt, hbelow hlt, lookupEntries]
        by_cases hother : other = key
        · rw [if_pos hother.symm, if_pos hother]
        · rw [if_neg (Ne.symm hother), if_neg hother]
      · rw [if_neg hlt]
        by_cases heq : key = head
        · subst heq
          by_cases hother : other = key
          · simp [lookupEntries, hother]
          · simp [lookupEntries, hother, Ne.symm hother]
        · rw [if_neg heq, lookupEntries, ih hsorted.2]
          by_cases hother : other = key
          · subst hother
            simp [lookupEntries, Ne.symm heq]
          · simp [lookupEntries, hother]

/-! ## Maps -/

def empty : SortedMap K V := ⟨[], List.Pairwise.nil⟩

instance : Inhabited (SortedMap K V) := ⟨empty⟩

/-- The value stored under a key. -/
def get? (map : SortedMap K V) (key : K) : Option V :=
  lookupEntries key map.entries

/-- The least key. -/
def firstKey? (map : SortedMap K V) : Option K :=
  map.entries.head?.map Prod.fst

/-- The values in key order. -/
def values (map : SortedMap K V) : List V := map.entries.map Prod.snd

/-- Create the entry `update none`, or replace a value by
`update (some value)`. -/
def upsert (map : SortedMap K V) (key : K) (update : Option V → V) :
    SortedMap K V :=
  ⟨upsertEntries key update map.entries,
    upsertEntries_sorted key update map.sorted⟩

def insert (map : SortedMap K V) (key : K) (value : V) : SortedMap K V :=
  map.upsert key fun _ => value

def erase (map : SortedMap K V) (key : K) : SortedMap K V :=
  ⟨map.entries.filter fun entry => entry.1 ≠ key,
    map.sorted.sublist (List.filter_sublist.map Prod.fst)⟩

/-- Update an entry when it exists. -/
def modify (map : SortedMap K V) (key : K) (update : V → V) : SortedMap K V :=
  ⟨map.entries.map fun entry =>
      (entry.1, if entry.1 = key then update entry.2 else entry.2), by
    rw [List.map_map]
    exact map.sorted⟩

/-- Visit every entry in key order, keeping, changing or dropping it. -/
def retain {S : Type w} (map : SortedMap K V) (state : S)
    (visit : S → V → S × Option V) : S × SortedMap K V :=
  ((retainEntries visit state map.entries).1,
    ⟨(retainEntries visit state map.entries).2,
      map.sorted.sublist (retainEntries_keys_sublist visit state map.entries)⟩)

theorem upsert_entries (map : SortedMap K V) (key : K)
    (update : Option V → V) :
    (map.upsert key update).entries = upsertEntries key update map.entries := rfl

theorem erase_entries (map : SortedMap K V) (key : K) :
    (map.erase key).entries =
      map.entries.filter fun entry => entry.1 ≠ key := rfl

theorem get?_eq_some_iff (map : SortedMap K V) {key : K} {value : V} :
    map.get? key = some value ↔ (key, value) ∈ map.entries :=
  lookupEntries_eq_some_iff map.sorted

/-- Maps with the same lookups are equal. -/
theorem ext_get? {left right : SortedMap K V}
    (hget : ∀ key, left.get? key = right.get? key) : left = right := by
  have hstrict : ∀ map : SortedMap K V,
      map.entries.Pairwise fun first second => first.1 < second.1 :=
    fun map => List.pairwise_map.1 map.sorted
  have hmem : ∀ entry, entry ∈ left.entries ↔ entry ∈ right.entries := by
    rintro ⟨key, value⟩
    rw [← get?_eq_some_iff, ← get?_eq_some_iff, hget]
  apply SortedMap.ext
  refine List.Perm.eq_of_pairwise ?_ (hstrict left) (hstrict right) ?_
  · intro first second _ _ hlt hgt
    exact absurd hlt hgt.asymm
  · refine (List.perm_ext_iff_of_nodup ?_ ?_).2 hmem
    · exact (hstrict left).imp fun hlt heq => hlt.ne (congrArg Prod.fst heq)
    · exact (hstrict right).imp fun hlt heq => hlt.ne (congrArg Prod.fst heq)

@[simp]
theorem get?_empty (key : K) : (empty : SortedMap K V).get? key = none := rfl

theorem get?_upsert (map : SortedMap K V) (key other : K)
    (update : Option V → V) :
    (map.upsert key update).get? other =
      if other = key then some (update (map.get? key)) else map.get? other :=
  lookupEntries_upsertEntries key other update map.sorted

theorem get?_insert (map : SortedMap K V) (key other : K) (value : V) :
    (map.insert key value).get? other =
      if other = key then some value else map.get? other :=
  get?_upsert map key other fun _ => value

/-- An update changes nothing exactly if it puts back what it found. -/
theorem upsert_eq_self_iff {map : SortedMap K V} {key : K} {update : Option V → V} :
    map.upsert key update = map ↔ map.get? key = some (update (map.get? key)) := by
  constructor
  · intro hsame
    have hget := map.get?_upsert key key update
    rwa [hsame, if_pos rfl] at hget
  · intro hfound
    apply ext_get?
    intro other
    rw [get?_upsert]
    split_ifs with hother
    · rw [hother, ← hfound]
    · rfl

theorem get?_foldl_insert (list : List (K × V)) (map : SortedMap K V) (key : K)
    (hsorted : (list.map Prod.fst).Pairwise (· < ·)) :
    (list.foldl (fun map entry => map.insert entry.1 entry.2) map).get? key =
      (lookupEntries key list).or (map.get? key) := by
  induction list generalizing map with
  | nil => rfl
  | cons entry rest ih =>
      obtain ⟨head, value⟩ := entry
      rw [List.map_cons, List.pairwise_cons] at hsorted
      rw [List.foldl_cons, ih _ hsorted.2, get?_insert, lookupEntries]
      by_cases hkey : head = key
      · subst hkey
        have hlater : lookupEntries head rest = none :=
          lookupEntries_eq_none_of_forall_lt hsorted.1
        rw [hlater, if_pos rfl, if_pos rfl]
        rfl
      · rw [if_neg (Ne.symm hkey), if_neg hkey]

/-- Inserting the entries of a map one by one gives the map back. -/
theorem foldl_insert_entries (map : SortedMap K V) :
    map.entries.foldl (fun map entry => map.insert entry.1 entry.2) empty = map := by
  apply ext_get?
  intro key
  rw [get?_foldl_insert _ _ _ map.sorted, get?_empty, Option.or_none]
  rfl

/-- The entries whose values satisfy a predicate. -/
def restrict (map : SortedMap K V) (keep : V → Bool) : SortedMap K V :=
  ⟨map.entries.filter fun entry => keep entry.2,
    map.sorted.sublist (List.filter_sublist.map Prod.fst)⟩

theorem get?_restrict (map : SortedMap K V) (keep : V → Bool) (key : K) :
    (map.restrict keep).get? key = (map.get? key).filter keep := by
  ext value
  rw [Option.filter_eq_some_iff, get?_eq_some_iff, get?_eq_some_iff, restrict,
    List.mem_filter]

/-- Maps that agree where a predicate holds have the same values there. -/
theorem filter_values_congr {left right : SortedMap K V} {keep : V → Bool}
    (hget : ∀ key, (left.get? key).filter keep = (right.get? key).filter keep) :
    left.values.filter keep = right.values.filter keep := by
  have hvalues : ∀ map : SortedMap K V,
      map.values.filter keep = (map.restrict keep).values := by
    intro map
    rw [values, List.filter_map]
    rfl
  have hrestrict : left.restrict keep = right.restrict keep := by
    apply ext_get?
    intro key
    rw [get?_restrict, get?_restrict, hget]
  rw [hvalues, hvalues, hrestrict]

theorem get?_erase (map : SortedMap K V) (key other : K) :
    (map.erase key).get? other = if other = key then none else map.get? other := by
  ext value
  rw [get?_eq_some_iff, erase_entries, List.mem_filter]
  by_cases hother : other = key
  · simp [hother]
  · simp [hother, get?_eq_some_iff]

theorem get?_of_get?_erase {map : SortedMap K V} {key other : K} {value : V}
    (hget : (map.erase key).get? other = some value) :
    map.get? other = some value := by
  rw [get?_erase] at hget
  split_ifs at hget
  exact hget

theorem get?_modify (map : SortedMap K V) (key other : K) (update : V → V) :
    (map.modify key update).get? other =
      if other = key then (map.get? other).map update else map.get? other := by
  obtain ⟨list, hsorted⟩ := map
  simp only [get?, modify]
  clear hsorted
  induction list with
  | nil => simp [lookupEntries]
  | cons entry rest ih =>
      obtain ⟨head, value⟩ := entry
      by_cases hhead : head = other
      · subst hhead
        by_cases hkey : head = key
        · simp [lookupEntries, hkey]
        · simp [lookupEntries, hkey]
      · simpa [lookupEntries, hhead] using ih

theorem modify_eq_self_iff {map : SortedMap K V} {key : K} {update : V → V} :
    map.modify key update = map ↔ (map.get? key).map update = map.get? key := by
  constructor
  · intro hsame
    have hget := map.get?_modify key key update
    rwa [hsame, if_pos rfl, eq_comm] at hget
  · intro hfound
    apply ext_get?
    intro other
    rw [get?_modify]
    split_ifs with hother
    · rw [hother, hfound]
    · rfl

/-- A sequence of updates changes each entry by the updates of its key. -/
theorem foldl_modify_entries {I : Type w} (keyOf : I → K) (change : I → V → V)
    (items : List I) (map : SortedMap K V) :
    (items.foldl (fun map item => map.modify (keyOf item) (change item)) map).entries =
      map.entries.map fun entry => (entry.1,
        (items.filter fun item => keyOf item = entry.1).foldl
          (fun value item => change item value) entry.2) := by
  induction items generalizing map with
  | nil => simp
  | cons item items ih =>
      rw [List.foldl_cons, ih, modify, List.map_map]
      refine List.map_congr_left fun entry _ => ?_
      by_cases hkey : entry.1 = keyOf item
      · simp [hkey]
      · simp [hkey, Ne.symm hkey]

/-- Among items with distinct keys, at most one has a given key. -/
theorem filter_key_eq_singleton {I : Type w} {keyOf : I → K} {items : List I}
    (hdistinct : (items.map keyOf).Nodup) {item : I} (hmem : item ∈ items) :
    items.filter (fun other => keyOf other = keyOf item) = [item] := by
  induction items with
  | nil => simp at hmem
  | cons first rest ih =>
      rw [List.map_cons, List.nodup_cons] at hdistinct
      rcases List.mem_cons.1 hmem with rfl | hrest
      · have hnone : rest.filter (fun other => keyOf other = keyOf item) = [] := by
          rw [List.filter_eq_nil_iff]
          intro other hother
          have hne : keyOf other ≠ keyOf item := fun heq =>
            hdistinct.1 (heq ▸ List.mem_map_of_mem hother)
          simpa using hne
        rw [List.filter_cons_of_pos (by simp), hnone]
      · have hne : keyOf first ≠ keyOf item := fun heq =>
          hdistinct.1 (heq ▸ List.mem_map_of_mem hrest)
        rw [List.filter_cons_of_neg (by simpa using hne), ih hdistinct.2 hrest]

/-! ## Invariants of the entries -/

/-- Every entry satisfies a predicate. -/
def All (P : K → V → Prop) (map : SortedMap K V) : Prop :=
  ∀ key value, map.get? key = some value → P key value

section All

variable {P : K → V → Prop} {map : SortedMap K V}

theorem All.empty : (SortedMap.empty : SortedMap K V).All P := by
  intro key value hget
  simp at hget

theorem All.insert (hall : map.All P) {key : K} {value : V} (hnew : P key value) :
    (map.insert key value).All P := by
  intro other found hget
  rw [get?_insert] at hget
  split_ifs at hget with hother
  · cases hget
    rw [hother]
    exact hnew
  · exact hall other found hget

theorem All.erase (hall : map.All P) (key : K) : (map.erase key).All P :=
  fun other found hget => hall other found (get?_of_get?_erase hget)

end All

/-! ## Sums over the values -/

section Sums

variable {M : Type w} [AddCommGroup M]

/-- Sum of a quantity over all values. -/
def sumBy (measure : V → M) (map : SortedMap K V) : M :=
  (map.entries.map fun entry => measure entry.2).sum

/-- Updating one entry changes a sum by the difference of that entry's old and
new quantities; an entry that did not exist counted for nothing. -/
theorem sumBy_upsert (measure : V → M) (map : SortedMap K V) (key : K)
    (update : Option V → V) :
    sumBy measure (map.upsert key update) =
      sumBy measure map - ((map.get? key).map measure).getD 0 +
        measure (update (map.get? key)) := by
  obtain ⟨list, hsorted⟩ := map
  simp only [sumBy, upsert, get?]
  induction list with
  | nil => simp [upsertEntries, lookupEntries]
  | cons entry rest ih =>
      obtain ⟨head, value⟩ := entry
      have hbelow := lookupEntries_eq_none_of_lt_head key hsorted
      rw [List.map_cons, List.pairwise_cons] at hsorted
      rw [upsertEntries]
      split_ifs with hlt heq
      · rw [hbelow hlt]
        simp [add_comm]
      · subst heq
        simp only [lookupEntries, if_true, List.map_cons, List.sum_cons,
          Option.map_some, Option.getD_some]
        abel
      · have hne : ¬ head = key := Ne.symm heq
        rw [List.map_cons, List.sum_cons, ih hsorted.2, List.map_cons,
          List.sum_cons, lookupEntries, if_neg hne]
        abel

end Sums

end SortedMap
