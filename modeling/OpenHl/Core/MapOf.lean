import OpenHl.Core.SortedMap

/-!
# Maps filled by a log

A map into which every entry of a log has been inserted in turn.  It holds the latest
value under each key (`get?_mapOf_concat`); if entries that share a key share the value, it
holds just the entries (`get?_mapOf_iff`), and if no two share a key, as many
(`length_mapOf`).
-/

namespace SortedMap

variable {A K V : Type*} [LinearOrder K] (key : A → K) (value : A → V)

def mapOf (items : List A) : SortedMap K V :=
  items.foldl (fun map item => map.insert (key item) (value item)) empty

variable {key value}

@[simp]
theorem mapOf_nil : mapOf key value [] = empty := rfl

theorem mapOf_concat (items : List A) (item : A) :
    mapOf key value (items ++ [item]) =
      (mapOf key value items).insert (key item) (value item) := by
  rw [mapOf, List.foldl_concat]
  rfl

theorem get?_mapOf_concat (items : List A) (item : A) (other : K) :
    (mapOf key value (items ++ [item])).get? other =
      if other = key item then some (value item) else (mapOf key value items).get? other := by
  rw [mapOf_concat, get?_insert]

theorem All.mapOf {P : K → V → Prop} {items : List A}
    (hitems : ∀ item ∈ items, P (key item) (value item)) :
    (SortedMap.mapOf key value items).All P := by
  induction items using List.reverseRecOn with
  | nil => exact All.empty
  | append_singleton items item ih =>
      rw [mapOf_concat]
      apply All.insert
      · exact ih fun other hother => hitems other (List.mem_append_left _ hother)
      · exact hitems item (List.mem_append_right _ (List.mem_singleton_self _))

theorem get?_mapOf_iff {items : List A}
    (hagree : ∀ item ∈ items, ∀ other ∈ items, key item = key other →
      value item = value other) (wanted : K) (found : V) :
    (mapOf key value items).get? wanted = some found ↔
      ∃ item ∈ items, key item = wanted ∧ value item = found := by
  induction items using List.reverseRecOn with
  | nil => simp
  | append_singleton items item ih =>
      have hsub : ∀ other ∈ items, other ∈ items ++ [item] :=
        fun other => List.mem_append_left _
      have hitem : item ∈ items ++ [item] :=
        List.mem_append_right _ (List.mem_singleton_self _)
      rw [get?_mapOf_concat]
      split_ifs with hkey
      · rw [Option.some.injEq]
        constructor
        · intro hvalue
          exact ⟨item, hitem, hkey.symm, hvalue⟩
        · rintro ⟨other, hother, hsame, rfl⟩
          exact hagree item hitem other hother (hkey.symm.trans hsame.symm)
      · rw [ih fun first hfirst second hsecond =>
          hagree first (hsub first hfirst) second (hsub second hsecond)]
        constructor
        · rintro ⟨other, hother, hsame⟩
          exact ⟨other, hsub other hother, hsame⟩
        · rintro ⟨other, hother, hsame⟩
          rcases List.mem_append.1 hother with hold | hnew
          · exact ⟨other, hold, hsame⟩
          · rw [List.mem_singleton.1 hnew] at hsame
            exact absurd hsame.1.symm hkey

theorem mem_keys_iff {map : SortedMap K V} {wanted : K} :
    wanted ∈ map.entries.map Prod.fst ↔ ∃ found, map.get? wanted = some found := by
  simp only [get?_eq_some_iff, List.mem_map]
  constructor
  · rintro ⟨⟨other, found⟩, hmem, rfl⟩
    exact ⟨found, hmem⟩
  · rintro ⟨found, hmem⟩
    exact ⟨(wanted, found), hmem, rfl⟩

theorem mem_keys_mapOf_iff {items : List A} {wanted : K} :
    wanted ∈ (mapOf key value items).entries.map Prod.fst ↔ wanted ∈ items.map key := by
  rw [mem_keys_iff]
  induction items using List.reverseRecOn with
  | nil => simp
  | append_singleton items item ih =>
      rw [get?_mapOf_concat, List.map_append, List.mem_append, List.map_singleton,
        List.mem_singleton]
      split_ifs with hkey
      · simp [hkey]
      · simp [hkey, ih]

/-- Different keys stay apart. -/
theorem length_mapOf {items : List A} (hnodup : (items.map key).Nodup) :
    (mapOf key value items).entries.length = items.length := by
  have hkeys : ((mapOf key value items).entries.map Prod.fst).Nodup :=
    (mapOf key value items).sorted.imp fun hlt => hlt.ne
  have hperm : ((mapOf key value items).entries.map Prod.fst).Perm (items.map key) :=
    (List.perm_ext_iff_of_nodup hkeys hnodup).2 fun _ => mem_keys_mapOf_iff
  rw [← List.length_map (f := Prod.fst), hperm.length_eq, List.length_map]

end SortedMap
