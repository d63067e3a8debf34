import OpenHl.Core.SortedMap

/-!
# Ordered maps of first-in-first-out queues

Flattening such a map lists its elements in key order and, within a key, in
queue order.  When no queue is empty the flat list determines the map, so the
operations can be described by what they do to that list:

* `push` places an element behind all elements whose key is at most its own;
* rewriting the queue under the least key rewrites a prefix of the list;
* `removeFirst` removes the first element that satisfies a predicate.
-/

universe u v

abbrev QueueMap (K : Type u) (V : Type v) [LinearOrder K] := SortedMap K (List V)

namespace QueueMap

variable {K : Type u} {V : Type v} [LinearOrder K]

/-! ## Entry lists -/

def flattenEntries (list : List (K × List V)) : List (K × V) :=
  list.flatMap fun entry => entry.2.map (Prod.mk entry.1)

omit [LinearOrder K] in
@[simp]
theorem flattenEntries_nil : flattenEntries ([] : List (K × List V)) = [] := rfl

omit [LinearOrder K] in
@[simp]
theorem flattenEntries_cons (key : K) (queue : List V)
    (rest : List (K × List V)) :
    flattenEntries ((key, queue) :: rest) =
      queue.map (Prod.mk key) ++ flattenEntries rest := rfl

omit [LinearOrder K] in
theorem mem_keys_of_mem_flattenEntries {list : List (K × List V)}
    {item : K × V} (hmem : item ∈ flattenEntries list) :
    item.1 ∈ list.map Prod.fst := by
  rw [flattenEntries, List.mem_flatMap] at hmem
  obtain ⟨entry, hentry, hitem⟩ := hmem
  obtain ⟨value, _, rfl⟩ := List.mem_map.1 hitem
  exact List.mem_map_of_mem hentry

/-- Elements of later entries have larger keys. -/
theorem lt_of_mem_flattenEntries {key : K} {queue : List V}
    {rest : List (K × List V)}
    (hsorted : (((key, queue) :: rest).map Prod.fst).Pairwise (· < ·))
    (item : K × V) (hmem : item ∈ flattenEntries rest) : key < item.1 := by
  rw [List.map_cons, List.pairwise_cons] at hsorted
  exact hsorted.1 _ (mem_keys_of_mem_flattenEntries hmem)

theorem flattenEntries_sorted {list : List (K × List V)}
    (hsorted : (list.map Prod.fst).Pairwise (· < ·)) :
    ((flattenEntries list).map Prod.fst).Pairwise (· ≤ ·) := by
  induction list with
  | nil => simp
  | cons entry rest ih =>
      obtain ⟨key, queue⟩ := entry
      have hlater := lt_of_mem_flattenEntries hsorted
      rw [List.map_cons, List.pairwise_cons] at hsorted
      rw [flattenEntries_cons, List.map_append, List.pairwise_append]
      refine ⟨?_, ih hsorted.2, ?_⟩
      · have hconst : (queue.map (Prod.mk key)).map Prod.fst =
            List.replicate queue.length key := by
          rw [List.map_map]
          exact List.map_const'
        rw [hconst, List.pairwise_replicate]
        exact Or.inr (le_refl key)
      · intro left hleft right hright
        obtain ⟨item, hitem, rfl⟩ := List.mem_map.1 hright
        have hkey : left = key := by
          simp only [List.map_map, List.mem_map, Function.comp] at hleft
          obtain ⟨_, _, rfl⟩ := hleft
          rfl
        rw [hkey]
        exact (hlater item hitem).le

/-- The place `push` gives to an element of a key-ordered list. -/
def insertBehind (key : K) (value : V) (list : List (K × V)) : List (K × V) :=
  list.takeWhile (fun item => item.1 ≤ key) ++
    (key, value) :: list.dropWhile (fun item => item.1 ≤ key)

theorem insertBehind_append_of_le {key : K} (value : V)
    {front : List (K × V)} (back : List (K × V)) (hle : ∀ item ∈ front, item.1 ≤ key) :
    insertBehind key value (front ++ back) =
      front ++ insertBehind key value back := by
  induction front with
  | nil => rfl
  | cons item rest ih =>
      have hitem : item.1 ≤ key := hle item (by simp)
      have hrest := ih fun other hother => hle other (by simp [hother])
      simp only [insertBehind, List.cons_append] at hrest ⊢
      rw [List.takeWhile_cons_of_pos (by simpa using hitem),
        List.dropWhile_cons_of_pos (by simpa using hitem), List.cons_append, hrest]

theorem insertBehind_of_forall_lt {key : K} {value : V} {list : List (K × V)}
    (hlt : ∀ item ∈ list, key < item.1) :
    insertBehind key value list = (key, value) :: list := by
  cases list with
  | nil => rfl
  | cons item rest =>
      have hitem : ¬ item.1 ≤ key := not_le.2 (hlt item (by simp))
      rw [insertBehind, List.takeWhile_cons_of_neg (by simpa using hitem),
        List.dropWhile_cons_of_neg (by simpa using hitem), List.nil_append]

theorem insertBehind_of_forall_le {key : K} {value : V} {list : List (K × V)}
    (hle : ∀ item ∈ list, item.1 ≤ key) :
    insertBehind key value list = list ++ [(key, value)] := by
  have happend := insertBehind_append_of_le value [] hle
  rwa [List.append_nil] at happend

theorem flattenEntries_upsertEntries (key : K) (value : V)
    {list : List (K × List V)}
    (hsorted : (list.map Prod.fst).Pairwise (· < ·)) :
    flattenEntries (SortedMap.upsertEntries key
        (fun queue => queue.getD [] ++ [value]) list) =
      insertBehind key value (flattenEntries list) := by
  induction list with
  | nil => rfl
  | cons entry rest ih =>
      obtain ⟨head, queue⟩ := entry
      have hlater := lt_of_mem_flattenEntries hsorted
      rw [List.map_cons, List.pairwise_cons] at hsorted
      have hqueue : ∀ item ∈ queue.map (Prod.mk head), item.1 = head := by
        intro item hitem
        obtain ⟨_, _, rfl⟩ := List.mem_map.1 hitem
        rfl
      rw [SortedMap.upsertEntries]
      split_ifs with hlt heq
      · -- a new least key: its one element goes to the front
        rw [insertBehind_of_forall_lt]
        · rfl
        · intro item hitem
          rw [flattenEntries_cons, List.mem_append] at hitem
          rcases hitem with hfirst | hrest
          · rw [hqueue item hfirst]
            exact hlt
          · exact hlt.trans (hlater item hrest)
      · subst heq
        rw [flattenEntries_cons, flattenEntries_cons,
          insertBehind_append_of_le _ _ fun item hitem => (hqueue item hitem).le,
          insertBehind_of_forall_lt hlater]
        simp
      · have hhead : head < key := lt_of_le_of_ne (not_lt.mp hlt) (Ne.symm heq)
        rw [flattenEntries_cons, ih hsorted.2, flattenEntries_cons,
          insertBehind_append_of_le]
        intro item hitem
        rw [hqueue item hitem]
        exact hhead.le

/-! ## Maps -/

/-- Elements in key order and, within a key, in queue order. -/
def flatten (map : QueueMap K V) : List (K × V) := flattenEntries map.entries

theorem mem_flatten {map : QueueMap K V} {entry : K × List V}
    (hentry : entry ∈ map.entries) {value : V} (hvalue : value ∈ entry.2) :
    (entry.1, value) ∈ flatten map :=
  List.mem_flatMap.2 ⟨entry, hentry, List.mem_map_of_mem hvalue⟩

/-- No key is left with an empty queue. -/
def NoEmpty (map : QueueMap K V) : Prop := ∀ entry ∈ map.entries, entry.2 ≠ []

/-- Append an element to the queue of its key, creating the queue if needed. -/
def push (map : QueueMap K V) (key : K) (value : V) : QueueMap K V :=
  map.upsert key fun queue => queue.getD [] ++ [value]

@[simp]
theorem flatten_empty : flatten (SortedMap.empty : QueueMap K V) = [] := rfl

theorem noEmpty_empty : NoEmpty (SortedMap.empty : QueueMap K V) := by
  intro entry hentry
  exact absurd hentry List.not_mem_nil

theorem flatten_sorted (map : QueueMap K V) :
    ((flatten map).map Prod.fst).Pairwise (· ≤ ·) :=
  flattenEntries_sorted map.sorted

theorem flatten_push (map : QueueMap K V) (key : K) (value : V) :
    flatten (push map key value) = insertBehind key value (flatten map) :=
  flattenEntries_upsertEntries key value map.sorted

theorem noEmpty_iff_get? (map : QueueMap K V) :
    NoEmpty map ↔ ∀ key, map.get? key ≠ some [] := by
  constructor
  · intro hnonempty key hget
    exact hnonempty _ (map.get?_eq_some_iff.1 hget) rfl
  · rintro hget ⟨key, queue⟩ hentry hnil
    exact hget key (map.get?_eq_some_iff.2 (hnil ▸ hentry))

theorem noEmpty_push {map : QueueMap K V} (hnonempty : NoEmpty map) (key : K)
    (value : V) : NoEmpty (push map key value) := by
  rw [noEmpty_iff_get?] at hnonempty ⊢
  intro other
  rw [push, SortedMap.get?_upsert]
  split_ifs with heq
  · simp
  · exact hnonempty other

/-- The queue of a key, read off the flat list. -/
theorem filter_flatten (map : QueueMap K V) (key : K) :
    ((flatten map).filter fun item => item.1 = key).map Prod.snd =
      (map.get? key).getD [] := by
  obtain ⟨list, hsorted⟩ := map
  simp only [flatten, SortedMap.get?]
  induction list with
  | nil => rfl
  | cons entry rest ih =>
      obtain ⟨head, queue⟩ := entry
      have hlater := lt_of_mem_flattenEntries hsorted
      rw [List.map_cons, List.pairwise_cons] at hsorted
      rw [flattenEntries_cons, List.filter_append, List.map_append,
        SortedMap.lookupEntries]
      split_ifs with heq
      · subst heq
        have hrest : (flattenEntries rest).filter
            (fun item => decide (item.1 = head)) = [] := by
          rw [List.filter_eq_nil_iff]
          intro item hitem
          simpa using (hlater item hitem).ne'
        rw [hrest]
        simp [List.filter_map, Function.comp_def]
      · rw [ih hsorted.2]
        simp [List.filter_map, Function.comp_def, heq]

/-- Without empty queues the flat list determines the map. -/
theorem flatten_injective {left right : QueueMap K V} (hleft : NoEmpty left)
    (hright : NoEmpty right) (heq : flatten left = flatten right) :
    left = right := by
  rw [noEmpty_iff_get?] at hleft hright
  apply SortedMap.ext_get?
  intro key
  have hqueue : (left.get? key).getD [] = (right.get? key).getD [] := by
    rw [← filter_flatten, ← filter_flatten, heq]
  cases hl : left.get? key with
  | none =>
      cases hr : right.get? key with
      | none => rfl
      | some queue =>
          rw [hl, hr] at hqueue
          exact absurd (hr.trans (congrArg some hqueue.symm)) (hright key)
  | some queue =>
      cases hr : right.get? key with
      | none =>
          rw [hl, hr] at hqueue
          exact absurd (hl.trans (congrArg some hqueue)) (hleft key)
      | some other =>
          rw [hl, hr] at hqueue
          exact congrArg some hqueue

/-! ## Reading a queue off a flat list -/

/-- The queue of a key in a flat list, if it has one. -/
def queueOf (list : List (K × V)) (key : K) : Option (List V) :=
  let queue := (list.filter fun item => item.1 = key).map Prod.snd
  if queue.isEmpty then none else some queue

theorem queueOf_getD (list : List (K × V)) (key : K) :
    (queueOf list key).getD [] = (list.filter fun item => item.1 = key).map Prod.snd := by
  rw [queueOf]
  split_ifs with hempty
  · exact (List.isEmpty_iff.1 hempty).symm
  · rfl

/-- Without empty queues, looking a key up is reading its queue off the list. -/
theorem get?_eq_queueOf {map : QueueMap K V} (hnonempty : NoEmpty map) (key : K) :
    map.get? key = queueOf (flatten map) key := by
  rw [noEmpty_iff_get?] at hnonempty
  have hkey := hnonempty key
  rw [queueOf, filter_flatten]
  cases hget : map.get? key with
  | none => rfl
  | some queue =>
      rw [hget, ne_eq, Option.some.injEq, ← List.isEmpty_iff] at hkey
      exact (if_neg hkey).symm

theorem exists_mem_queueOf_iff {list : List (K × V)} {key : K} {value : V} :
    (∃ queue, queueOf list key = some queue ∧ value ∈ queue) ↔ (key, value) ∈ list := by
  have hmem : value ∈ (list.filter fun item => item.1 = key).map Prod.snd ↔
      (key, value) ∈ list := by
    simp
  rw [← hmem, queueOf]
  constructor
  · rintro ⟨queue, hqueue, hvalue⟩
    split_ifs at hqueue
    rwa [Option.some.inj hqueue]
  · intro hvalue
    have hnonempty := List.ne_nil_of_mem hvalue
    exact ⟨_, if_neg (by simpa using hnonempty), hvalue⟩

/-- An element of another key does not show. -/
theorem queueOf_middle_of_ne {item : K × V} {key : K} (hne : item.1 ≠ key)
    (front back : List (K × V)) :
    queueOf (front ++ item :: back) key = queueOf (front ++ back) key := by
  have hsame : (front ++ item :: back).filter (fun other => decide (other.1 = key)) =
      (front ++ back).filter fun other => decide (other.1 = key) := by
    simp [hne]
  rw [queueOf, queueOf, hsame]

/-- An element of the key stands between the others. -/
theorem queueOf_middle_self (key : K) (value : V) (front back : List (K × V)) :
    ∃ before behind,
      queueOf (front ++ (key, value) :: back) key = some (before ++ value :: behind) ∧
      queueOf (front ++ back) key =
        if (before ++ behind).isEmpty then none else some (before ++ behind) := by
  refine ⟨(front.filter fun item => item.1 = key).map Prod.snd,
    (back.filter fun item => item.1 = key).map Prod.snd, ?_, ?_⟩
  · simp [queueOf]
  · rw [queueOf, List.filter_append, List.map_append]

/-! ## Rebuilding a map from a flat list -/

/-- Push the elements of a list one after another. -/
def ofList (list : List (K × V)) : QueueMap K V :=
  list.foldl (fun map item => push map item.1 item.2) SortedMap.empty

private theorem foldl_push_spec (list : List (K × V)) (map : QueueMap K V)
    (hnonempty : NoEmpty map)
    (hsorted : ((flatten map ++ list).map Prod.fst).Pairwise (· ≤ ·)) :
    NoEmpty (list.foldl (fun map item => push map item.1 item.2) map) ∧
      flatten (list.foldl (fun map item => push map item.1 item.2) map) =
        flatten map ++ list := by
  induction list generalizing map with
  | nil => simpa using hnonempty
  | cons item rest ih =>
      have hbehind : ∀ other ∈ flatten map, other.1 ≤ item.1 := by
        intro other hother
        rw [List.map_append, List.pairwise_append] at hsorted
        exact hsorted.2.2 _ (List.mem_map_of_mem hother) _ (by simp)
      have hflat : flatten (push map item.1 item.2) = flatten map ++ [item] := by
        rw [flatten_push, insertBehind_of_forall_le hbehind]
      obtain ⟨hne, heq⟩ := ih (push map item.1 item.2)
        (noEmpty_push hnonempty _ _) (by rw [hflat]; simpa using hsorted)
      refine ⟨hne, ?_⟩
      rw [List.foldl_cons, heq, hflat, List.append_assoc, List.singleton_append]

theorem noEmpty_ofList {list : List (K × V)}
    (hsorted : (list.map Prod.fst).Pairwise (· ≤ ·)) : NoEmpty (ofList list) :=
  (foldl_push_spec list SortedMap.empty noEmpty_empty (by simpa using hsorted)).1

theorem flatten_ofList {list : List (K × V)}
    (hsorted : (list.map Prod.fst).Pairwise (· ≤ ·)) :
    flatten (ofList list) = list :=
  (foldl_push_spec list SortedMap.empty noEmpty_empty (by simpa using hsorted)).2

theorem ofList_flatten {map : QueueMap K V} (hnonempty : NoEmpty map) :
    ofList (flatten map) = map :=
  flatten_injective (noEmpty_ofList (flatten_sorted map)) hnonempty
    (flatten_ofList (flatten_sorted map))

/-! ## The queue under the least key -/

/-- Write a queue back under its key; a queue that became empty takes its key
with it. -/
def putQueue (map : QueueMap K V) (key : K) (queue : List V) : QueueMap K V :=
  if queue.isEmpty then map.erase key else map.insert key queue

theorem entries_of_firstKey?_eq_none {map : QueueMap K V}
    (hfirst : map.firstKey? = none) : map.entries = [] := by
  simpa [SortedMap.firstKey?] using hfirst

theorem entries_of_firstKey?_eq_some {map : QueueMap K V} {key : K}
    (hfirst : map.firstKey? = some key) :
    ∃ queue rest, map.entries = (key, queue) :: rest ∧
      map.get? key = some queue := by
  cases hentries : map.entries with
  | nil => simp [SortedMap.firstKey?, hentries] at hfirst
  | cons entry rest =>
      obtain ⟨head, queue⟩ := entry
      have hhead : head = key := by
        simpa [SortedMap.firstKey?, hentries] using hfirst
      subst hhead
      exact ⟨queue, rest, rfl, by
        rw [SortedMap.get?_eq_some_iff, hentries]
        exact List.mem_cons_self⟩

/-- Without empty queues the least key is that of the first element. -/
theorem head?_flatten {map : QueueMap K V} (hnonempty : NoEmpty map) :
    (flatten map).head?.map Prod.fst = map.firstKey? := by
  cases hfirst : map.firstKey? with
  | none => simp [flatten, entries_of_firstKey?_eq_none hfirst]
  | some key =>
      obtain ⟨queue, rest, hentries, -⟩ := entries_of_firstKey?_eq_some hfirst
      have hqueue : queue ≠ [] :=
        hnonempty (key, queue) (by rw [hentries]; exact List.mem_cons_self)
      obtain ⟨value, others, rfl⟩ := List.exists_cons_of_ne_nil hqueue
      simp [flatten, hentries]

theorem putQueue_first_entries {map : QueueMap K V} {key : K} {old : List V}
    {rest : List (K × List V)} (hentries : map.entries = (key, old) :: rest)
    (queue : List V) :
    (putQueue map key queue).entries =
      if queue.isEmpty then rest else (key, queue) :: rest := by
  have hsorted := map.sorted
  rw [hentries, List.map_cons, List.pairwise_cons] at hsorted
  have hrest : ∀ entry ∈ rest, entry.1 ≠ key := fun entry hentry =>
    (hsorted.1 entry.1 (List.mem_map_of_mem hentry)).ne'
  rw [putQueue]
  split_ifs with hempty
  · rw [SortedMap.erase_entries, hentries, List.filter_cons_of_neg (by simp),
      List.filter_eq_self]
    intro entry hentry
    simpa using hrest entry hentry
  · rw [SortedMap.insert, SortedMap.upsert_entries, hentries,
      SortedMap.upsertEntries, if_neg (lt_irrefl key), if_pos rfl]

theorem flatten_putQueue_first {map : QueueMap K V} {key : K} {old : List V}
    {rest : List (K × List V)} (hentries : map.entries = (key, old) :: rest)
    (queue : List V) :
    flatten (putQueue map key queue) =
      queue.map (Prod.mk key) ++ flattenEntries rest := by
  rw [flatten, putQueue_first_entries hentries]
  split_ifs with hempty
  · rw [List.isEmpty_iff.1 hempty]
    rfl
  · rfl

theorem noEmpty_putQueue_first {map : QueueMap K V} {key : K} {old : List V}
    {rest : List (K × List V)} (hentries : map.entries = (key, old) :: rest)
    (hnonempty : NoEmpty map) (queue : List V) :
    NoEmpty (putQueue map key queue) := by
  have hrest : ∀ entry ∈ rest, entry.2 ≠ [] := fun entry hentry =>
    hnonempty entry (hentries ▸ List.mem_cons_of_mem _ hentry)
  intro entry hentry
  rw [putQueue_first_entries hentries] at hentry
  split_ifs at hentry with hempty
  · exact hrest entry hentry
  · rcases List.mem_cons.1 hentry with rfl | hmem
    · simpa using hempty
    · exact hrest entry hmem

/-! ## Removing one element -/

/-- Visit one queue: unless an element was removed before, remove the first
match; drop a queue that is empty afterwards. -/
def removeVisit (isMatch : V → Bool) (found : Bool) (queue : List V) :
    Bool × Option (List V) :=
  let visited :=
    if found then (found, queue)
    else match queue.findIdx? isMatch with
      | some position => (true, queue.eraseIdx position)
      | none => (found, queue)
  (visited.1, if visited.2.isEmpty then none else some visited.2)

/-- Remove the first match in key and queue order, and drop empty queues. -/
def removeFirst (map : QueueMap K V) (isMatch : V → Bool) :
    Bool × QueueMap K V :=
  map.retain false (removeVisit isMatch)

theorem removeVisit_eq (isMatch : V → Bool) (found : Bool) (queue : List V) :
    removeVisit isMatch found queue =
      (found || queue.any isMatch,
        let kept := if found then queue else queue.eraseP isMatch
        if kept.isEmpty then none else some kept) := by
  cases found with
  | true => rfl
  | false =>
      rw [removeVisit, List.eraseP_eq_eraseIdx]
      cases hfind : queue.findIdx? isMatch with
      | none =>
          have hany : queue.any isMatch = false := by
            simpa [List.findIdx?_eq_none_iff] using hfind
          simp [hany]
      | some position =>
          have hany : queue.any isMatch = true := by
            rw [List.any_eq_true]
            obtain ⟨hlt, hmatch, _⟩ := List.findIdx?_eq_some_iff_getElem.1 hfind
            exact ⟨_, List.getElem_mem hlt, hmatch⟩
          simp [hany]

omit [LinearOrder K] in
private theorem removeEntries_spec (isMatch : V → Bool) (found : Bool)
    (list : List (K × List V)) :
    (SortedMap.retainEntries (removeVisit isMatch) found list).1 =
        (found || (flattenEntries list).any fun item => isMatch item.2) ∧
      flattenEntries
          (SortedMap.retainEntries (removeVisit isMatch) found list).2 =
        (if found then flattenEntries list
          else (flattenEntries list).eraseP fun item => isMatch item.2) ∧
      ∀ entry ∈ (SortedMap.retainEntries (removeVisit isMatch) found list).2,
        entry.2 ≠ [] := by
  induction list generalizing found with
  | nil => simp [SortedMap.retainEntries]
  | cons entry rest ih =>
      obtain ⟨key, queue⟩ := entry
      obtain ⟨hfound, hflat, hkept⟩ := ih (found || queue.any isMatch)
      simp only [SortedMap.retainEntries, removeVisit_eq, flattenEntries_cons]
      refine ⟨?_, ?_, ?_⟩
      · rw [hfound]
        simp [Bool.or_assoc, Function.comp_def]
      · have hhead : ∀ kept : List V,
            flattenEntries ((((if kept.isEmpty then none else some kept).map
              fun kept => (key, kept)).toList) ++
              (SortedMap.retainEntries (removeVisit isMatch)
                (found || queue.any isMatch) rest).2) =
            kept.map (Prod.mk key) ++ flattenEntries
              (SortedMap.retainEntries (removeVisit isMatch)
                (found || queue.any isMatch) rest).2 := by
          intro kept
          cases kept <;> simp
        rw [hhead, hflat]
        cases found with
        | true => simp
        | false =>
            cases hany : queue.any isMatch with
            | true =>
                obtain ⟨value, hvalue, hmatch⟩ := List.any_eq_true.1 hany
                rw [List.eraseP_append_left (a := (key, value)) hmatch _
                  (List.mem_map_of_mem hvalue)]
                simp [List.eraseP_map, Function.comp_def]
            | false =>
                have hnone : ∀ value ∈ queue, ¬ isMatch value = true := by
                  intro value hvalue hmatch
                  simp [List.any_eq_false.1 hany value hvalue] at hmatch
                rw [List.eraseP_append_right, List.eraseP_of_forall_not hnone]
                · simp
                · intro item hitem
                  obtain ⟨value, hvalue, rfl⟩ := List.mem_map.1 hitem
                  exact hnone value hvalue
      · intro entry hentry
        rw [List.mem_append] at hentry
        rcases hentry with hhead | htail
        · generalize (if found then queue else queue.eraseP isMatch) = kept at hhead
          cases kept with
          | nil => simp at hhead
          | cons value tail =>
              simp only [List.isEmpty_cons, Bool.false_eq_true, if_false,
                Option.map_some, Option.toList_some, List.mem_singleton] at hhead
              rw [hhead]
              exact List.cons_ne_nil _ _
        · exact hkept entry htail

theorem removeFirst_found (map : QueueMap K V) (isMatch : V → Bool) :
    (removeFirst map isMatch).1 =
      (flatten map).any fun item => isMatch item.2 := by
  have hspec := (removeEntries_spec isMatch false map.entries).1
  rwa [Bool.false_or] at hspec

theorem flatten_removeFirst (map : QueueMap K V) (isMatch : V → Bool) :
    flatten (removeFirst map isMatch).2 =
      (flatten map).eraseP fun item => isMatch item.2 := by
  have hspec := (removeEntries_spec isMatch false map.entries).2.1
  rwa [if_neg Bool.false_ne_true] at hspec

theorem noEmpty_removeFirst (map : QueueMap K V) (isMatch : V → Bool) :
    NoEmpty (removeFirst map isMatch).2 :=
  (removeEntries_spec isMatch false map.entries).2.2

end QueueMap
