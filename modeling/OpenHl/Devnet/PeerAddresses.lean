import OpenHl.Core.StableRank
import OpenHl.Devnet.ValidatorFile

/-!
# Peer addresses of the validator set

The loader collects the peer addresses, and the position of the node, in the order of the
file; the set of validators is then sorted by power and address.  The two orders agree for
the files that `RankedAsListed` describes.
-/

namespace OpenHl.Devnet

open Machine OpenHl.Consensus

/-- A validator and the address under which its peers reach it. -/
abbrev Peer := OpenHlValidator ValidatorKey × Option String

/-- The validators of a file with the peer addresses listed for them. -/
def listedPeers (env : LoaderEnv) (file : ValidatorSetFile) : List Peer :=
  file.validators.filterMap fun entry =>
    (entryValidator? env entry).map fun validator => (validator, entry.peerMultiaddr)

/-- Descending powers, and ascending addresses among equal powers. -/
def InCanonicalOrder (env : LoaderEnv) (file : ValidatorSetFile) : Prop :=
  ((listedPeers env file).map Prod.fst).Pairwise OpenHlValidator.RanksBefore

/-- The number of validators that stand in front of a listed one in the canonical order. -/
def rankAmong (front : List Peer) (validator : OpenHlValidator ValidatorKey)
    (behind : List Peer) : ℕ :=
  StableRank.rank OpenHlValidator.RanksBefore (front.map Prod.fst) validator
    (behind.map Prod.fst)

/-- The entry listed at the rank of a validator has a peer address of that validator, and
as many validators rank before the node as are listed before it. -/
structure RankedAsListed (env : LoaderEnv) (ourKey : ValidatorKey)
    (file : ValidatorSetFile) : Prop where
  multiaddrs : ∀ front validator multiaddr behind,
    listedPeers env file = front ++ (validator, multiaddr) :: behind →
      ∃ other, ((listedPeers env file).map Prod.snd)[rankAmong front validator behind]? =
          some other ∧
        (validator, other) ∈ listedPeers env file
  own : ∀ front validator multiaddr behind,
    listedPeers env file = front ++ (validator, multiaddr) :: behind →
      validator.publicKey = ourKey → rankAmong front validator behind = front.length

/-- `peer_multiaddrs[i]` belongs to validator `i` of the set, and the node is the validator
at `self_index`. -/
structure Parallel (env : LoaderEnv) (ourKey : ValidatorKey) (file : ValidatorSetFile)
    (loaded : LoadedValidatorSet) : Prop where
  multiaddrs : ∀ (i : ℕ) validator, loaded.set.validators[i]? = some validator →
    ∃ entry ∈ file.validators, entryValidator? env entry = some validator ∧
      loaded.peerMultiaddrs[i]? = some entry.peerMultiaddr
  own : ∃ validator, loaded.set.validators[loaded.selfIndex]? = some validator ∧
    validator.publicKey = ourKey

/-! ## The listed peers -/

section ListedPeers

variable {env : LoaderEnv} {file : ValidatorSetFile}

theorem mem_listedPeers_iff {validator : OpenHlValidator ValidatorKey}
    {multiaddr : Option String} :
    (validator, multiaddr) ∈ listedPeers env file ↔
      ∃ entry ∈ file.validators, entryValidator? env entry = some validator ∧
        entry.peerMultiaddr = multiaddr := by
  rw [listedPeers, List.mem_filterMap]
  constructor
  · rintro ⟨entry, hentry, hpeer⟩
    obtain ⟨found, hfound, hpair⟩ := Option.map_eq_some_iff.1 hpeer
    obtain ⟨rfl, rfl⟩ := Prod.mk.inj hpair
    exact ⟨entry, hentry, hfound, rfl⟩
  · rintro ⟨entry, hentry, hfound, rfl⟩
    exact ⟨entry, hentry, by rw [hfound]; rfl⟩

theorem map_fst_listedPeers :
    (listedPeers env file).map Prod.fst = file.validators.filterMap (entryValidator? env) := by
  rw [listedPeers, List.map_filterMap]
  congr 1
  funext entry
  rw [Option.map_map]
  exact congrFun Option.map_id (entryValidator? env entry)

theorem map_publicKey_listedPeers :
    (listedPeers env file).map (fun peer => peer.1.publicKey) = listedKeys env file := by
  have hkeys := @map_filterMap_entryValidator env ValidatorKey OpenHlValidator.publicKey id
    (fun _ _ => rfl) file.validators
  rw [← map_fst_listedPeers, List.map_map, List.map_id] at hkeys
  exact hkeys

theorem map_snd_listedPeers
    (hentries : ∀ entry ∈ file.validators, (entryKey? env entry).isSome) :
    (listedPeers env file).map Prod.snd =
      file.validators.map ValidatorEntry.peerMultiaddr := by
  rw [listedPeers, List.map_filterMap, ← List.filterMap_eq_map]
  refine List.filterMap_congr fun entry hentry => ?_
  obtain ⟨key, hkey⟩ := Option.isSome_iff_exists.1 (hentries entry hentry)
  simp [entryValidator?, hkey]

end ListedPeers

/-- The place of a listed validator in the canonical order is its rank. -/
theorem getElem?_sorted_iff (env : LoaderEnv) (file : ValidatorSetFile) (place : ℕ)
    (validator : OpenHlValidator ValidatorKey) :
    (((listedPeers env file).map Prod.fst).insertionSort
        OpenHlValidator.RanksBefore)[place]? = some validator ↔
      ∃ front multiaddr behind,
        listedPeers env file = front ++ (validator, multiaddr) :: behind ∧
        place = rankAmong front validator behind := by
  rw [StableRank.getElem?_insertionSort_iff]
  constructor
  · rintro ⟨before, after, hsplit, rfl⟩
    obtain ⟨front, rest, hpeers, rfl, hrest⟩ := List.map_eq_append_iff.1 hsplit
    obtain ⟨⟨found, multiaddr⟩, behind, rfl, rfl, rfl⟩ := List.map_eq_cons_iff.1 hrest
    exact ⟨front, multiaddr, behind, hpeers, rfl⟩
  · rintro ⟨front, multiaddr, behind, hpeers, rfl⟩
    refine ⟨front.map Prod.fst, behind.map Prod.fst, ?_, rfl⟩
    rw [hpeers, List.map_append, List.map_cons]

/-! ## What the loader returns -/

section Loader

variable {env : LoaderEnv} {path : String} {ourKey : ValidatorKey}

/-- The peer addresses are those of the entries, and the position of the node is counted
from the first entry. -/
theorem loadEntries_positions {entries : List ValidatorEntry} {idx : ℕ}
    {loading final : Loading}
    (hload : loadEntries env path ourKey entries idx loading = .ok final) :
    final.peerMultiaddrs =
      loading.peerMultiaddrs ++ entries.map ValidatorEntry.peerMultiaddr ∧
    ∀ position, final.selfIndex = some position → loading.selfIndex = some position ∨
      ∃ offset, position = idx + offset ∧
        (entries.filterMap (entryKey? env))[offset]? = some ourKey := by
  induction entries generalizing idx loading with
  | nil =>
      obtain rfl := Except.ok.inj hload
      exact ⟨by rw [List.map_nil, List.append_nil], fun position hself => .inl hself⟩
  | cons entry entries ih =>
      rw [loadEntries] at hload
      cases hentry : loadEntry env path ourKey idx loading entry with
      | error failure => simp [hentry] at hload
      | ok next =>
          simp only [hentry] at hload
          obtain ⟨hpeers, hposition⟩ := ih hload
          obtain ⟨key, hparse, -, hpeer, hself⟩ := loadEntry_eq_ok hentry
          have hkey := entryKey?_eq_some env hparse
          refine ⟨?_, fun position hfinal => ?_⟩
          · rw [hpeers, hpeer, List.append_assoc, List.map_cons, List.singleton_append]
          · rw [List.filterMap_cons_some hkey]
            rcases hposition position hfinal with hnext | ⟨offset, hoffset, hours⟩
            · split_ifs at hself with hours
              · obtain ⟨-, hnoted⟩ := hself
                rw [hnoted] at hnext
                cases hnext
                exact .inr ⟨0, rfl, congrArg some hours⟩
              · exact .inl (hself ▸ hnext)
            · exact .inr ⟨offset + 1, by omega, hours⟩

theorem loadFile_positions {file : ValidatorSetFile} {loaded : LoadedValidatorSet}
    (hload : loadFile env path ourKey file = .ok loaded) :
    loaded.peerMultiaddrs = file.validators.map ValidatorEntry.peerMultiaddr ∧
    (listedKeys env file)[loaded.selfIndex]? = some ourKey := by
  obtain ⟨loading, selfIndex, hentries, hself, rfl⟩ := loadFile_cases hload
  obtain ⟨hpeers, hposition⟩ := loadEntries_positions hentries
  refine ⟨hpeers, ?_⟩
  rcases hposition selfIndex hself with hnone | ⟨offset, hoffset, hours⟩
  · cases hnone
  · rw [Nat.zero_add] at hoffset
    rw [hoffset]
    exact hours

end Loader

/-! ## When the orders agree -/

/-- What an accepted file and its result have in common. -/
structure Accepted (env : LoaderEnv) (ourKey : ValidatorKey) (file : ValidatorSetFile)
    (loaded : LoadedValidatorSet) : Prop where
  sorted : loaded.set.validators =
    ((listedPeers env file).map Prod.fst).insertionSort OpenHlValidator.RanksBefore
  multiaddrs : loaded.peerMultiaddrs = (listedPeers env file).map Prod.snd
  once : (listedKeys env file).count ourKey = 1
  position : (listedKeys env file)[loaded.selfIndex]? = some ourKey

theorem accepted_of_loadFile {env : LoaderEnv} {path : String} {ourKey : ValidatorKey}
    {file : ValidatorSetFile} {loaded : LoadedValidatorSet}
    (hload : loadFile env path ourKey file = .ok loaded) :
    Accepted env ourKey file loaded := by
  obtain ⟨hall, hset, honce⟩ := loadFile_eq_ok hload
  obtain ⟨hpeers, hposition⟩ := loadFile_positions hload
  refine ⟨?_, ?_, honce, hposition⟩
  · rw [hset, map_fst_listedPeers]
    rfl
  · rw [hpeers, map_snd_listedPeers fun entry hentry => (hall entry hentry).1]

/-- An item that is listed once has one place. -/
theorem place_eq_of_count_eq_one {keys front behind : List ValidatorKey}
    {key : ValidatorKey} {place : ℕ} (honce : keys.count key = 1)
    (hkeys : keys = front ++ key :: behind) (hplace : keys[place]? = some key) :
    place = front.length := by
  rw [hkeys, List.count_append, List.count_cons_self] at honce
  have hfront : key ∉ front := List.count_eq_zero.1 (by omega)
  have hbehind : key ∉ behind := List.count_eq_zero.1 (by omega)
  rw [hkeys] at hplace
  rcases lt_trichotomy place front.length with hbefore | hplace' | hafter
  · rw [List.getElem?_append_left hbefore] at hplace
    exact absurd (List.mem_of_getElem? hplace) hfront
  · exact hplace'
  · obtain ⟨offset, hoffset⟩ := Nat.exists_eq_add_of_lt hafter
    rw [List.getElem?_append_right hafter.le, hoffset,
      show front.length + offset + 1 - front.length = offset + 1 by omega,
      List.getElem?_cons_succ] at hplace
    exact absurd (List.mem_of_getElem? hplace) hbehind

namespace Accepted

variable {env : LoaderEnv} {ourKey : ValidatorKey} {file : ValidatorSetFile}
variable {loaded : LoadedValidatorSet} (haccepted : Accepted env ourKey file loaded)

include haccepted

/-- Every listed validator is in the set at its rank. -/
theorem getElem?_validators_iff (place : ℕ) (validator : OpenHlValidator ValidatorKey) :
    loaded.set.validators[place]? = some validator ↔
      ∃ front multiaddr behind,
        listedPeers env file = front ++ (validator, multiaddr) :: behind ∧
        place = rankAmong front validator behind := by
  rw [haccepted.sorted, getElem?_sorted_iff]

theorem selfIndex_eq {front behind : List Peer}
    {validator : OpenHlValidator ValidatorKey} {multiaddr : Option String}
    (hpeers : listedPeers env file = front ++ (validator, multiaddr) :: behind)
    (hours : validator.publicKey = ourKey) : loaded.selfIndex = front.length := by
  have hkeys := @map_publicKey_listedPeers env file
  rw [hpeers, List.map_append, List.map_cons, hours] at hkeys
  rw [place_eq_of_count_eq_one haccepted.once hkeys.symm haccepted.position,
    List.length_map]

/-- The node is listed. -/
theorem exists_own :
    ∃ front validator multiaddr behind,
      listedPeers env file = front ++ (validator, multiaddr) :: behind ∧
      validator.publicKey = ourKey := by
  have hlisted := List.mem_of_getElem? haccepted.position
  rw [← map_publicKey_listedPeers] at hlisted
  obtain ⟨⟨validator, multiaddr⟩, hpeer, hours⟩ := List.mem_map.1 hlisted
  obtain ⟨front, behind, hpeers⟩ := List.append_of_mem hpeer
  exact ⟨front, validator, multiaddr, behind, hpeers, hours⟩

theorem parallel_iff :
    Parallel env ourKey file loaded ↔ RankedAsListed env ourKey file := by
  constructor
  · intro hparallel
    constructor
    · intro front validator multiaddr behind hpeers
      obtain ⟨entry, hentry, hfound, haddr⟩ := hparallel.multiaddrs _ validator
        ((haccepted.getElem?_validators_iff _ validator).2
          ⟨front, multiaddr, behind, hpeers, rfl⟩)
      rw [haccepted.multiaddrs] at haddr
      exact ⟨_, haddr, mem_listedPeers_iff.2 ⟨entry, hentry, hfound, rfl⟩⟩
    · intro front validator multiaddr behind hpeers hours
      obtain ⟨own, hown, hkey⟩ := hparallel.own
      obtain ⟨before, other, after, hsplit, hrank⟩ :=
        (haccepted.getElem?_validators_iff _ own).1 hown
      -- the node is listed once, so both splits are at its entry
      have hfront := haccepted.selfIndex_eq hpeers hours
      have hbefore := haccepted.selfIndex_eq hsplit hkey
      obtain ⟨rfl, hrest⟩ := List.append_inj (hpeers.symm.trans hsplit)
        (hfront.symm.trans hbefore)
      obtain ⟨hpair, rfl⟩ := List.cons.inj hrest
      obtain ⟨rfl, -⟩ := Prod.mk.inj hpair
      rw [← hrank, hfront]
  · intro hranked
    constructor
    · intro i validator hvalidator
      obtain ⟨front, multiaddr, behind, hpeers, rfl⟩ :=
        (haccepted.getElem?_validators_iff i validator).1 hvalidator
      obtain ⟨other, hother, hlisted⟩ :=
        hranked.multiaddrs front validator multiaddr behind hpeers
      obtain ⟨entry, hentry, hfound, rfl⟩ := mem_listedPeers_iff.1 hlisted
      rw [haccepted.multiaddrs]
      exact ⟨entry, hentry, hfound, hother⟩
    · obtain ⟨front, validator, multiaddr, behind, hpeers, hours⟩ := haccepted.exists_own
      refine ⟨validator, ?_, hours⟩
      rw [haccepted.getElem?_validators_iff, haccepted.selfIndex_eq hpeers hours]
      exact ⟨front, multiaddr, behind, hpeers,
        (hranked.own front validator multiaddr behind hpeers hours).symm⟩

end Accepted

/-- In a file in canonical order every validator is listed at its rank. -/
theorem InCanonicalOrder.rankedAsListed {env : LoaderEnv} {ourKey : ValidatorKey}
    {file : ValidatorSetFile} (hordered : InCanonicalOrder env file) :
    RankedAsListed env ourKey file := by
  have hrank : ∀ front validator multiaddr behind,
      listedPeers env file = front ++ (validator, multiaddr) :: behind →
        rankAmong front validator behind = front.length := by
    intro front validator multiaddr behind hpeers
    rw [InCanonicalOrder, hpeers, List.map_append, List.map_cons] at hordered
    rw [rankAmong, StableRank.rank_of_pairwise hordered, List.length_map]
  constructor
  · intro front validator multiaddr behind hpeers
    rw [hrank front validator multiaddr behind hpeers, hpeers]
    exact ⟨multiaddr, by simp, by simp⟩
  · intro front validator multiaddr behind hpeers hours
    exact hrank front validator multiaddr behind hpeers

/-- A file with different peer addresses lists every validator at its rank only if it is in
canonical order. -/
theorem RankedAsListed.inCanonicalOrder {env : LoaderEnv} {ourKey : ValidatorKey}
    {file : ValidatorSetFile} (hranked : RankedAsListed env ourKey file)
    (hdistinct : ((listedPeers env file).map Prod.snd).Nodup) :
    InCanonicalOrder env file := by
  let validators := (listedPeers env file).map Prod.fst
  let sorted := validators.insertionSort OpenHlValidator.RanksBefore
  have hplace : ∀ (place : ℕ) validator, sorted[place]? = some validator →
      validators[place]? = some validator := by
    intro place validator hsorted
    obtain ⟨front, multiaddr, behind, hpeers, rfl⟩ :=
      (getElem?_sorted_iff env file place validator).1 hsorted
    obtain ⟨other, hother, hlisted⟩ :=
      hranked.multiaddrs front validator multiaddr behind hpeers
    rw [List.getElem?_map] at hother
    obtain ⟨⟨found, addr⟩, hfound, rfl⟩ := Option.map_eq_some_iff.1 hother
    have hsame : (found, addr) = (validator, addr) :=
      List.inj_on_of_nodup_map hdistinct (List.mem_of_getElem? hfound) hlisted rfl
    rw [List.getElem?_map, hfound, hsame]
    rfl
  have hlength : sorted.length = validators.length :=
    List.length_insertionSort _ validators
  have heq : validators = sorted := by
    refine List.ext_getElem? fun place => ?_
    cases hsorted : sorted[place]? with
    | none =>
        rw [List.getElem?_eq_none_iff] at hsorted ⊢
        omega
    | some validator => exact hplace place validator hsorted
  rw [InCanonicalOrder]
  change validators.Pairwise _
  rw [heq]
  exact List.pairwise_insertionSort _ validators

/-- The peer addresses of an accepted file are parallel to the validators of the set exactly
if each validator ranks, by power and address, at an entry with one of its peer addresses
and the node at its own entry.  A file in canonical order is such a file, and if its peer
addresses are different it is one only then. -/
theorem peerMultiaddrs_parallel_iff (env : LoaderEnv) (path : String)
    (ourKey : ValidatorKey) (bytes : List U8) (file : ValidatorSetFile)
    (loaded : LoadedValidatorSet) (hread : env.readFile path = .ok bytes)
    (hparse : env.fromSlice bytes = .ok file)
    (hload : loadValidatorSet env path ourKey = .ok loaded) :
    (Parallel env ourKey file loaded ↔ RankedAsListed env ourKey file) ∧
    (InCanonicalOrder env file → Parallel env ourKey file loaded) ∧
    ((file.validators.map ValidatorEntry.peerMultiaddr).Nodup →
      (Parallel env ourKey file loaded ↔ InCanonicalOrder env file)) := by
  rw [loadValidatorSet_eq_loadFile hread hparse] at hload
  have haccepted := accepted_of_loadFile hload
  have hcanonical : InCanonicalOrder env file → Parallel env ourKey file loaded :=
    fun hordered => haccepted.parallel_iff.2 hordered.rankedAsListed
  refine ⟨haccepted.parallel_iff, hcanonical, fun hdistinct => ⟨fun hparallel => ?_,
    hcanonical⟩⟩
  obtain ⟨hall, -, -⟩ := loadFile_eq_ok hload
  rw [← map_snd_listedPeers fun entry hentry => (hall entry hentry).1] at hdistinct
  exact (haccepted.parallel_iff.1 hparallel).inCanonicalOrder hdistinct

def firstPeer (power : U64) : ValidatorEntry :=
  { firstEntry with votingPower := power, peerMultiaddr := some "/ip4/10.0.0.1/tcp/27000" }

def secondPeer (power : U64) : ValidatorEntry :=
  { secondEntry with votingPower := power, peerMultiaddr := some "/ip4/10.0.0.2/tcp/27000" }

/-- The text of a file whose entries have peer addresses. -/
def peerFileText (entries : List ValidatorEntry) : String :=
  let entryText := fun entry : ValidatorEntry =>
    "\x7b\"pubkey_hex\":\"" ++ entry.pubkeyHex ++ "\",\"voting_power\":" ++
      toString entry.votingPower.val ++ ",\"peer_multiaddr\":\"" ++
      entry.peerMultiaddr.getD "" ++ "\"\x7d"
  "\x7b\"validators\":[" ++ ",".intercalate (entries.map entryText) ++ "]\x7d"

def peerFileBytes (entries : List ValidatorEntry) : List U8 :=
  (peerFileText entries).toUTF8.toList.map fun byte => ⟨byte.toNat, byte.toNat_lt⟩

/-- The surroundings of a node whose file has the given entries with peer addresses. -/
def peerSurroundings (entries : List ValidatorEntry) : LoaderEnv :=
  { surroundings entries with
    readFile := fun _ => .ok (peerFileBytes entries)
    fromSlice := fun bytes =>
      if bytes = peerFileBytes entries then .ok { validators := entries }
      else .error "expected value at line 1 column 1" }

theorem peerSurroundings_load (entries : List ValidatorEntry) (path : String)
    (ourKey : ValidatorKey) :
    loadValidatorSet (peerSurroundings entries) path ourKey =
      loadFile (peerSurroundings entries) path ourKey { validators := entries } :=
  loadValidatorSet_eq_loadFile rfl (if_pos rfl)

/-- The validator with the larger power is listed first. -/
theorem peerMultiaddrs_parallel_iff_descending :
    ∃ loaded,
      loadValidatorSet (peerSurroundings [firstPeer 3, secondPeer 1]) "validators.json"
        firstKey = .ok loaded ∧
      Parallel (peerSurroundings [firstPeer 3, secondPeer 1]) firstKey
        { validators := [firstPeer 3, secondPeer 1] } loaded := by
  obtain ⟨loaded, hload⟩ : ∃ loaded,
      loadFile (peerSurroundings [firstPeer 3, secondPeer 1]) "validators.json" firstKey
        { validators := [firstPeer 3, secondPeer 1] } = .ok loaded := ⟨_, rfl⟩
  have hordered : InCanonicalOrder (peerSurroundings [firstPeer 3, secondPeer 1])
      { validators := [firstPeer 3, secondPeer 1] } := by
    rw [InCanonicalOrder]
    decide +kernel
  rw [← peerSurroundings_load] at hload
  obtain ⟨-, hparallel, -⟩ := peerMultiaddrs_parallel_iff _ _ _
    (peerFileBytes [firstPeer 3, secondPeer 1])
    { validators := [firstPeer 3, secondPeer 1] } loaded rfl (if_pos rfl) hload
  exact ⟨loaded, hload, hparallel hordered⟩

/-- The validator with the larger power is listed second: it leads the set with the peer
address of the node, which takes itself for it. -/
theorem peerMultiaddrs_ascending :
    ∃ loaded,
      loadValidatorSet (peerSurroundings [firstPeer 1, secondPeer 3]) "validators.json"
        firstKey = .ok loaded ∧
      loaded.set.validators.map OpenHlValidator.publicKey = [secondKey, firstKey] ∧
      loaded.peerMultiaddrs[0]? = some (firstPeer 1).peerMultiaddr ∧
      loaded.selfIndex = 0 ∧
      ¬ Parallel (peerSurroundings [firstPeer 1, secondPeer 3]) firstKey
        { validators := [firstPeer 1, secondPeer 3] } loaded := by
  obtain ⟨loaded, hload⟩ : ∃ loaded,
      loadFile (peerSurroundings [firstPeer 1, secondPeer 3]) "validators.json" firstKey
        { validators := [firstPeer 1, secondPeer 3] } = .ok loaded := ⟨_, rfl⟩
  have hkeys : loaded.set.validators.map OpenHlValidator.publicKey =
      [secondKey, firstKey] := by
    rw [(loadFile_eq_ok hload).2.1]
    decide +kernel
  have hself : loaded.selfIndex = 0 := by
    cases hload
    rfl
  have haddr : loaded.peerMultiaddrs[0]? = some (firstPeer 1).peerMultiaddr := by
    rw [(loadFile_positions hload).1]
    rfl
  rw [← peerSurroundings_load] at hload
  refine ⟨loaded, hload, hkeys, haddr, hself, fun hparallel => ?_⟩
  obtain ⟨validator, hvalidator, hours⟩ := hparallel.own
  have hfirst := congrArg (·[0]?) hkeys
  rw [hself] at hvalidator
  simp only [List.getElem?_map, hvalidator, Option.map_some, hours] at hfirst
  exact absurd hfirst (by decide +kernel)

end OpenHl.Devnet
