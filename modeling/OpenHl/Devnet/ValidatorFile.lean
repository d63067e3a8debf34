import OpenHl.Consensus.Validators

/-!
# Loading the validator set

`load_validator_set` of the binary: the entries of a file are read one after the other,
and the file is refused at the first one that is malformed, has no power, or repeats the
key of the node.  Other keys may be repeated, and the sum of the powers is not looked at.

`loadValidatorSet_sound_iff`: the accepted files whose set has every key once and a sum of
powers that is a word.
-/

namespace OpenHl.Devnet

open Machine OpenHl.Evm OpenHl.Consensus

/-- The 32 bytes of a public key. -/
abbrev ValidatorKey := Vector U8 32

structure ValidatorEntry where
  pubkeyHex : String
  votingPower : U64
  peerMultiaddr : Option String
  deriving DecidableEq

structure ValidatorSetFile where
  validators : List ValidatorEntry
  deriving DecidableEq

/-- `peerMultiaddrs` and `selfIndex` are in the order of the file. -/
structure LoadedValidatorSet where
  set : OpenHlValidatorSet ValidatorKey
  peerMultiaddrs : List (Option String)
  selfIndex : ℕ

/-- What the loader uses from outside: the file system, the JSON and hex decoders, the
check that bytes are a point of the curve, and the hash. -/
structure LoaderEnv where
  readFile : String → Except String (List U8)
  fromSlice : List U8 → Except String ValidatorSetFile
  hexDecode : String → Except String (List U8)
  verificationKey : ValidatorKey → Except String Unit
  sha256 : List U8 → Vector U8 32

variable (env : LoaderEnv) (path : String) (ourKey : ValidatorKey)

/-- The last 20 bytes of the hash of a key. -/
def addressOf (key : ValidatorKey) : Address :=
  Fin.ofNat _ (BigEndian.ofBytes ((env.sha256 key.toList).toList.drop 12))

/-- The checks of one entry, up to its public key. -/
def parseEntry (entry : ValidatorEntry) : Except String ValidatorKey :=
  if entry.votingPower = 0 then
    .error s!"validator with pubkey_hex={entry.pubkeyHex} has voting_power=0; must be > 0"
  else
    match env.hexDecode entry.pubkeyHex with
    | .error failure => .error s!"invalid hex in pubkey_hex={entry.pubkeyHex}: {failure}"
    | .ok raw =>
        if hlength : raw.length = 32 then
          let key : ValidatorKey := ⟨raw.toArray, by rw [List.size_toArray, hlength]⟩
          match env.verificationKey key with
          | .error failure =>
              .error (s!"pubkey_hex={entry.pubkeyHex} is not a valid Ed25519 public key: " ++
                failure)
          | .ok () => .ok key
        else .error s!"pubkey_hex must decode to 32 bytes, got {raw.length}"

structure Loading where
  selfIndex : Option ℕ
  built : List (OpenHlValidator ValidatorKey)
  peerMultiaddrs : List (Option String)

/-- One entry: its key is compared with the key of the node only. -/
def loadEntry (idx : ℕ) (loading : Loading) (entry : ValidatorEntry) :
    Except String Loading :=
  match parseEntry env entry with
  | .error failure => .error failure
  | .ok key =>
      let next : Loading :=
        { selfIndex := if key = ourKey then some idx else loading.selfIndex
          built := loading.built ++
            [{ address := addressOf env key, publicKey := key
               votingPower := entry.votingPower }]
          peerMultiaddrs := loading.peerMultiaddrs ++ [entry.peerMultiaddr] }
      match loading.selfIndex with
      | some prior =>
          if key = ourKey then
            .error (s!"validator set at {path} lists our public key twice " ++
              s!"(positions {prior} and {idx})")
          else .ok next
      | none => .ok next

def loadEntries : List ValidatorEntry → ℕ → Loading → Except String Loading
  | [], _, loading => .ok loading
  | entry :: entries, idx, loading =>
      match loadEntry env path ourKey idx loading entry with
      | .error failure => .error failure
      | .ok next => loadEntries entries (idx + 1) next

/-- The loader after the file is parsed. -/
def loadFile (file : ValidatorSetFile) : Except String LoadedValidatorSet :=
  if file.validators.isEmpty then .error s!"validator set at {path} is empty"
  else
    match loadEntries env path ourKey file.validators 0
        { selfIndex := none, built := [], peerMultiaddrs := [] } with
    | .error failure => .error failure
    | .ok loading =>
        match loading.selfIndex with
        | none =>
            .error (s!"loaded validator key's public key does not appear in {path}; " ++
              "refusing to start (won't sign as an unrecognized identity)")
        | some selfIndex =>
            .ok { set := .new loading.built, peerMultiaddrs := loading.peerMultiaddrs
                  selfIndex := selfIndex }

def loadValidatorSet : Except String LoadedValidatorSet :=
  match env.readFile path with
  | .error failure => .error s!"failed to read validator set at {path}: {failure}"
  | .ok bytes =>
      match env.fromSlice bytes with
      | .error failure => .error s!"malformed validator set at {path}: {failure}"
      | .ok file => loadFile env path ourKey file

/-! ## What an accepted file has -/

/-- The key of an entry that passes the checks. -/
def entryKey? (entry : ValidatorEntry) : Option ValidatorKey :=
  (parseEntry env entry).toOption

/-- The validator of an entry that passes the checks. -/
def entryValidator? (entry : ValidatorEntry) : Option (OpenHlValidator ValidatorKey) :=
  (entryKey? env entry).map fun key =>
    { address := addressOf env key, publicKey := key, votingPower := entry.votingPower }

/-- The keys that the file lists. -/
def listedKeys (file : ValidatorSetFile) : List ValidatorKey :=
  file.validators.filterMap (entryKey? env)

theorem entryKey?_eq_some {entry : ValidatorEntry} {key : ValidatorKey}
    (hparse : parseEntry env entry = .ok key) : entryKey? env entry = some key := by
  rw [entryKey?, hparse]
  rfl

theorem votingPower_pos_of_parseEntry {entry : ValidatorEntry} {key : ValidatorKey}
    (hparse : parseEntry env entry = .ok key) : 0 < entry.votingPower := by
  rw [parseEntry] at hparse
  split_ifs at hparse with hzero
  exact Fin.pos_of_ne_zero hzero

variable {env path ourKey}

/-- An entry that is accepted is appended; the key of the node is noted, and was not
noted before. -/
theorem loadEntry_eq_ok {idx : ℕ} {loading next : Loading} {entry : ValidatorEntry}
    (hload : loadEntry env path ourKey idx loading entry = .ok next) :
    ∃ key, parseEntry env entry = .ok key ∧
      next.built = loading.built ++
        [{ address := addressOf env key, publicKey := key
           votingPower := entry.votingPower }] ∧
      next.peerMultiaddrs = loading.peerMultiaddrs ++ [entry.peerMultiaddr] ∧
      (if key = ourKey then loading.selfIndex = none ∧ next.selfIndex = some idx
        else next.selfIndex = loading.selfIndex) := by
  rw [loadEntry] at hload
  cases hparse : parseEntry env entry with
  | error failure => simp [hparse] at hload
  | ok key =>
      simp only [hparse] at hload
      cases hself : loading.selfIndex with
      | none =>
          simp only [hself] at hload
          obtain rfl := Except.ok.inj hload
          refine ⟨key, rfl, rfl, rfl, ?_⟩
          split_ifs with hours
          · exact ⟨rfl, rfl⟩
          · rfl
      | some prior =>
          simp only [hself] at hload
          split_ifs at hload with hours
          obtain rfl := Except.ok.inj hload
          refine ⟨key, rfl, rfl, rfl, ?_⟩
          rw [if_neg hours]

/-- 1 for a noted position. -/
def noted (selfIndex : Option ℕ) : ℕ := if selfIndex.isSome then 1 else 0

/-- An accepted list of entries: every entry passes the checks, its validator is built,
and the key of the node is listed as often as it is noted. -/
theorem loadEntries_eq_ok {entries : List ValidatorEntry} {idx : ℕ}
    {loading final : Loading}
    (hload : loadEntries env path ourKey entries idx loading = .ok final) :
    (∀ entry ∈ entries, (entryKey? env entry).isSome ∧ 0 < entry.votingPower) ∧
    final.built = loading.built ++ entries.filterMap (entryValidator? env) ∧
    noted loading.selfIndex + (entries.filterMap (entryKey? env)).count ourKey =
      noted final.selfIndex := by
  induction entries generalizing idx loading with
  | nil =>
      obtain rfl := Except.ok.inj hload
      simp
  | cons entry entries ih =>
      rw [loadEntries] at hload
      cases hentry : loadEntry env path ourKey idx loading entry with
      | error failure => simp [hentry] at hload
      | ok next =>
          simp only [hentry] at hload
          obtain ⟨hrest, hbuilt, hcount⟩ := ih hload
          obtain ⟨key, hparse, hnext, -, hself⟩ := loadEntry_eq_ok hentry
          have hkey := entryKey?_eq_some env hparse
          refine ⟨?_, ?_, ?_⟩
          · rw [List.forall_mem_cons]
            exact ⟨⟨by simp [hkey], votingPower_pos_of_parseEntry env hparse⟩, hrest⟩
          · rw [hbuilt, hnext, List.filterMap_cons, entryValidator?, hkey]
            simp
          · rw [← hcount, List.filterMap_cons, hkey, List.count_cons]
            split_ifs at hself with hours
            · obtain ⟨hnone, hsome⟩ := hself
              simp [hours, hnone, hsome, noted]
              omega
            · simp [hours, hself]

/-- A field of the built validators that depends on the key alone. -/
theorem map_filterMap_entryValidator {β : Type} (field : OpenHlValidator ValidatorKey → β)
    (ofKey : ValidatorKey → β)
    (hfield : ∀ key power, field
      { address := addressOf env key, publicKey := key, votingPower := power } = ofKey key)
    (entries : List ValidatorEntry) :
    (entries.filterMap (entryValidator? env)).map field =
      (entries.filterMap (entryKey? env)).map ofKey := by
  rw [List.map_filterMap, List.map_filterMap]
  congr 1
  funext entry
  simp [entryValidator?, Function.comp_def, hfield]

/-- Where every entry passes the checks, the powers are those of the file. -/
theorem map_votingPower_filterMap {entries : List ValidatorEntry}
    (hentries : ∀ entry ∈ entries, (entryKey? env entry).isSome) :
    (entries.filterMap (entryValidator? env)).map OpenHlValidator.votingPower =
      entries.map ValidatorEntry.votingPower := by
  induction entries with
  | nil => rfl
  | cons entry entries ih =>
      obtain ⟨key, hkey⟩ := Option.isSome_iff_exists.1 (hentries entry List.mem_cons_self)
      have hrest := ih fun other hother => hentries other (List.mem_cons_of_mem _ hother)
      simp [entryValidator?, hkey, ← hrest]

/-- An accepted file is loaded to its end, and the node is found in it. -/
theorem loadFile_cases {file : ValidatorSetFile} {loaded : LoadedValidatorSet}
    (hload : loadFile env path ourKey file = .ok loaded) :
    ∃ loading selfIndex, loadEntries env path ourKey file.validators 0
        { selfIndex := none, built := [], peerMultiaddrs := [] } = .ok loading ∧
      loading.selfIndex = some selfIndex ∧
      loaded = { set := .new loading.built, peerMultiaddrs := loading.peerMultiaddrs
                 selfIndex := selfIndex } := by
  rw [loadFile] at hload
  split_ifs at hload
  cases hentries : loadEntries env path ourKey file.validators 0
      { selfIndex := none, built := [], peerMultiaddrs := [] } with
  | error failure => simp [hentries] at hload
  | ok loading =>
      simp only [hentries] at hload
      cases hself : loading.selfIndex with
      | none => simp [hself] at hload
      | some selfIndex =>
          simp only [hself] at hload
          exact ⟨loading, selfIndex, rfl, hself, (Except.ok.inj hload).symm⟩

/-- The validators of an accepted file: the key of the node is listed once, all powers are
positive, and the set consists of the entries. -/
theorem loadFile_eq_ok {file : ValidatorSetFile} {loaded : LoadedValidatorSet}
    (hload : loadFile env path ourKey file = .ok loaded) :
    (∀ entry ∈ file.validators, (entryKey? env entry).isSome ∧ 0 < entry.votingPower) ∧
    loaded.set = .new (file.validators.filterMap (entryValidator? env)) ∧
    (listedKeys env file).count ourKey = 1 := by
  obtain ⟨loading, selfIndex, hentries, hself, rfl⟩ := loadFile_cases hload
  obtain ⟨hall, hbuilt, hcount⟩ := loadEntries_eq_ok hentries
  refine ⟨hall, ?_, ?_⟩
  · rw [hbuilt]
    rfl
  · rw [hself] at hcount
    simpa [noted, listedKeys] using hcount

theorem loadValidatorSet_eq_loadFile {bytes : List U8} {file : ValidatorSetFile}
    (hread : env.readFile path = .ok bytes) (hparse : env.fromSlice bytes = .ok file) :
    loadValidatorSet env path ourKey = loadFile env path ourKey file := by
  rw [loadValidatorSet, hread]
  dsimp only
  rw [hparse]

/-! ## Sets without repetitions -/

/-- The node is in the set once, no two validators share an address, every validator has
power, and the sum of the powers is computed without overflow. -/
structure SoundSet (ourKey : ValidatorKey) (set : OpenHlValidatorSet ValidatorKey) :
    Prop where
  own : (set.validators.map OpenHlValidator.publicKey).count ourKey = 1
  addresses : (set.validators.map OpenHlValidator.address).Nodup
  powers : ∀ validator ∈ set.validators, 0 < validator.votingPower
  total : ∀ checks, ∃ total, set.totalVotingPower checks = .ok total ∧
    total.val = (set.validators.map fun validator => validator.votingPower.val).sum

/-- The file lists no other key twice, no two of its keys hash to one address, and its
powers add up to a word. -/
structure Unambiguous (env : LoaderEnv) (ourKey : ValidatorKey) (file : ValidatorSetFile) :
    Prop where
  keys : ((listedKeys env file).filter (· ≠ ourKey)).Nodup
  addresses : ∀ first ∈ listedKeys env file, ∀ second ∈ listedKeys env file,
    addressOf env first = addressOf env second → first = second
  power : (file.validators.map fun entry => entry.votingPower.val).sum < 2 ^ 64

/-- A list in which one item occurs once has no repetitions if the rest has none. -/
theorem nodup_iff_filter_nodup {keys : List ValidatorKey} {key : ValidatorKey}
    (honce : keys.count key = 1) : keys.Nodup ↔ (keys.filter (· ≠ key)).Nodup := by
  constructor
  · intro hnodup
    exact hnodup.filter _
  · intro hothers
    rw [List.nodup_iff_count_le_one] at hothers ⊢
    intro other
    by_cases hother : other = key
    · rw [hother, honce]
    · have hcount := hothers other
      rwa [List.count_filter (by simpa using hother)] at hcount

theorem nodup_map_addressOf_iff {file : ValidatorSetFile}
    (honce : (listedKeys env file).count ourKey = 1) :
    ((listedKeys env file).map (addressOf env)).Nodup ↔
      ((listedKeys env file).filter (· ≠ ourKey)).Nodup ∧
      ∀ first ∈ listedKeys env file, ∀ second ∈ listedKeys env file,
        addressOf env first = addressOf env second → first = second := by
  rw [← nodup_iff_filter_nodup honce]
  constructor
  · intro hnodup
    exact ⟨hnodup.of_map, fun first hfirst second hsecond =>
      List.inj_on_of_nodup_map hnodup hfirst hsecond⟩
  · rintro ⟨hnodup, hinjective⟩
    exact hnodup.map_on hinjective

/-- The set of an accepted file has the node exactly once and positive powers only.  It
has different addresses and a sum of powers that does not overflow exactly if the file
lists no other key twice, its keys do not collide, and its powers add up to a word. -/
theorem loadValidatorSet_sound_iff (env : LoaderEnv) (path : String)
    (ourKey : ValidatorKey) (bytes : List U8) (file : ValidatorSetFile)
    (loaded : LoadedValidatorSet) (hread : env.readFile path = .ok bytes)
    (hparse : env.fromSlice bytes = .ok file)
    (hload : loadValidatorSet env path ourKey = .ok loaded) :
    (loaded.set.validators.map OpenHlValidator.publicKey).count ourKey = 1 ∧
    (∀ validator ∈ loaded.set.validators, 0 < validator.votingPower) ∧
    (SoundSet ourKey loaded.set ↔ Unambiguous env ourKey file) := by
  rw [loadValidatorSet_eq_loadFile hread hparse] at hload
  obtain ⟨hall, hset, honce⟩ := loadFile_eq_ok hload
  have hperm := new_perm (file.validators.filterMap (entryValidator? env))
  rw [← hset] at hperm
  have hown : (loaded.set.validators.map OpenHlValidator.publicKey).count ourKey = 1 := by
    rw [(hperm.map _).count_eq, map_filterMap_entryValidator _ id fun _ _ => rfl,
      List.map_id]
    exact honce
  have hpowers : ∀ validator ∈ loaded.set.validators, 0 < validator.votingPower := by
    intro validator hvalidator
    have hlisted : validator.votingPower ∈ file.validators.map ValidatorEntry.votingPower := by
      rw [← map_votingPower_filterMap fun entry hentry => (hall entry hentry).1]
      exact List.mem_map_of_mem (hperm.mem_iff.1 hvalidator)
    obtain ⟨entry, hentry, hpower⟩ := List.mem_map.1 hlisted
    rw [← hpower]
    exact (hall entry hentry).2
  have haddresses : (loaded.set.validators.map OpenHlValidator.address).Nodup ↔
      ((listedKeys env file).map (addressOf env)).Nodup := by
    rw [(hperm.map _).nodup_iff,
      map_filterMap_entryValidator _ (addressOf env) fun _ _ => rfl]
    rfl
  have htotal : ∀ checks, (∃ total, loaded.set.totalVotingPower checks = .ok total ∧
        total.val =
          (loaded.set.validators.map fun validator => validator.votingPower.val).sum) ↔
      (file.validators.map fun entry => entry.votingPower.val).sum < 2 ^ 64 := by
    have hsame := congrArg (List.map Fin.val) (map_votingPower_filterMap
      fun entry hentry => (hall entry hentry).1)
    rw [List.map_map, List.map_map] at hsame
    intro checks
    rw [totalVotingPower_exact_iff, (hperm.map _).sum_eq]
    exact iff_of_eq (congrArg (fun powers : List ℕ => powers.sum < 2 ^ 64) hsame)
  rw [nodup_map_addressOf_iff honce] at haddresses
  refine ⟨hown, hpowers, ?_, ?_⟩
  · intro hsound
    obtain ⟨hkeys, hinjective⟩ := haddresses.1 hsound.addresses
    exact ⟨hkeys, hinjective, (htotal .on).1 (hsound.total .on)⟩
  · intro hfile
    exact ⟨hown, haddresses.2 ⟨hfile.keys, hfile.addresses⟩, hpowers,
      fun checks => (htotal checks).2 hfile.power⟩

/-- Two public keys and their hashes. -/
def firstKey : ValidatorKey :=
  #v[215, 90, 152, 1, 130, 177, 10, 183, 213, 75, 254, 211, 201, 100, 7, 58,
     14, 225, 114, 243, 218, 166, 35, 37, 175, 2, 26, 104, 247, 7, 81, 26]

def firstHash : Vector U8 32 :=
  #v[33, 254, 49, 223, 161, 84, 162, 97, 98, 107, 248, 84, 4, 111, 210, 39,
     27, 123, 237, 75, 106, 190, 69, 170, 88, 135, 126, 244, 127, 151, 33, 185]

def secondKey : ValidatorKey :=
  #v[61, 64, 23, 195, 232, 67, 137, 90, 146, 183, 10, 167, 77, 27, 126, 188,
     156, 152, 44, 207, 46, 196, 150, 140, 192, 205, 85, 241, 42, 244, 102, 12]

def secondHash : Vector U8 32 :=
  #v[57, 247, 19, 208, 166, 68, 37, 63, 4, 82, 148, 33, 185, 245, 27, 155,
     8, 151, 157, 8, 41, 89, 89, 196, 243, 153, 14, 230, 23, 245, 19, 159]

def firstEntry : ValidatorEntry :=
  { pubkeyHex := "d75a980182b10ab7d54bfed3c964073a0ee172f3daa62325af021a68f707511a"
    votingPower := 1, peerMultiaddr := none }

def secondEntry : ValidatorEntry :=
  { pubkeyHex := "3d4017c3e843895a92b70aa74d1b7ebc9c982ccf2ec4968cc0cd55f12af4660c"
    votingPower := 1, peerMultiaddr := none }

/-- The text of a file with entries that have no peer address. -/
def fileText (entries : List ValidatorEntry) : String :=
  let entryText := fun entry : ValidatorEntry =>
    "\x7b\"pubkey_hex\":\"" ++ entry.pubkeyHex ++ "\",\"voting_power\":" ++
      toString entry.votingPower.val ++ "\x7d"
  "\x7b\"validators\":[" ++ ",".intercalate (entries.map entryText) ++ "]\x7d"

def fileBytes (entries : List ValidatorEntry) : List U8 :=
  (fileText entries).toUTF8.toList.map fun byte => ⟨byte.toNat, byte.toNat_lt⟩

/-- The surroundings of a node whose file has the given entries. -/
def surroundings (entries : List ValidatorEntry) : LoaderEnv where
  readFile _ := .ok (fileBytes entries)
  fromSlice bytes :=
    if bytes = fileBytes entries then .ok { validators := entries }
    else .error "expected value at line 1 column 1"
  hexDecode text :=
    if text = firstEntry.pubkeyHex then .ok firstKey.toList
    else if text = secondEntry.pubkeyHex then .ok secondKey.toList
    else .error "Invalid string length"
  verificationKey _ := .ok ()
  sha256 bytes := if bytes = firstKey.toList then firstHash else secondHash

theorem surroundings_load (entries : List ValidatorEntry) (path : String)
    (ourKey : ValidatorKey) :
    loadValidatorSet (surroundings entries) path ourKey =
      loadFile (surroundings entries) path ourKey { validators := entries } :=
  loadValidatorSet_eq_loadFile rfl (if_pos rfl)

/-- A file with both keys. -/
theorem loadValidatorSet_sound_iff_bothKeys :
    ∃ loaded,
      loadValidatorSet (surroundings [firstEntry, secondEntry]) "validators.json" firstKey =
        .ok loaded ∧ SoundSet firstKey loaded.set := by
  have hload : ∃ loaded, loadFile (surroundings [firstEntry, secondEntry])
      "validators.json" firstKey { validators := [firstEntry, secondEntry] } =
        .ok loaded := ⟨_, rfl⟩
  obtain ⟨loaded, hload⟩ := hload
  rw [← surroundings_load] at hload
  have haddresses : ((listedKeys (surroundings [firstEntry, secondEntry])
      { validators := [firstEntry, secondEntry] }).map
        (addressOf (surroundings [firstEntry, secondEntry]))).Nodup := by
    decide +kernel
  obtain ⟨-, -, hsound⟩ := loadValidatorSet_sound_iff _ _ _
    (fileBytes [firstEntry, secondEntry]) { validators := [firstEntry, secondEntry] }
    loaded rfl (if_pos rfl) hload
  refine ⟨loaded, hload, hsound.2 ⟨?_, ?_, ?_⟩⟩
  · decide +kernel
  · exact fun first hfirst second hsecond =>
      List.inj_on_of_nodup_map haddresses hfirst hsecond
  · decide +kernel

def largeEntry : ValidatorEntry := { firstEntry with votingPower := U64.maxValue }

/-- A file that lists the second key twice and a file with the largest power and 1 are
accepted; the first set has an address twice, and the sum of the second overflows, or is 0
without overflow checks. -/
theorem loadValidatorSet_accepts_repetition :
    (∃ loaded, loadValidatorSet (surroundings [firstEntry, secondEntry, secondEntry])
        "validators.json" firstKey = .ok loaded ∧
      ¬ (loaded.set.validators.map OpenHlValidator.address).Nodup ∧
      ¬ SoundSet firstKey loaded.set) ∧
    (∃ loaded, loadValidatorSet (surroundings [largeEntry, secondEntry])
        "validators.json" firstKey = .ok loaded ∧
      loaded.set.totalVotingPower .on = .error .overflow ∧
      loaded.set.totalVotingPower .off = .ok 0 ∧
      ¬ SoundSet firstKey loaded.set) := by
  constructor
  · have hload : ∃ loaded, loadFile (surroundings [firstEntry, secondEntry, secondEntry])
        "validators.json" firstKey { validators := [firstEntry, secondEntry, secondEntry] } =
          .ok loaded := ⟨_, rfl⟩
    obtain ⟨loaded, hload⟩ := hload
    have hrepeated : ¬ (loaded.set.validators.map OpenHlValidator.address).Nodup := by
      rw [(loadFile_eq_ok hload).2.1]
      decide +kernel
    rw [← surroundings_load] at hload
    exact ⟨loaded, hload, hrepeated, fun hsound => hrepeated hsound.addresses⟩
  · have hload : ∃ loaded, loadFile (surroundings [largeEntry, secondEntry])
        "validators.json" firstKey { validators := [largeEntry, secondEntry] } =
          .ok loaded := ⟨_, rfl⟩
    obtain ⟨loaded, hload⟩ := hload
    have hoverflow : loaded.set.totalVotingPower .on = .error .overflow := by
      rw [(loadFile_eq_ok hload).2.1]
      decide +kernel
    have hwraps : loaded.set.totalVotingPower .off = .ok 0 := by
      rw [(loadFile_eq_ok hload).2.1]
      decide +kernel
    rw [← surroundings_load] at hload
    refine ⟨loaded, hload, hoverflow, hwraps, fun hsound => ?_⟩
    obtain ⟨total, htotal, -⟩ := hsound.total .on
    rw [hoverflow] at htotal
    cases htotal

end OpenHl.Devnet
