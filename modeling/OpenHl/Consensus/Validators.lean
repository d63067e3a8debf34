import OpenHl.Consensus.Signing
import OpenHl.Core.RoundRobin
import OpenHl.Core.TwoKey

/-!
# Validator sets and proposers

A validator set is kept in descending order of voting power, and of ascending addresses
among equal powers.  The proposer is the validator at the sum of height and round, modulo
the size of the set; the context and the engine application compute it separately.

`proposers_rotate`: nodes whose files list the validators in different orders have the
same set and name the same proposer, and each validator proposes once in as many
consecutive heights as there are validators.
-/

namespace OpenHl.Consensus

open Machine OpenHl.Evm

variable {PublicKey : Type}

structure OpenHlValidator (PublicKey : Type) where
  address : Address
  publicKey : PublicKey
  votingPower : U64
  deriving DecidableEq

/-- Larger power first, then smaller address. -/
def OpenHlValidator.RanksBefore : OpenHlValidator PublicKey → OpenHlValidator PublicKey →
    Prop :=
  TwoKey.RanksBefore OpenHlValidator.votingPower OpenHlValidator.address

instance : DecidableRel (@OpenHlValidator.RanksBefore PublicKey) :=
  inferInstanceAs (DecidableRel (TwoKey.RanksBefore _ _))

instance : Std.Total (@OpenHlValidator.RanksBefore PublicKey) :=
  inferInstanceAs (Std.Total (TwoKey.RanksBefore _ _))

instance : IsTrans (OpenHlValidator PublicKey) OpenHlValidator.RanksBefore :=
  inferInstanceAs (IsTrans _ (TwoKey.RanksBefore _ _))

/-- A set of validators in the canonical order. -/
structure OpenHlValidatorSet (PublicKey : Type) where
  validators : List (OpenHlValidator PublicKey)
  sorted : validators.Pairwise OpenHlValidator.RanksBefore

namespace OpenHlValidatorSet

def new (validators : List (OpenHlValidator PublicKey)) : OpenHlValidatorSet PublicKey :=
  { validators := validators.insertionSort OpenHlValidator.RanksBefore
    sorted := List.pairwise_insertionSort
      (TwoKey.RanksBefore OpenHlValidator.votingPower OpenHlValidator.address) validators }

def count (set : OpenHlValidatorSet PublicKey) : ℕ := set.validators.length

def getByIndex (set : OpenHlValidatorSet PublicKey) (index : ℕ) :
    Option (OpenHlValidator PublicKey) := set.validators[index]?

def totalVotingPower (checks : U64.OverflowChecks) (set : OpenHlValidatorSet PublicKey) :
    Checked U64 :=
  U64.sum checks (set.validators.map OpenHlValidator.votingPower)

end OpenHlValidatorSet

/-- The number of a round as an unsigned word, 0 for nil. -/
def Round.asU64 (round : Round) : U64 := U64.saturate (max (Round.asI64 round).val 0)

/-- The validator whose turn it is; there is none, and the assertion fails, if the set is
empty.  The index type has 64 bits. -/
def selectProposer (validatorSet : OpenHlValidatorSet PublicKey) (height : OpenHlHeight)
    (round : Round) : Option (OpenHlValidator PublicKey) :=
  let count := validatorSet.count
  if count = 0 then none
  else
    let index := (height + Round.asU64 round).val % count
    validatorSet.getByIndex index

/-- The address that a proposer puts into the parts it streams. -/
def selectProposerAddress (validatorSet : OpenHlValidatorSet PublicKey)
    (height : OpenHlHeight) (round : Round) : Option Address :=
  let count := validatorSet.count
  if count = 0 then none
  else
    let index := (height + Round.asU64 round).val % count
    match validatorSet.getByIndex index with
    | none => none
    | some validator => some validator.address

/-! ## The set -/

theorem new_perm (validators : List (OpenHlValidator PublicKey)) :
    (OpenHlValidatorSet.new validators).validators.Perm validators :=
  List.perm_insertionSort _ _

theorem count_new (validators : List (OpenHlValidator PublicKey)) :
    (OpenHlValidatorSet.new validators).count = validators.length :=
  (new_perm validators).length_eq

theorem new_eq_of_perm {left right : List (OpenHlValidator PublicKey)}
    (hperm : left.Perm right) (hdistinct : (left.map OpenHlValidator.address).Nodup) :
    OpenHlValidatorSet.new left = OpenHlValidatorSet.new right := by
  have hsorted : left.insertionSort OpenHlValidator.RanksBefore =
      right.insertionSort OpenHlValidator.RanksBefore :=
    TwoKey.insertionSort_eq_of_perm hperm hdistinct
  simp only [OpenHlValidatorSet.new, hsorted]

/-- With and without overflow checks the sum is right exactly if it is a word. -/
theorem totalVotingPower_exact_iff (checks : U64.OverflowChecks)
    (set : OpenHlValidatorSet PublicKey) :
    (∃ total, set.totalVotingPower checks = .ok total ∧
        total.val = (set.validators.map fun validator => validator.votingPower.val).sum) ↔
      (set.validators.map fun validator => validator.votingPower.val).sum < 2 ^ 64 := by
  have hexact := U64.sum_exact_iff checks
    (set.validators.map OpenHlValidator.votingPower)
  rw [List.map_map] at hexact
  exact hexact

/-! ## The proposer -/

theorem selectProposerAddress_eq (set : OpenHlValidatorSet PublicKey)
    (height : OpenHlHeight) (round : Round) :
    selectProposerAddress set height round =
      (selectProposer set height round).map OpenHlValidator.address := by
  simp only [selectProposerAddress, selectProposer]
  split_ifs
  · rfl
  · cases set.getByIndex _ with
    | none => rfl
    | some validator => rfl

theorem selectProposer_new {validators : List (OpenHlValidator PublicKey)}
    (hnonempty : validators ≠ []) (height : OpenHlHeight) (round : Round) :
    selectProposer (.new validators) height round =
      (OpenHlValidatorSet.new validators).validators[
        (height + Round.asU64 round).val %
          (OpenHlValidatorSet.new validators).validators.length]? := by
  have hcount : (OpenHlValidatorSet.new validators).count ≠ 0 := by
    rw [count_new]
    simpa using hnonempty
  rw [selectProposer, if_neg hcount]
  rfl

theorem selectProposer_mem {validators : List (OpenHlValidator PublicKey)}
    (hnonempty : validators ≠ []) (height : OpenHlHeight) (round : Round) :
    ∃ validator ∈ validators,
      selectProposer (.new validators) height round = some validator := by
  have hpositive : 0 < (OpenHlValidatorSet.new validators).validators.length := by
    rw [(new_perm validators).length_eq]
    exact List.length_pos_iff.2 hnonempty
  rw [selectProposer_new hnonempty]
  refine ⟨_, (new_perm validators).mem_iff.1 (List.getElem_mem _),
    List.getElem?_eq_getElem (Nat.mod_lt _ hpositive)⟩

/-- Where the sum of height and round does not wrap, heights are turns. -/
theorem existsUnique_height {validators : List (OpenHlValidator PublicKey)}
    (hdistinct : (validators.map OpenHlValidator.address).Nodup)
    {validator : OpenHlValidator PublicKey} (hmem : validator ∈ validators)
    (start : OpenHlHeight) (round : Round)
    (hwindow : start.val + validators.length + (Round.asU64 round).val ≤ 2 ^ 64) :
    ∃! height : OpenHlHeight,
      (start ≤ height ∧ height.val < start.val + validators.length) ∧
        selectProposer (.new validators) height round = some validator := by
  have hnodup : (OpenHlValidatorSet.new validators).validators.Nodup :=
    (new_perm validators).nodup_iff.2 hdistinct.of_map
  have hlength := (new_perm validators).length_eq
  obtain ⟨turn, ⟨⟨hlower, hupper⟩, hturn⟩, hunique⟩ :=
    RoundRobin.existsUnique_turn hnodup ((new_perm validators).mem_iff.2 hmem)
      (start.val + (Round.asU64 round).val)
  have hnonempty := List.ne_nil_of_mem hmem
  have hsum : ∀ height : OpenHlHeight, height.val < start.val + validators.length →
      (height + Round.asU64 round).val = height.val + (Round.asU64 round).val := by
    intro height hheight
    rw [Fin.val_add_eq_of_add_lt]
    omega
  have hheight : turn - (Round.asU64 round).val < 2 ^ 64 := by omega
  refine ⟨⟨turn - (Round.asU64 round).val, hheight⟩, ⟨⟨?_, ?_⟩, ?_⟩, ?_⟩
  · rw [Fin.le_def]
    change start.val ≤ turn - (Round.asU64 round).val
    omega
  · change turn - (Round.asU64 round).val < start.val + validators.length
    omega
  · rw [selectProposer_new hnonempty, hsum]
    · rw [Nat.sub_add_cancel (by omega)]
      exact hturn
    · change turn - (Round.asU64 round).val < start.val + validators.length
      omega
  · rintro height ⟨⟨hlower', hupper'⟩, hheight'⟩
    rw [selectProposer_new hnonempty, hsum height hupper'] at hheight'
    rw [Fin.le_def] at hlower'
    have hsame := hunique _ ⟨⟨by omega, by omega⟩, hheight'⟩
    apply Fin.ext
    change height.val = turn - (Round.asU64 round).val
    omega

/-- For validators with different addresses, in whatever order a node lists them: the set
is the same, the context and the engine application name the same proposer on every node,
one of the validators if there is any, and over as many consecutive heights as there are
validators, at any round, every validator proposes exactly once. -/
theorem proposers_rotate (validators listed : List (OpenHlValidator PublicKey))
    (hperm : listed.Perm validators)
    (hdistinct : (validators.map OpenHlValidator.address).Nodup) :
    OpenHlValidatorSet.new listed = OpenHlValidatorSet.new validators ∧
    (∀ height round,
      selectProposer (.new listed) height round =
        selectProposer (.new validators) height round ∧
      selectProposerAddress (.new listed) height round =
        (selectProposer (.new validators) height round).map OpenHlValidator.address ∧
      (validators ≠ [] → ∃ validator ∈ validators,
        selectProposer (.new validators) height round = some validator)) ∧
    (∀ (start : OpenHlHeight) (round : Round),
      start.val + validators.length + (Round.asU64 round).val ≤ 2 ^ 64 →
      ∀ validator ∈ validators, ∃! height : OpenHlHeight,
        (start ≤ height ∧ height.val < start.val + validators.length) ∧
          selectProposer (.new validators) height round = some validator) := by
  have hset : OpenHlValidatorSet.new listed = OpenHlValidatorSet.new validators :=
    (new_eq_of_perm hperm.symm hdistinct).symm
  refine ⟨hset, ?_, ?_⟩
  · intro height round
    rw [hset]
    exact ⟨rfl, selectProposerAddress_eq _ height round,
      fun hnonempty => selectProposer_mem hnonempty height round⟩
  · intro start round hwindow validator hmem
    exact existsUnique_height hdistinct hmem start round hwindow

/-- Three validators, one of them with more power. -/
def threeValidators : List (OpenHlValidator U8) :=
  [{ address := 30, publicKey := 0, votingPower := 1 },
    { address := 10, publicKey := 1, votingPower := 1 },
    { address := 20, publicKey := 2, votingPower := 5 }]

/-- Listed in reverse they are the same set, and the first one proposes at one of the
heights 5, 6 and 7. -/
theorem proposers_rotate_threeValidators :
    OpenHlValidatorSet.new threeValidators.reverse = .new threeValidators ∧
      ∃! height : OpenHlHeight, ((5 : OpenHlHeight) ≤ height ∧
          height.val < (5 : OpenHlHeight).val + threeValidators.length) ∧
        selectProposer (.new threeValidators) height none =
          some { address := 30, publicKey := 0, votingPower := 1 } := by
  obtain ⟨hset, -, hrotate⟩ := proposers_rotate threeValidators threeValidators.reverse
    (List.reverse_perm _) (by decide)
  exact ⟨hset, hrotate 5 none (by decide) _ List.mem_cons_self⟩

end OpenHl.Consensus
