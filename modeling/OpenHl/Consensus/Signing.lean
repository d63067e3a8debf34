import OpenHl.Consensus.EngineApp
import OpenHl.Core.Framing

/-!
# The bytes a validator signs

Votes and proposals are signed over a concatenation of their fields, without length
prefixes and without a tag that tells a vote from a proposal.  The only field of varying
width is the value of a vote, and a byte in front of it tells whether there is one.

`signingBytes_injective`: the bytes tell the message, and whether it is a vote.
-/

namespace OpenHl.Consensus

open Machine OpenHl.Evm

inductive VoteType where
  | prevote
  | precommit
  deriving DecidableEq

abbrev NilOrVal (V : Type) := Option V

structure OpenHlVote where
  height : OpenHlHeight
  round : Round
  valueId : NilOrVal BlockHash
  voteType : VoteType
  address : Address
  deriving DecidableEq

structure OpenHlProposal where
  height : OpenHlHeight
  round : Round
  value : BlockHash
  polRound : Round
  address : Address
  deriving DecidableEq

/-- The number of a round, -1 for nil. -/
def Round.asI64 : Round → I64
  | none => -1
  | some number => .saturate number.val

def VoteType.tag : VoteType → U8
  | .prevote => 0
  | .precommit => 1

/-! ## Fields -/

def heightBytes (height : OpenHlHeight) : List U8 := LittleEndian.toBytes 8 height.val

def roundBytes (round : Round) : List U8 :=
  LittleEndian.toBytes 8 (BigEndian.bitsOf (Round.asI64 round)).val

def hashBytes (hash : BlockHash) : List U8 := BigEndian.toBytes 32 hash.val

def addressBytes (address : Address) : List U8 := BigEndian.toBytes 20 address.val

/-- What the signature of a vote commits to. -/
def voteSigningBytes (vote : OpenHlVote) : List U8 :=
  heightBytes vote.height ++ (roundBytes vote.round ++ ([vote.voteType.tag] ++
    (Framing.tagged hashBytes vote.valueId ++ addressBytes vote.address)))

/-- What the signature of a proposal commits to. -/
def proposalSigningBytes (proposal : OpenHlProposal) : List U8 :=
  heightBytes proposal.height ++ (roundBytes proposal.round ++
    (hashBytes proposal.value ++ (roundBytes proposal.polRound ++
      addressBytes proposal.address)))

@[simp]
theorem asI64_none_val : (Round.asI64 none).val = -1 := rfl

@[simp]
theorem asI64_some_val (number : U32) : (Round.asI64 (some number)).val = number.val := by
  have hnumber := number.isLt
  exact I64.saturate_val_of_inI64 ⟨by omega, by omega⟩

theorem asI64_injective : Function.Injective Round.asI64 := by
  intro left right heq
  have hval := congrArg I64.val heq
  cases left with
  | none =>
      cases right with
      | none => rfl
      | some number =>
          rw [asI64_none_val, asI64_some_val] at hval
          omega
  | some number =>
      cases right with
      | none =>
          rw [asI64_none_val, asI64_some_val] at hval
          omega
      | some number' =>
          rw [asI64_some_val, asI64_some_val] at hval
          exact congrArg some (Fin.ext (by exact_mod_cast hval))

theorem bitsOf_injective : Function.Injective BigEndian.bitsOf := by
  intro left right heq
  have hread := congrArg (fun word : U64 => BigEndian.readI64 (BigEndian.toBytes 8 word.val))
    heq
  simpa using hread

theorem heightBytes_prefixFree : Framing.PrefixFree heightBytes :=
  Framing.prefixFree_littleEndian (by norm_num)

theorem roundBytes_prefixFree : Framing.PrefixFree roundBytes :=
  heightBytes_prefixFree.comp (bitsOf_injective.comp asI64_injective)

theorem hashBytes_prefixFree : Framing.PrefixFree hashBytes :=
  Framing.prefixFree_bigEndian (by norm_num)

theorem addressBytes_prefixFree : Framing.PrefixFree addressBytes :=
  Framing.prefixFree_bigEndian (by norm_num)

theorem voteTag_prefixFree :
    Framing.PrefixFree fun voteType : VoteType => [voteType.tag] := by
  have hlength : ∀ voteType : VoteType, [voteType.tag].length = 1 := fun _ => rfl
  apply Framing.prefixFree_of_length hlength
  intro left right heq
  cases left with
  | prevote =>
      cases right with
      | prevote => rfl
      | precommit => exact absurd heq (by decide)
  | precommit =>
      cases right with
      | prevote => exact absurd heq (by decide)
      | precommit => rfl

/-! ## Messages -/

theorem voteSigningBytes_injective : Function.Injective voteSigningBytes := by
  have hfields := heightBytes_prefixFree.pair (roundBytes_prefixFree.pair
    (voteTag_prefixFree.pair (hashBytes_prefixFree.tagged.pair addressBytes_prefixFree)))
  rintro ⟨height, round, valueId, voteType, address⟩ right heq
  have hsame : (height, round, voteType, valueId, address) =
      (right.height, right.round, right.voteType, right.valueId, right.address) :=
    hfields.injective heq
  cases hsame
  rfl

theorem proposalSigningBytes_injective : Function.Injective proposalSigningBytes := by
  have hfields := heightBytes_prefixFree.pair (roundBytes_prefixFree.pair
    (hashBytes_prefixFree.pair (roundBytes_prefixFree.pair addressBytes_prefixFree)))
  rintro ⟨height, round, value, polRound, address⟩ right heq
  have hsame : (height, round, value, polRound, address) =
      (right.height, right.round, right.value, right.polRound, right.address) :=
    hfields.injective heq
  cases hsame
  rfl

theorem voteSigningBytes_length (vote : OpenHlVote) :
    (voteSigningBytes vote).length = if vote.valueId.isSome then 70 else 38 := by
  cases hvalue : vote.valueId with
  | none =>
      simp [voteSigningBytes, heightBytes, roundBytes, addressBytes, Framing.tagged, hvalue]
  | some hash =>
      simp [voteSigningBytes, heightBytes, roundBytes, addressBytes, hashBytes,
        Framing.tagged, hvalue]

theorem proposalSigningBytes_length (proposal : OpenHlProposal) :
    (proposalSigningBytes proposal).length = 76 := by
  simp [proposalSigningBytes, heightBytes, roundBytes, addressBytes, hashBytes]

/-- Proposals are longer than any vote. -/
theorem voteSigningBytes_ne_proposalSigningBytes (vote : OpenHlVote)
    (proposal : OpenHlProposal) : voteSigningBytes vote ≠ proposalSigningBytes proposal := by
  intro heq
  have hlength := congrArg List.length heq
  rw [voteSigningBytes_length, proposalSigningBytes_length] at hlength
  split_ifs at hlength <;> omega

/-! ## Signatures -/

/-- The signature library. -/
structure Ed25519 (PrivateKey PublicKey Signature : Type*) where
  sign : PrivateKey → List U8 → Signature
  verify : PublicKey → List U8 → Signature → Bool

section Signatures

variable {PrivateKey PublicKey Signature : Type*}
  (ed25519 : Ed25519 PrivateKey PublicKey Signature)

def signVote (privateKey : PrivateKey) (vote : OpenHlVote) : Signature :=
  ed25519.sign privateKey (voteSigningBytes vote)

def signProposal (privateKey : PrivateKey) (proposal : OpenHlProposal) : Signature :=
  ed25519.sign privateKey (proposalSigningBytes proposal)

def verifySignedVote (vote : OpenHlVote) (signature : Signature)
    (publicKey : PublicKey) : Bool :=
  ed25519.verify publicKey (voteSigningBytes vote) signature

def verifySignedProposal (proposal : OpenHlProposal) (signature : Signature)
    (publicKey : PublicKey) : Bool :=
  ed25519.verify publicKey (proposalSigningBytes proposal) signature

/-- The signature that was made for some bytes verifies for other bytes. -/
def Ed25519.VerifiesUnsigned (privateKey : PrivateKey) (publicKey : PublicKey)
    (signed : List U8) : Prop :=
  ∃ other, other ≠ signed ∧
    ed25519.verify publicKey other (ed25519.sign privateKey signed) = true

/-- Different votes, different proposals, and a vote and a proposal have different
signing bytes.  So a signature that was made for a vote or a proposal and verifies for
another message verifies for bytes that were not signed. -/
theorem signingBytes_injective :
    Function.Injective voteSigningBytes ∧ Function.Injective proposalSigningBytes ∧
    (∀ vote proposal, voteSigningBytes vote ≠ proposalSigningBytes proposal) ∧
    ∀ privateKey publicKey vote proposal,
      (∀ other, other ≠ vote →
        verifySignedVote ed25519 other (signVote ed25519 privateKey vote) publicKey = true →
          ed25519.VerifiesUnsigned privateKey publicKey (voteSigningBytes vote)) ∧
      (∀ other, other ≠ proposal →
        verifySignedProposal ed25519 other (signProposal ed25519 privateKey proposal)
          publicKey = true →
          ed25519.VerifiesUnsigned privateKey publicKey (proposalSigningBytes proposal)) ∧
      (verifySignedProposal ed25519 proposal (signVote ed25519 privateKey vote)
          publicKey = true →
        ed25519.VerifiesUnsigned privateKey publicKey (voteSigningBytes vote)) ∧
      (verifySignedVote ed25519 vote (signProposal ed25519 privateKey proposal)
          publicKey = true →
        ed25519.VerifiesUnsigned privateKey publicKey (proposalSigningBytes proposal)) := by
  refine ⟨voteSigningBytes_injective, proposalSigningBytes_injective,
    voteSigningBytes_ne_proposalSigningBytes, ?_⟩
  intro privateKey publicKey vote proposal
  have hdisjoint := voteSigningBytes_ne_proposalSigningBytes vote proposal
  refine ⟨?_, ?_, ?_, ?_⟩
  · intro other hother hverified
    exact ⟨voteSigningBytes other, voteSigningBytes_injective.ne hother, hverified⟩
  · intro other hother hverified
    exact ⟨proposalSigningBytes other, proposalSigningBytes_injective.ne hother, hverified⟩
  · intro hverified
    exact ⟨proposalSigningBytes proposal, hdisjoint.symm, hverified⟩
  · intro hverified
    exact ⟨voteSigningBytes vote, hdisjoint, hverified⟩

end Signatures

/-- A signature that shows the key and the bytes it was made for. -/
def transparentEd25519 : Ed25519 U8 U8 (U8 × List U8) where
  sign privateKey bytes := (privateKey, bytes)
  verify publicKey bytes signature := decide (signature = (publicKey, bytes))

theorem transparentEd25519_not_verifiesUnsigned (privateKey publicKey : U8)
    (signed : List U8) :
    ¬ transparentEd25519.VerifiesUnsigned privateKey publicKey signed := by
  rintro ⟨other, hother, hverified⟩
  have hsame : (privateKey, signed) = (publicKey, other) := of_decide_eq_true hverified
  exact hother (congrArg Prod.snd hsame).symm

/-- A prevote of the first height, round 0, for the value or for nil. -/
def prevoteOf (valueId : NilOrVal BlockHash) : OpenHlVote where
  height := 1
  round := some 0
  valueId := valueId
  voteType := .prevote
  address := 7

def proposalOf (value : BlockHash) : OpenHlProposal where
  height := 1
  round := some 0
  value := value
  polRound := none
  address := 7

/-- The signature of the prevote for a value verifies for it, and neither for the prevote
for nil nor for the proposal of the value. -/
theorem signingBytes_injective_prevotes :
    verifySignedVote transparentEd25519 (prevoteOf (some 5))
        (signVote transparentEd25519 3 (prevoteOf (some 5))) 3 = true ∧
      verifySignedVote transparentEd25519 (prevoteOf none)
        (signVote transparentEd25519 3 (prevoteOf (some 5))) 3 = false ∧
      verifySignedProposal transparentEd25519 (proposalOf 5)
        (signVote transparentEd25519 3 (prevoteOf (some 5))) 3 = false := by
  have hsigned := transparentEd25519_not_verifiesUnsigned 3 3
    (voteSigningBytes (prevoteOf (some 5)))
  obtain ⟨hvotes, -, hproposal, -⟩ := (signingBytes_injective transparentEd25519).2.2.2 3 3
    (prevoteOf (some 5)) (proposalOf 5)
  refine ⟨?_, ?_, ?_⟩
  · simp [verifySignedVote, signVote, transparentEd25519]
  · exact Bool.eq_false_iff.2 fun hverified =>
      hsigned (hvotes (prevoteOf none) (by decide) hverified)
  · exact Bool.eq_false_iff.2 fun hverified => hsigned (hproposal hverified)

end OpenHl.Consensus
