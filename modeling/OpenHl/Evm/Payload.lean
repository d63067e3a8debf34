import OpenHl.Evm.Proposal

/-!
# Building payloads

`build_payload` makes the next block on a parent.  With a payload builder
installed the block comes from the execution node; without one the header is put
together from the parent's header.  The node's header store, its base fee rule
and its payload builder are code outside the repository and are collected in
`RethNode`.

On either path the result is a child of the parent, if its number and its time can
count on from there (`buildPayload_isChildOf`).
-/

namespace OpenHl.Evm

open Machine OpenHl.Clob

structure PayloadAttrs where
  timestamp : U64
  feeRecipient : Address
  prevRandao : B256
  deriving DecidableEq

/-- The attributes of a build job that are not constant. -/
structure EthPayloadAttributes where
  timestamp : U64
  prevRandao : B256
  suggestedFeeRecipient : Address
  deriving DecidableEq

structure BuiltPayload (E : Type) where
  hash : B256
  header : Header
  executionData : E

/-- How a build job can fail, with the text of the node's own error. -/
inductive BuilderError where
  | send (reason : String)
  | rejected (reason : String)
  | dropped (id : String)
  | resolve (reason : String)

def BuilderError.message : BuilderError → String
  | .send reason => "payload builder send: " ++ reason
  | .rejected reason => "payload builder error: " ++ reason
  | .dropped id => "payload builder dropped the job for id " ++ id
  | .resolve reason => "payload builder resolve: " ++ reason

/-- What the bridge uses of the execution node. -/
structure RethNode (E : Type) where
  sealedHeaderByHash : B256 → Except String (Option Header)
  nextBlockBaseFee : Header → U64 → Option U64
  payloadBuilder : Option (B256 → EthPayloadAttributes →
    Except BuilderError (BuiltPayload E))

inductive BuildFailure where
  | bridge (error : BridgeError)
  /-- The parent's time or number cannot be incremented. -/
  | overflow

/-- The root of an empty trie, which an unset state root is. -/
def emptyRootHash : B256 :=
  0x56e81f171bcc55a6ff8345e692c0f86e5b48e01b996cadc001622fb5e363b421

def increment (checks : U64.OverflowChecks) (word : U64) : Except BuildFailure U64 :=
  match U64.add checks word 1 with
  | .error .overflow => .error .overflow
  | .ok next => .ok next

section Build

variable {E : Type} (checks : U64.OverflowChecks) (layer : ExecutionLayer E)
  (reth : RethNode E)

/-- The header of the parent: from the committed chain, else from the node. -/
def parentHeader (state : ChainState E) (parent : B256) :
    Except BridgeError (Option Header) :=
  match state.chain.get? parent with
  | some header => .ok (some header)
  | none =>
      match reth.sealedHeaderByHash parent with
      | .error reason => .error (.internal ("provider error: " ++ reason))
      | .ok header => .ok header

/-- The parent's header, or a rejection with the given text. -/
def knownParent (state : ChainState E) (parent : B256) (rejection : String) :
    Except BuildFailure Header :=
  match parentHeader reth state parent with
  | .error failure => .error (.bridge failure)
  | .ok none => .error (.bridge (.rejected rejection))
  | .ok (some header) => .ok header

def buildRealPayload
    (builder : B256 → EthPayloadAttributes → Except BuilderError (BuiltPayload E))
    (state : ChainState E) (parent : B256) (attrs : PayloadAttrs) :
    Except BuildFailure (BuiltPayload E) := do
  let header ← knownParent reth state parent ("build_real_payload: parent " ++
    displayHash parent ++ " not in chain or provider")
  let next ← increment checks header.timestamp
  match builder parent
      { timestamp := max attrs.timestamp next, prevRandao := attrs.prevRandao
        suggestedFeeRecipient := attrs.feeRecipient } with
  | .error failure => .error (.bridge (.internal failure.message))
  | .ok built => .ok built

/-- The header of a block without transactions on the given parent. -/
def synthesizedHeader (state : ChainState E) (parent : B256) (attrs : PayloadAttrs) :
    Except BuildFailure Header := do
  let header ← knownParent reth state parent
    ("neither bridge.chain nor provider has block " ++ displayHash parent)
  let next ← increment checks header.timestamp
  let number ← increment checks header.number
  let timestamp := max attrs.timestamp next
  return { parentHash := parent, number := number, timestamp := timestamp
           beneficiary := attrs.feeRecipient, mixHash := attrs.prevRandao
           gasLimit := header.gasLimit, difficulty := 0
           baseFeePerGas := reth.nextBlockBaseFee header timestamp
           stateRoot := emptyRootHash, rest := [] }

/-- The payload that `build_payload` stores, with the fills it drained. -/
def buildPayload (state : ChainState E) (fills : List Fill) (parent : B256)
    (attrs : PayloadAttrs) : Except BuildFailure (PendingPayload E) :=
  match reth.payloadBuilder with
  | some builder => do
      let built ← buildRealPayload checks reth builder state parent attrs
      return { hash := built.hash, header := built.header, fills := fills
               executionData := some built.executionData }
  | none => do
      let header ← synthesizedHeader checks reth state parent attrs
      return { hash := layer.hashSlow header, header := header, fills := fills
               executionData := none }

/-! ## Children -/

/-- The header continues a parent of the given hash and header. -/
structure Header.IsChildOf (header : Header) (hash : B256) (parent : Header) :
    Prop where
  parentHash : header.parentHash = hash
  number : (header.number : ℕ) = parent.number + 1
  timestamp : parent.timestamp < header.timestamp

/-- What the bridge relies on of the node: headers are found under their hash,
and a built block has the requested parent and time and its header's hash. -/
structure RethNode.Lawful : Prop where
  sealed : ∀ hash header, reth.sealedHeaderByHash hash = .ok (some header) →
    layer.hashSlow header = hash
  builds : ∀ builder parent attributes built, reth.payloadBuilder = some builder →
    builder parent attributes = .ok built →
      layer.hashSlow built.header = built.hash ∧
      built.header.parentHash = parent ∧
      built.header.timestamp = attributes.timestamp

/-- The next block can count on from the header: the node gives it the header's
number plus one, and without overflow checks the words of the header are not the
largest ones. -/
structure RethNode.Continues (header : Header) : Prop where
  numbers : ∀ builder attributes built, reth.payloadBuilder = some builder →
    builder (layer.hashSlow header) attributes = .ok built →
      (built.header.number : ℕ) = header.number + 1
  fits : checks = .off →
    header.number.val + 1 < 2 ^ 64 ∧ header.timestamp.val + 1 < 2 ^ 64

variable {checks layer reth}

theorem increment_eq_ok {word next : U64} (hnext : increment checks word = .ok next)
    (hfits : checks = .off → word.val + 1 < 2 ^ 64) : (next : ℕ) = word + 1 := by
  rw [increment] at hnext
  have hrange : word.val + (1 : U64).val < 2 ^ 64 := by
    cases checks with
    | on =>
        by_contra hover
        have hadd : U64.add .on word 1 = .error .overflow :=
          U64.add_eq_error_iff.2 ⟨rfl, hover⟩
        rw [hadd] at hnext
        cases hnext
    | off => exact hfits rfl
  rw [U64.add_of_lt checks hrange] at hnext
  rw [← Except.ok.inj hnext, Fin.val_add_one_of_lt']
  exact hrange

theorem knownParent_eq_ok {state : ChainState E} {parent : B256} {rejection : String}
    {header : Header} (hknown : knownParent reth state parent rejection = .ok header) :
    parentHeader reth state parent = .ok (some header) := by
  rw [knownParent] at hknown
  split at hknown
  · cases hknown
  · cases hknown
  · next found hfound =>
    rw [Except.ok.injEq] at hknown
    rw [hfound, hknown]

theorem parentHeader_hash (hlawful : reth.Lawful layer) {state : ChainState E}
    (hchain : state.chain.All fun hash header => layer.hashSlow header = hash)
    {parent : B256} {header : Header}
    (hparent : parentHeader reth state parent = .ok (some header)) :
    layer.hashSlow header = parent := by
  rw [parentHeader] at hparent
  split at hparent
  · next found hfound =>
    rw [Except.ok.injEq, Option.some.injEq] at hparent
    rw [← hparent]
    exact hchain parent found hfound
  · split at hparent
    · cases hparent
    · next hsealed =>
      rw [Except.ok.injEq] at hparent
      rw [hparent] at hsealed
      exact hlawful.sealed parent header hsealed

/-- A successful build has found the header of the parent, and the time it works
with. -/
theorem buildRealPayload_eq_ok
    {builder : B256 → EthPayloadAttributes → Except BuilderError (BuiltPayload E)}
    {state : ChainState E} {parent : B256} {attrs : PayloadAttrs} {built : BuiltPayload E}
    (hbuilt : buildRealPayload checks reth builder state parent attrs = .ok built) :
    ∃ header next, parentHeader reth state parent = .ok (some header) ∧
      increment checks header.timestamp = .ok next ∧
      builder parent
        { timestamp := max attrs.timestamp next, prevRandao := attrs.prevRandao
          suggestedFeeRecipient := attrs.feeRecipient } = .ok built := by
  rw [buildRealPayload] at hbuilt
  obtain ⟨header, hknown, hbuilt⟩ := bind_eq_ok.1 hbuilt
  obtain ⟨next, hnext, hbuilt⟩ := bind_eq_ok.1 hbuilt
  split at hbuilt
  · cases hbuilt
  · next result hresult =>
    rw [Except.ok.injEq] at hbuilt
    rw [hbuilt] at hresult
    exact ⟨header, next, knownParent_eq_ok hknown, hnext, hresult⟩

theorem synthesizedHeader_eq_ok {state : ChainState E} {parent : B256}
    {attrs : PayloadAttrs} {child : Header}
    (hchild : synthesizedHeader checks reth state parent attrs = .ok child) :
    ∃ header next, parentHeader reth state parent = .ok (some header) ∧
      increment checks header.timestamp = .ok next ∧
      increment checks header.number = .ok child.number ∧
      child.parentHash = parent ∧ child.timestamp = max attrs.timestamp next := by
  rw [synthesizedHeader] at hchild
  obtain ⟨header, hknown, hchild⟩ := bind_eq_ok.1 hchild
  obtain ⟨next, hnext, hchild⟩ := bind_eq_ok.1 hchild
  obtain ⟨number, hnumber, hchild⟩ := bind_eq_ok.1 hchild
  rw [← Except.ok.inj hchild]
  exact ⟨header, next, knownParent_eq_ok hknown, hnext, hnumber, rfl, rfl⟩

/-- A payload is stored under its header's hash, with the parent that was asked for
and no earlier time. -/
theorem buildPayload_attrs (hlawful : reth.Lawful layer) {state : ChainState E}
    {fills : List Fill} {parent : B256} {attrs : PayloadAttrs}
    {payload : PendingPayload E}
    (hbuild : buildPayload checks layer reth state fills parent attrs = .ok payload) :
    layer.hashSlow payload.header = payload.hash ∧
      payload.header.parentHash = parent ∧
      attrs.timestamp ≤ payload.header.timestamp := by
  rw [buildPayload] at hbuild
  split at hbuild
  · next builder hbuilder =>
    obtain ⟨built, hbuilt, hbuild⟩ := bind_eq_ok.1 hbuild
    obtain ⟨header, next, -, -, hresult⟩ := buildRealPayload_eq_ok hbuilt
    obtain ⟨hhash, hparent, htime⟩ := hlawful.builds builder parent _ _ hbuilder hresult
    rw [← Except.ok.inj hbuild]
    exact ⟨hhash, hparent, htime ▸ le_max_left _ _⟩
  · obtain ⟨header, hheader, hbuild⟩ := bind_eq_ok.1 hbuild
    obtain ⟨parentHeader, next, -, -, -, hparent, htime⟩ := synthesizedHeader_eq_ok hheader
    rw [← Except.ok.inj hbuild]
    exact ⟨rfl, hparent, htime ▸ le_max_left _ _⟩

/-- The time that a build asks for is later than that of the parent. -/
theorem lt_max_of_increment {header : Header} {asked next : U64}
    (hnext : increment checks header.timestamp = .ok next)
    (hcontinues : reth.Continues checks layer header) :
    header.timestamp < max asked next := by
  refine lt_of_lt_of_le ?_ (le_max_right asked next)
  rw [Fin.lt_def, increment_eq_ok hnext fun hoff => (hcontinues.fits hoff).2]
  exact Nat.lt_succ_self _

/-- Whatever path builds it, a payload is a child of its parent, if it could count on
from there. -/
theorem buildPayload_isChildOf (hlawful : reth.Lawful layer) {state : ChainState E}
    (hchain : state.chain.All fun hash header => layer.hashSlow header = hash)
    {fills : List Fill} {parent : B256} {attrs : PayloadAttrs}
    {payload : PendingPayload E}
    (hbuild : buildPayload checks layer reth state fills parent attrs = .ok payload) :
    ∃ header, parentHeader reth state parent = .ok (some header) ∧
      (reth.Continues checks layer header → payload.header.IsChildOf parent header) := by
  have hparentHash := (buildPayload_attrs hlawful hbuild).2.1
  rw [buildPayload] at hbuild
  split at hbuild
  · next builder hbuilder =>
    obtain ⟨built, hbuilt, hbuild⟩ := bind_eq_ok.1 hbuild
    obtain ⟨header, next, hparent, hnext, hresult⟩ := buildRealPayload_eq_ok hbuilt
    obtain ⟨-, -, htime⟩ := hlawful.builds builder parent _ _ hbuilder hresult
    obtain rfl := Except.ok.inj hbuild
    refine ⟨header, hparent, fun hcontinues => ⟨hparentHash, ?_, ?_⟩⟩
    · rw [← parentHeader_hash hlawful hchain hparent] at hresult
      exact hcontinues.numbers builder _ built hbuilder hresult
    · exact (lt_max_of_increment hnext hcontinues).trans_eq htime.symm
  · obtain ⟨child, hchild, hbuild⟩ := bind_eq_ok.1 hbuild
    obtain ⟨header, next, hparent, hnext, hnumber, -, htime⟩ :=
      synthesizedHeader_eq_ok hchild
    obtain rfl := Except.ok.inj hbuild
    refine ⟨header, hparent, fun hcontinues => ⟨hparentHash, ?_, ?_⟩⟩
    · exact increment_eq_ok hnumber fun hoff => (hcontinues.fits hoff).1
    · exact (lt_max_of_increment hnext hcontinues).trans_eq htime.symm

end Build

end OpenHl.Evm
