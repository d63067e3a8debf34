import OpenHl.Consensus.EngineApp

/-!
# Interleaved proposal streams

The streams of all peers share one table in which a stream waits for the second of
its two messages.

`receivedParts_interleaved`: whatever the order in which the messages of any streams
arrive, the first message of a stream is answered by nothing, the second by the value
of the stream's own part; each stream's bytes are registered once, and the table is
empty at the end.
-/

namespace OpenHl.Consensus

open Machine OpenHl.Evm

/-- The value that is proposed for a part whose block has this hash. -/
def OpenHlProposalPart.proposed (part : OpenHlProposalPart) (hash : BlockHash) :
    ProposedValue :=
  { height := part.height, round := part.round, validRound := part.polRound
    proposer := part.proposer, value := hash }

section Streams

variable {K E : Type} [LinearOrder K]

/-! ## Parts one after the other -/

/-- What the loop did with some parts: its state and replies, and the bytes it
registered, each with its stream. -/
structure Received (K E : Type) [LinearOrder K] where
  state : AppState K E
  replies : List (Option ProposedValue)
  registered : List (K × List U8)

/-- The call of `register_proposed_block` that a message causes, if it causes one. -/
def registration (state : AppState K E) (key : K) (content : StreamContent) :
    List (K × List U8) :=
  (completedPart state key content).toList.map fun part => (key, part.blockBytes)

variable (layer : ExecutionLayer E)

def receivedParts : AppState K E → List (K × StreamContent) →
    Except BridgeError (Received K E)
  | state, [] => .ok { state := state, replies := [], registered := [] }
  | state, (key, content) :: rest =>
      match receivedProposalPart layer state key content with
      | .error failure => .error failure
      | .ok (after, reply) =>
          match receivedParts after rest with
          | .error failure => .error failure
          | .ok received =>
              .ok { state := received.state
                    replies := reply :: received.replies
                    registered := registration state key content ++
                      received.registered }

/-- Register blocks one after the other. -/
def registerAll : ChainState E → List (List U8) → Except BridgeError (ChainState E)
  | bridge, [] => .ok bridge
  | bridge, bytes :: rest =>
      match registerProposedBlock layer bridge bytes with
      | .error failure => .error failure
      | .ok (_, after) => registerAll after rest

/-- The bytes are registered as the block of this hash. -/
def RegistersAs (bytes : List U8) (hash : BlockHash) : Prop :=
  ∃ wire, layer.decode bytes = .ok wire ∧ layer.hashSlow wire.header = hash ∧
    wire.block.hash = hash

/-! ## Interleavings -/

/-- The messages of one stream, in the order in which they arrive. -/
def contents (key : K) (msgs : List (K × StreamContent)) : List StreamContent :=
  (msgs.filter fun msg => msg.1 = key).map Prod.snd

/-- A part and the end of its stream, in either order. -/
def Halves (part : OpenHlProposalPart) (first second : StreamContent) : Prop :=
  (first = .data part ∧ second = .fin) ∨ (first = .fin ∧ second = .data part)

/-- The messages are those of one stream for each key, in any order. -/
structure Interleaves (keys : Finset K) (parts : K → OpenHlProposalPart)
    (msgs : List (K × StreamContent)) : Prop where
  stream : ∀ key ∈ keys, contents key msgs = [.data (parts key), .fin] ∨
    contents key msgs = [.fin, .data (parts key)]
  only : ∀ msg ∈ msgs, msg.1 ∈ keys

theorem contents_cons_self (key : K) (content : StreamContent)
    (rest : List (K × StreamContent)) :
    contents key ((key, content) :: rest) = content :: contents key rest := by
  simp [contents]

theorem contents_cons_of_ne {key other : K} (hother : other ≠ key)
    (content : StreamContent) (rest : List (K × StreamContent)) :
    contents other ((key, content) :: rest) = contents other rest := by
  simp [contents, hother.symm]

theorem contents_eq_nil_iff {key : K} {msgs : List (K × StreamContent)} :
    contents key msgs = [] ↔ key ∉ msgs.map Prod.fst := by
  rw [contents, List.map_eq_nil_iff, List.filter_eq_nil_iff, List.mem_map, not_exists]
  simp only [decide_eq_true_eq, not_and]

theorem Halves.receive_first {part : OpenHlProposalPart} {first second : StreamContent}
    (hhalves : Halves part first second) :
    (InProgressStream.default.receive first).data = none ∨
      (InProgressStream.default.receive first).finSeen = false := by
  rcases hhalves with ⟨rfl, -⟩ | ⟨rfl, -⟩
  · exact .inr rfl
  · exact .inl rfl

theorem Halves.receive_second {part : OpenHlProposalPart} {first second : StreamContent}
    (hhalves : Halves part first second) :
    (InProgressStream.default.receive first).receive second =
      { data := some part, finSeen := true } := by
  rcases hhalves with ⟨rfl, rfl⟩ | ⟨rfl, rfl⟩
  · rfl
  · rfl

/-- Where a stream stands before the remaining messages: all of it has been handled,
none of it, or one half, which waits in the table. -/
inductive Awaits (state : AppState K E) (parts : K → OpenHlProposalPart)
    (seen : List K) (msgs : List (K × StreamContent)) (key : K) : Prop
  | handled (hstream : state.streams.get? key = none) (hrest : contents key msgs = [])
  | fresh {first second : StreamContent} (hseen : key ∉ seen)
      (hstream : state.streams.get? key = none)
      (hrest : contents key msgs = [first, second])
      (hhalves : Halves (parts key) first second)
  | half {first second : StreamContent} (hseen : key ∈ seen)
      (hstream : state.streams.get? key = some (InProgressStream.default.receive first))
      (hrest : contents key msgs = [second])
      (hhalves : Halves (parts key) first second)

variable {layer} {state : AppState K E} {parts : K → OpenHlProposalPart}
  {seen : List K} {key : K} {content : StreamContent} {rest : List (K × StreamContent)}

/-- A message leaves the other streams where they stand. -/
theorem Awaits.other {after : AppState K E} {other : K} (hother : other ≠ key)
    (hawaits : Awaits state parts seen ((key, content) :: rest) other)
    (hstreams : after.streams.get? other = state.streams.get? other) :
    Awaits after parts (seen ++ [key]) rest other := by
  have hrest := contents_cons_of_ne hother content rest
  cases hawaits with
  | handled hstream hcontents =>
      exact .handled (hstreams.trans hstream) (hrest.symm.trans hcontents)
  | fresh hseen hstream hcontents hhalves =>
      exact .fresh (by simp [hseen, hother]) (hstreams.trans hstream)
        (hrest.symm.trans hcontents) hhalves
  | half hseen hstream hcontents hhalves =>
      exact .half (by simp [hseen]) (hstreams.trans hstream)
        (hrest.symm.trans hcontents) hhalves

theorem RegistersAs.registers {bytes : List U8} {hash : BlockHash}
    (haccept : RegistersAs layer bytes hash) (bridge : ChainState E) :
    ∃ block after, registerProposedBlock layer bridge bytes = .ok (block, after) ∧
      block.hash = hash := by
  obtain ⟨wire, hdecode, hheader, hclaimed⟩ := haccept
  rw [registerProposedBlock, hdecode]
  exact ⟨wire.block, _, if_neg (not_ne_iff.2 (hheader.trans hclaimed.symm)), hclaimed⟩

/-- The first message of a stream is buffered. -/
theorem receivedProposalPart_first {second : StreamContent}
    (hawaits : ∀ other, Awaits state parts seen ((key, content) :: rest) other)
    (hstream : state.streams.get? key = none)
    (hrest : contents key rest = [second])
    (hhalves : Halves (parts key) content second) :
    ∃ after, receivedProposalPart layer state key content = .ok (after, none) ∧
      registration state key content = [] ∧ after.bridge = state.bridge ∧
      ∀ other, Awaits after parts (seen ++ [key]) rest other := by
  have hcompleted : completedPart state key content = none := by
    rw [completedPart, hstream, Option.getD_none]
    rcases hhalves.receive_first with hdata | hfin
    · simp [hdata]
    · simp [hfin]
  refine ⟨_, receivedProposalPart_of_not_completed hcompleted, ?_, rfl, ?_⟩
  · rw [registration, hcompleted]
    rfl
  · intro other
    by_cases hother : other = key
    · subst hother
      refine .half (by simp) ?_ hrest hhalves
      rw [SortedMap.get?_insert, if_pos rfl, hstream, Option.getD_none]
    · refine (hawaits other).other hother ?_
      rw [SortedMap.get?_insert, if_neg hother]

/-- The second message of a stream has its bytes registered. -/
theorem receivedProposalPart_second {first : StreamContent} {hash : BlockHash}
    (hawaits : ∀ other, Awaits state parts seen ((key, content) :: rest) other)
    (hstream : state.streams.get? key = some (InProgressStream.default.receive first))
    (hrest : contents key rest = [])
    (hhalves : Halves (parts key) first content)
    (haccept : RegistersAs layer (parts key).blockBytes hash) :
    ∃ after block, receivedProposalPart layer state key content =
        .ok (after, some ((parts key).proposed hash)) ∧
      registration state key content = [(key, (parts key).blockBytes)] ∧
      registerProposedBlock layer state.bridge (parts key).blockBytes =
        .ok (block, after.bridge) ∧
      ∀ other, Awaits after parts (seen ++ [key]) rest other := by
  have hcompleted : completedPart state key content = some (parts key) := by
    rw [completedPart, hstream, Option.getD_some, hhalves.receive_second]
    rfl
  obtain ⟨block, bridge, hregister, hhash⟩ := haccept.registers state.bridge
  subst hhash
  have hreceived : receivedProposalPart layer state key content = _ :=
    receivedProposalPart_of_completedPart hcompleted
  rw [hregister] at hreceived
  refine ⟨_, block, hreceived, ?_, hregister, ?_⟩
  · rw [registration, hcompleted]
    rfl
  · intro other
    by_cases hother : other = key
    · subst hother
      refine .handled ?_ hrest
      rw [SortedMap.get?_erase, if_pos rfl]
    · refine (hawaits other).other hother ?_
      rw [SortedMap.get?_erase, if_neg hother]

/-- The answers to the messages of some streams, of which `seen` already had one. -/
structure Answers (layer : ExecutionLayer E) (state : AppState K E)
    (parts : K → OpenHlProposalPart) (hashes : K → BlockHash) (seen : List K)
    (msgs : List (K × StreamContent)) (received : Received K E) : Prop where
  length : received.replies.length = msgs.length
  replies : ∀ index key content, msgs[index]? = some (key, content) →
    received.replies[index]? = some
      (if key ∈ seen ++ (msgs.take index).map Prod.fst
       then some ((parts key).proposed (hashes key)) else none)
  once : (received.registered.map Prod.fst).Nodup
  registered : ∀ key bytes, (key, bytes) ∈ received.registered ↔
    key ∈ msgs.map Prod.fst ∧ bytes = (parts key).blockBytes
  bridge : registerAll layer state.bridge (received.registered.map Prod.snd) =
    .ok received.state.bridge
  streams : received.state.streams = SortedMap.empty

theorem Answers.nil (hashes : K → BlockHash)
    (hawaits : ∀ other, Awaits state parts seen [] other) :
    Answers layer state parts hashes seen []
      { state := state, replies := [], registered := [] } where
  length := rfl
  replies index key content hmsg := by simp at hmsg
  once := List.nodup_nil
  registered key bytes := by simp
  bridge := rfl
  streams := by
    apply SortedMap.ext_get?
    intro other
    rw [SortedMap.get?_empty]
    cases hawaits other with
    | handled hstream hrest => exact hstream
    | fresh hseen hstream hrest hhalves => exact hstream
    | half hseen hstream hrest hhalves => simp [contents] at hrest

variable {hashes : K → BlockHash} {received : Received K E}

/-- The replies to later messages, after the reply to the first. -/
theorem Answers.replies_cons {after : AppState K E} {reply : Option ProposedValue}
    (hanswers : Answers layer after parts hashes (seen ++ [key]) rest received)
    (hreply : reply =
      if key ∈ seen then some ((parts key).proposed (hashes key)) else none)
    (index : ℕ) (other : K) (otherContent : StreamContent)
    (hmsg : ((key, content) :: rest)[index]? = some (other, otherContent)) :
    (reply :: received.replies)[index]? = some
      (if other ∈ seen ++ (((key, content) :: rest).take index).map Prod.fst
       then some ((parts other).proposed (hashes other)) else none) := by
  cases index with
  | zero =>
      rw [List.getElem?_cons_zero, Option.some.injEq, Prod.mk.injEq] at hmsg
      rw [← hmsg.1, List.getElem?_cons_zero, hreply, List.take_zero, List.map_nil,
        List.append_nil]
  | succ index =>
      rw [List.getElem?_cons_succ] at hmsg ⊢
      rw [hanswers.replies index other otherContent hmsg, List.take_succ_cons,
        List.map_cons, List.append_assoc, List.singleton_append]

theorem Answers.first {after : AppState K E} (hseen : key ∉ seen)
    (hlater : key ∈ rest.map Prod.fst) (hbridge : after.bridge = state.bridge)
    (hanswers : Answers layer after parts hashes (seen ++ [key]) rest received) :
    Answers layer state parts hashes seen ((key, content) :: rest)
      { received with replies := none :: received.replies } where
  length := by rw [List.length_cons, List.length_cons, hanswers.length]
  replies := hanswers.replies_cons (if_neg hseen).symm
  once := hanswers.once
  registered other bytes := by
    rw [hanswers.registered other bytes, List.map_cons, List.mem_cons]
    constructor
    · exact fun hmem => ⟨.inr hmem.1, hmem.2⟩
    · rintro ⟨rfl | hmem, hbytes⟩
      · exact ⟨hlater, hbytes⟩
      · exact ⟨hmem, hbytes⟩
  bridge := by rw [← hbridge, hanswers.bridge]
  streams := hanswers.streams

theorem Answers.second {after : AppState K E} {block : ExecutedBlock}
    (hseen : key ∈ seen) (hlast : key ∉ rest.map Prod.fst)
    (hbridge : registerProposedBlock layer state.bridge (parts key).blockBytes =
      .ok (block, after.bridge))
    (hanswers : Answers layer after parts hashes (seen ++ [key]) rest received) :
    Answers layer state parts hashes seen ((key, content) :: rest)
      { state := received.state
        replies := some ((parts key).proposed (hashes key)) :: received.replies
        registered := (key, (parts key).blockBytes) :: received.registered } where
  length := by rw [List.length_cons, List.length_cons, hanswers.length]
  replies := hanswers.replies_cons (if_pos hseen).symm
  once := by
    rw [List.map_cons, List.nodup_cons]
    refine ⟨fun hmem => ?_, hanswers.once⟩
    obtain ⟨⟨other, bytes⟩, hregistered, rfl⟩ := List.mem_map.1 hmem
    exact hlast ((hanswers.registered other bytes).1 hregistered).1
  registered other bytes := by
    rw [List.mem_cons, hanswers.registered other bytes, List.map_cons, List.mem_cons,
      Prod.mk.injEq]
    constructor
    · rintro (⟨rfl, rfl⟩ | hmem)
      · exact ⟨.inl rfl, rfl⟩
      · exact ⟨.inr hmem.1, hmem.2⟩
    · rintro ⟨rfl | hmem, hbytes⟩
      · exact .inl ⟨rfl, hbytes⟩
      · exact .inr ⟨hmem, hbytes⟩
  bridge := by
    rw [List.map_cons, registerAll, hbridge]
    exact hanswers.bridge
  streams := hanswers.streams

/-- From any point of an interleaving the remaining messages are answered. -/
theorem receivedParts_answers (msgs : List (K × StreamContent))
    (haccept : ∀ msg ∈ msgs, RegistersAs layer (parts msg.1).blockBytes (hashes msg.1))
    (hawaits : ∀ other, Awaits state parts seen msgs other) :
    ∃ received, receivedParts layer state msgs = .ok received ∧
      Answers layer state parts hashes seen msgs received := by
  induction msgs generalizing state seen with
  | nil => exact ⟨_, rfl, .nil hashes hawaits⟩
  | cons msg rest ih =>
      obtain ⟨key, content⟩ := msg
      have hrest : ∀ msg ∈ rest,
          RegistersAs layer (parts msg.1).blockBytes (hashes msg.1) :=
        fun msg hmem => haccept msg (List.mem_cons_of_mem _ hmem)
      have hself := contents_cons_self key content rest
      rw [receivedParts]
      -- The message is the first or the second of its stream.
      cases hawaits key with
      | handled hstream hcontents => simp [hself] at hcontents
      | @fresh first second hseen hstream hcontents hhalves =>
          rw [hself, List.cons.injEq] at hcontents
          obtain ⟨rfl, hcontents⟩ := hcontents
          obtain ⟨after, hreceived, hregistration, hbridge, hafter⟩ :
              ∃ after, receivedProposalPart layer state key content = .ok (after, none) ∧ _ :=
            receivedProposalPart_first hawaits hstream hcontents hhalves
          obtain ⟨received, hrun, hanswers⟩ := ih hrest hafter
          have hlater : key ∈ rest.map Prod.fst := by
            by_contra habsent
            rw [contents_eq_nil_iff.2 habsent] at hcontents
            cases hcontents
          rw [hreceived]
          simp only [hrun, hregistration, List.nil_append]
          exact ⟨_, rfl, hanswers.first hseen hlater hbridge⟩
      | @half first second hseen hstream hcontents hhalves =>
          rw [hself, List.cons.injEq] at hcontents
          obtain ⟨rfl, hcontents⟩ := hcontents
          obtain ⟨after, block, hreceived, hregistration, hbridge, hafter⟩ :=
            receivedProposalPart_second hawaits hstream hcontents hhalves
              (haccept _ List.mem_cons_self)
          obtain ⟨received, hrun, hanswers⟩ := ih hrest hafter
          rw [hreceived]
          simp only [hrun, hregistration, List.singleton_append]
          exact ⟨_, rfl, hanswers.second hseen (contents_eq_nil_iff.1 hcontents) hbridge⟩

theorem Interleaves.mem_keys_iff {keys : Finset K} {msgs : List (K × StreamContent)}
    (hmsgs : Interleaves keys parts msgs) : key ∈ msgs.map Prod.fst ↔ key ∈ keys := by
  constructor
  · intro hmem
    obtain ⟨msg, hmsg, rfl⟩ := List.mem_map.1 hmem
    exact hmsgs.only msg hmsg
  · intro hkey
    by_contra habsent
    have hcontents := contents_eq_nil_iff.2 habsent
    rcases hmsgs.stream key hkey with horder | horder
    · simp [horder] at hcontents
    · simp [horder] at hcontents

theorem Interleaves.awaits {keys : Finset K} {msgs : List (K × StreamContent)}
    (hmsgs : Interleaves keys parts msgs) (hempty : state.streams = SortedMap.empty)
    (other : K) : Awaits state parts [] msgs other := by
  have hstream : state.streams.get? other = none := by
    rw [hempty, SortedMap.get?_empty]
  by_cases hkey : other ∈ keys
  · rcases hmsgs.stream other hkey with horder | horder
    · exact .fresh (by simp) hstream horder (.inl ⟨rfl, rfl⟩)
    · exact .fresh (by simp) hstream horder (.inr ⟨rfl, rfl⟩)
  · exact .handled hstream (contents_eq_nil_iff.2 (hmsgs.mem_keys_iff.not.2 hkey))

end Streams

/-- In every interleaving of any streams whose blocks can be registered, the first
message of each stream is answered by nothing and the second by the value of the
stream's own part; the bytes of each stream are registered once, with the bridge
changed by these registrations only, and no stream is left in progress. -/
theorem receivedParts_interleaved {K E : Type} [LinearOrder K] (layer : ExecutionLayer E)
    (state : AppState K E) (keys : Finset K) (parts : K → OpenHlProposalPart)
    (hashes : K → BlockHash) (msgs : List (K × StreamContent))
    (hempty : state.streams = SortedMap.empty) (hmsgs : Interleaves keys parts msgs)
    (haccept : ∀ key ∈ keys, RegistersAs layer (parts key).blockBytes (hashes key)) :
    ∃ received, receivedParts layer state msgs = .ok received ∧
      received.replies.length = msgs.length ∧
      (∀ index key content, msgs[index]? = some (key, content) →
        received.replies[index]? = some
          (if key ∈ (msgs.take index).map Prod.fst
           then some ((parts key).proposed (hashes key)) else none)) ∧
      (received.registered.map Prod.fst).Nodup ∧
      (∀ key bytes, (key, bytes) ∈ received.registered ↔
        key ∈ keys ∧ bytes = (parts key).blockBytes) ∧
      registerAll layer state.bridge (received.registered.map Prod.snd) =
        .ok received.state.bridge ∧
      received.state.streams = SortedMap.empty := by
  obtain ⟨received, hrun, hanswers⟩ := receivedParts_answers msgs
    (fun msg hmsg => haccept msg.1 (hmsgs.only msg hmsg)) (hmsgs.awaits hempty)
  refine ⟨received, hrun, hanswers.length, hanswers.replies, hanswers.once, ?_,
    hanswers.bridge, hanswers.streams⟩
  intro key bytes
  rw [hanswers.registered key bytes, hmsgs.mem_keys_iff]

/-- The part in which a peer streams the default block. -/
def defaultPart (round : U32) : OpenHlProposalPart :=
  { height := 1, round := some round, polRound := none, proposer := 0
    blockBytes := bytesOf (wireText "0") }

/-- Two streams, each cut by the other, one with its end ahead of its part. -/
theorem receivedParts_interleaved_twoStreams :
    ∃ received,
      receivedParts (defaultLayer (wireText "0") (wireAt 0))
          (AppState.initial emptyChain defaultHash 1 : AppState ℕ Unit)
          [(0, .data (defaultPart 0)), (1, .fin), (0, .fin),
            (1, .data (defaultPart 1))] = .ok received ∧
        received.replies[1]? = some none ∧
        received.replies[2]? = some (some ((defaultPart 0).proposed defaultHash)) ∧
        received.replies[3]? = some (some ((defaultPart 1).proposed defaultHash)) ∧
        received.state.streams = SortedMap.empty := by
  obtain ⟨received, hrun, -, hreplies, -, -, -, hstreams⟩ :=
    receivedParts_interleaved (defaultLayer (wireText "0") (wireAt 0))
      (AppState.initial emptyChain defaultHash 1) {0, 1}
      (fun key => if key = 0 then defaultPart 0 else defaultPart 1) (fun _ => defaultHash)
      [(0, .data (defaultPart 0)), (1, .fin), (0, .fin), (1, .data (defaultPart 1))]
      rfl ⟨by simp [contents], by simp⟩
      (by
        intro key _
        have hbytes : (if key = 0 then defaultPart 0 else defaultPart 1).blockBytes =
            bytesOf (wireText "0") := by
          split_ifs
          · rfl
          · rfl
        rw [hbytes]
        exact ⟨wireAt 0, if_pos rfl, rfl, rfl⟩)
  exact ⟨received, hrun, by simpa using hreplies 1 1 _ rfl,
    by simpa using hreplies 2 0 _ rfl, by simpa using hreplies 3 1 _ rfl, hstreams⟩

end OpenHl.Consensus
