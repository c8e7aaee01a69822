import PlusWallet.Peer.BRPeer

/-
  Blocks come behind their transactions: a block that a peer
  relays has had each of its matched hashes told to or by the
  manager before, unless an inventory announced the hash and
  it has not come since.

  Main declarations:
    * `told`, `Delivered`
    * `Collects`, `Quiet`
    * `ReceivesAnnounced`
    * `delivered_iff_of_run`
-/

namespace PlusWallet

namespace BRPeerContext

open Run Faults

------------------------------------------------------------
-- Delivery
------------------------------------------------------------

/- The hashes that the manager learns of, or has. -/
def Exchange.told : Exchange → List UInt256
  | .called (.relayedTx tx) => [tx.txHash]
  | .called (.hasTx txHash) => [txHash]
  | .called _ => []
  | .registered txHashes => txHashes

def told (exchanged : List Exchange) : List UInt256 :=
  exchanged.flatMap Exchange.told

/-
  Whenever a block is relayed, each of its matched hashes was
  reported or registered before.
-/
def Delivered (exchanged : List Exchange) : Prop :=
  ∀ before block after,
    exchanged =
        before ++ .called (.relayedBlock block) :: after →
      ∀ hashes ∈ block.matchedHashes,
        ∀ hash ∈ hashes, hash ∈ told before

theorem told_append
    (exchanged added : List Exchange) :
    told (exchanged ++ added) = told exchanged ++ told added :=
  List.flatMap_append

theorem told_subset
    (exchanged added : List Exchange) :
    told exchanged ⊆ told (exchanged ++ added) := by
  rw [told_append]
  exact List.subset_append_left _ _

theorem delivered_nil : Delivered [] := by
  intro before block after hSplit
  simp at hSplit

/- What comes last is delivered to those before it. -/
theorem delivered_concat_iff
    (exchanged : List Exchange)
    (last : Exchange) :
    Delivered (exchanged ++ [last]) ↔
      Delivered exchanged ∧
        ∀ block, last = .called (.relayedBlock block) →
          ∀ hashes ∈ block.matchedHashes,
            ∀ hash ∈ hashes, hash ∈ told exchanged := by
  constructor
  · intro hAll
    refine ⟨?_, ?_⟩
    · intro before block after hSplit
      apply hAll before block (after ++ [last])
      simp [hSplit]
    · intro block hLast
      apply hAll exchanged block []
      rw [hLast]
  · rintro ⟨hBefore, hLast⟩ before block after hSplit
    rcases List.eq_nil_or_concat after with
      rfl | ⟨front, other, rfl⟩
    · have hSame := List.append_inj' hSplit rfl
      rw [← hSame.1]
      exact hLast block (List.singleton_inj.mp hSame.2)
    · have hSame :
          exchanged ++ [last] =
            (before ++ .called (.relayedBlock block) :: front) ++
              [other] := by
        simpa using hSplit
      exact hBefore before block front
        (List.append_inj' hSame rfl).1

/- An exchange that is no block with a matched hash. -/
def Plain (exchange : Exchange) : Prop :=
  ∀ block, exchange = .called (.relayedBlock block) →
    ∀ hashes ∈ block.matchedHashes, hashes = []

theorem delivered_append_of_plain
    (exchanged : List Exchange)
    {added : List Exchange}
    (hPlain : ∀ exchange ∈ added, Plain exchange) :
    Delivered (exchanged ++ added) ↔ Delivered exchanged := by
  induction added using List.reverseRecOn with
  | nil => rw [List.append_nil]
  | append_singleton front last ih =>
      rw [List.forall_mem_append] at hPlain
      rw [← List.append_assoc, delivered_concat_iff,
        ih hPlain.1]
      refine and_iff_left ?_
      intro block hLast hashes hHashes hash hHash
      rw [hPlain.2 last List.mem_cons_self block hLast hashes
        hHashes] at hHash
      simp at hHash

------------------------------------------------------------
-- What the Handlers Keep
------------------------------------------------------------

/-
  The state of a connection: what is known was told or
  announced, and a block that is being collected awaits all
  of its hashes that were not.
-/
structure Collects (history : History) : Prop where
  known :
    ∀ hash ∈ history.peer.knownTxHashes,
      hash ∈ told history.exchanged ∨
        hash ∈ history.announced
  idle :
    history.peer.currentBlock = none →
      history.peer.currentBlockTxHashes = []
  collecting :
    ∀ block ∈ history.peer.currentBlock,
      ∀ hashes ∈ block.matchedHashes, ∀ hash ∈ hashes,
        hash ∈ history.peer.currentBlockTxHashes ∨
          hash ∈ told history.exchanged ∨
          hash ∈ history.announced

theorem collects_start : Collects History.start where
  known := by simp [History.start, new]
  idle := fun _ => rfl
  collecting := by simp [History.start, new]

/-
  A step that neither collects a block nor relays one with a
  matched hash.
-/
structure Quiet (history next : History) : Prop where
  exchanged :
    ∃ added,
      next.exchanged = history.exchanged ++ added ∧
        ∀ exchange ∈ added, Plain exchange
  announced : history.announced ⊆ next.announced
  currentBlock :
    next.peer.currentBlock = history.peer.currentBlock
  currentBlockTxHashes :
    next.peer.currentBlockTxHashes =
      history.peer.currentBlockTxHashes
  known :
    ∀ hash ∈ next.peer.knownTxHashes,
      hash ∈ history.peer.knownTxHashes ∨
        hash ∈ told next.exchanged ∨ hash ∈ next.announced

theorem Quiet.collects
    {history next : History}
    (hQuiet : Quiet history next)
    (hCollects : Collects history) :
    Collects next := by
  rcases hQuiet.exchanged with ⟨added, hAdded, _⟩
  have hTold :
      told history.exchanged ⊆ told next.exchanged := by
    rw [hAdded]
    exact told_subset _ _
  have hLater :
      ∀ hash,
        hash ∈ told history.exchanged ∨
            hash ∈ history.announced →
          hash ∈ told next.exchanged ∨
            hash ∈ next.announced := by
    intro hash hBefore
    exact hBefore.imp (fun h => hTold h)
      (fun h => hQuiet.announced h)
  refine ⟨?_, ?_, ?_⟩
  · intro hash hHash
    rcases hQuiet.known hash hHash with hOld | hNew
    · exact hLater hash (hCollects.known hash hOld)
    · exact hNew
  · rw [hQuiet.currentBlock, hQuiet.currentBlockTxHashes]
    exact hCollects.idle
  · rw [hQuiet.currentBlock, hQuiet.currentBlockTxHashes]
    intro block hBlock hashes hHashes hash hHash
    exact
      (hCollects.collecting block hBlock hashes hHashes hash
        hHash).imp_right (hLater hash)

theorem Quiet.delivered_iff
    {history next : History}
    (hQuiet : Quiet history next) :
    Delivered next.exchanged ↔
      Delivered history.exchanged := by
  rcases hQuiet.exchanged with ⟨added, hAdded, hPlain⟩
  rw [hAdded]
  exact delivered_append_of_plain _ hPlain

------------------------------------------------------------
-- Known Hashes
------------------------------------------------------------

theorem mem_addKnownTxHashes
    {peer : BRPeerContext}
    {txHashes : List UInt256}
    {hash : UInt256}
    (hHash :
      hash ∈ (peer.addKnownTxHashes txHashes).knownTxHashes) :
    hash ∈ peer.knownTxHashes ∨ hash ∈ txHashes := by
  unfold addKnownTxHashes at hHash
  dsimp only at hHash
  generalize peer.knownTxHashes = known at hHash ⊢
  induction txHashes generalizing known with
  | nil => exact Or.inl hHash
  | cons txHash txHashes ih =>
      rw [List.foldl_cons] at hHash
      rcases ih _ hHash with hKnown | hLater
      · split_ifs at hKnown with hOld
        · exact Or.inl hKnown
        · rcases List.mem_append.mp hKnown with hOld | hHere
          · exact Or.inl hOld
          · rw [List.mem_singleton.mp hHere]
            exact Or.inr List.mem_cons_self
      · exact Or.inr (List.mem_cons_of_mem _ hLater)

@[simp]
theorem sendGetdata_currentBlock
    (peer : BRPeerContext)
    (txHashes blockHashes : List UInt256) :
    (peer.sendGetdata txHashes blockHashes).currentBlock =
      peer.currentBlock := by
  unfold sendGetdata
  dsimp only
  split_ifs <;> rfl

@[simp]
theorem sendGetdata_currentBlockTxHashes
    (peer : BRPeerContext)
    (txHashes blockHashes : List UInt256) :
    (peer.sendGetdata txHashes
        blockHashes).currentBlockTxHashes =
      peer.currentBlockTxHashes := by
  unfold sendGetdata
  dsimp only
  split_ifs <;> rfl

@[simp]
theorem sendGetdata_knownTxHashes
    (peer : BRPeerContext)
    (txHashes blockHashes : List UInt256) :
    (peer.sendGetdata txHashes blockHashes).knownTxHashes =
      peer.knownTxHashes := by
  unfold sendGetdata
  dsimp only
  split_ifs <;> rfl

------------------------------------------------------------
-- Handlers That Leave the Block
------------------------------------------------------------

/-
  A handler that leaves the block that is collected, relays no
  block with a matched hash, and makes known only what its
  message announces.
-/
structure LeavesBlock
    (peer next : BRPeerContext)
    (calls : List Call)
    (announced : List UInt256) : Prop where
  currentBlock : next.currentBlock = peer.currentBlock
  currentBlockTxHashes :
    next.currentBlockTxHashes = peer.currentBlockTxHashes
  known :
    ∀ hash ∈ next.knownTxHashes,
      hash ∈ peer.knownTxHashes ∨ hash ∈ announced
  plain : ∀ call ∈ calls, Plain (.called call)

theorem LeavesBlock.refl
    (peer : BRPeerContext)
    {calls : List Call}
    (hPlain : ∀ call ∈ calls, Plain (.called call))
    (announced : List UInt256) :
    LeavesBlock peer peer calls announced :=
  ⟨rfl, rfl, fun _ hHash => Or.inl hHash, hPlain⟩

theorem LeavesBlock.refl_nil
    (peer : BRPeerContext)
    (announced : List UInt256) :
    LeavesBlock peer peer [] announced :=
  LeavesBlock.refl peer (by simp) announced

theorem leavesBlock_takeInventory
    (peer : BRPeerContext)
    (transactions blocks : List UInt256) :
    LeavesBlock peer
      (peer.takeInventory transactions blocks).1
      (peer.takeInventory transactions blocks).2
      transactions := by
  unfold takeInventory
  refine ⟨by simp [addKnownTxHashes],
    by simp [addKnownTxHashes], ?_, ?_⟩
  · intro hash hHash
    simp only [sendGetdata_knownTxHashes] at hHash
    apply (mem_addKnownTxHashes hHash).imp_right
    exact fun hNew => List.mem_of_mem_filter hNew
  · intro call hCall
    rcases List.mem_map.mp hCall with ⟨hash, -, rfl⟩
    intro block hBlock
    cases hBlock

theorem leavesBlock_inv
    {peer next : BRPeerContext}
    {msg : List UInt8}
    {calls : List Call}
    {isAccepted : Bool}
    (hInv :
      peer.acceptInvMessage msg =
        .ok (next, calls, isAccepted)) :
    LeavesBlock peer next calls (announcedBy .inv msg) := by
  unfold acceptInvMessage at hInv
  split at hInv
  · cases hInv
    exact LeavesBlock.refl_nil _ _
  split at hInv
  · cases hInv
    exact LeavesBlock.refl_nil _ _
  rw [bind_eq_ok_iff] at hInv
  rcases hInv with ⟨items, hItems, hInv⟩
  have hAnnounced :
      announcedBy .inv msg = hashesOf .tx items := by
    unfold announcedBy
    rw [if_pos rfl, hItems]
  rw [hAnnounced]
  dsimp only at hInv
  split at hInv
  · cases hInv
    exact LeavesBlock.refl_nil _ _
  split at hInv
  · cases hInv
    exact LeavesBlock.refl_nil _ _
  split at hInv
  · cases hInv
    exact LeavesBlock.refl_nil _ _
  cases hInv
  exact leavesBlock_takeInventory peer _ _

/- The same for a handler with no calls for blocks. -/
theorem leavesBlock_of_calls
    (peer : BRPeerContext)
    {calls : List Call}
    (hCalls :
      ∀ call ∈ calls, ∀ block, call ≠ .relayedBlock block)
    (announced : List UInt256) :
    LeavesBlock peer peer calls announced := by
  apply LeavesBlock.refl
  intro call hCall block hBlock
  cases hBlock
  exact absurd rfl (hCalls _ hCall block)

theorem leavesBlock_addr
    {peer next : BRPeerContext}
    {msg : List UInt8}
    {now : UInt64}
    {calls : List Call}
    {isAccepted : Bool}
    (hAddr :
      peer.acceptAddrMessage msg now =
        .ok (next, calls, isAccepted))
    (announced : List UInt256) :
    LeavesBlock peer next calls announced := by
  unfold acceptAddrMessage at hAddr
  dsimp only at hAddr
  split at hAddr
  · cases hAddr
    exact LeavesBlock.refl_nil _ _
  split at hAddr
  · cases hAddr
    exact LeavesBlock.refl_nil _ _
  split at hAddr
  · rw [bind_eq_ok_iff] at hAddr
    rcases hAddr with ⟨items, -, hAddr⟩
    cases hAddr
    apply leavesBlock_of_calls
    intro call hCall block
    split_ifs at hCall
    · simp at hCall
    · rw [List.mem_singleton.mp hCall]
      exact nofun
  · cases hAddr
    exact LeavesBlock.refl_nil _ _

theorem leavesBlock_getdata
    {peer next : BRPeerContext}
    {msg : List UInt8}
    {calls : List Call}
    {isAccepted : Bool}
    (hGetdata :
      peer.acceptGetdataMessage msg =
        .ok (next, calls, isAccepted))
    (announced : List UInt256) :
    LeavesBlock peer next calls announced := by
  unfold acceptGetdataMessage at hGetdata
  split at hGetdata
  · cases hGetdata
    exact LeavesBlock.refl_nil _ _
  split at hGetdata
  · cases hGetdata
    exact LeavesBlock.refl_nil _ _
  rw [bind_eq_ok_iff] at hGetdata
  rcases hGetdata with ⟨items, -, hGetdata⟩
  cases hGetdata
  apply leavesBlock_of_calls
  intro call hCall block
  rcases List.mem_map.mp hCall with ⟨hash, -, rfl⟩
  exact nofun

theorem leavesBlock_notfound
    {peer next : BRPeerContext}
    {msg : List UInt8}
    {calls : List Call}
    {isAccepted : Bool}
    (hNotfound :
      peer.acceptNotfoundMessage msg =
        .ok (next, calls, isAccepted))
    (announced : List UInt256) :
    LeavesBlock peer next calls announced := by
  unfold acceptNotfoundMessage at hNotfound
  split at hNotfound
  · cases hNotfound
    exact LeavesBlock.refl_nil _ _
  split at hNotfound
  · cases hNotfound
    exact LeavesBlock.refl_nil _ _
  rw [bind_eq_ok_iff] at hNotfound
  rcases hNotfound with ⟨items, -, hNotfound⟩
  cases hNotfound
  apply leavesBlock_of_calls
  intro call hCall block
  rw [List.mem_singleton.mp hCall]
  exact nofun

theorem leavesBlock_reject
    {peer next : BRPeerContext}
    {msg : List UInt8}
    {calls : List Call}
    {isAccepted : Bool}
    (hReject :
      peer.acceptRejectMessage msg =
        .ok (next, calls, isAccepted))
    (announced : List UInt256) :
    LeavesBlock peer next calls announced := by
  unfold acceptRejectMessage at hReject
  dsimp only at hReject
  split at hReject
  · cases hReject
    exact LeavesBlock.refl_nil _ _
  rw [bind_eq_ok_iff] at hReject
  rcases hReject with ⟨type, -, hReject⟩
  rw [bind_eq_ok_iff] at hReject
  rcases hReject with ⟨code, -, hReject⟩
  generalize (if type = MSG_TX then 32 else 0) = hashLen
    at hReject
  split at hReject
  · cases hReject
    exact LeavesBlock.refl_nil _ _
  simp only [bind_eq_ok_iff, Except.ok.injEq, Prod.mk.injEq]
    at hReject
  rcases hReject with ⟨reason, -, txHash, -, rfl, rfl, -⟩
  apply leavesBlock_of_calls
  intro call hCall block
  split at hCall
  · simp at hCall
  · rw [List.mem_singleton.mp hCall]
    exact nofun

theorem leavesBlock_version
    {peer next : BRPeerContext}
    {msg : List UInt8}
    {calls : List Call}
    {isAccepted : Bool}
    (hVersion :
      peer.acceptVersionMessage msg =
        .ok (next, calls, isAccepted))
    (announced : List UInt256) :
    LeavesBlock peer next calls announced := by
  unfold acceptVersionMessage at hVersion
  split at hVersion
  · cases hVersion
    exact LeavesBlock.refl_nil _ _
  rw [bind_eq_ok_iff] at hVersion
  rcases hVersion with ⟨version, -, hVersion⟩
  rw [bind_eq_ok_iff] at hVersion
  rcases hVersion with ⟨other, -, hVersion⟩
  dsimp only at hVersion
  split at hVersion
  · cases hVersion
    exact ⟨rfl, rfl, fun _ hHash => Or.inl hHash, by simp⟩
  split at hVersion
  · cases hVersion
    exact ⟨rfl, rfl, fun _ hHash => Or.inl hHash, by simp⟩
  rw [bind_eq_ok_iff] at hVersion
  rcases hVersion with ⟨useragent, -, hVersion⟩
  rw [bind_eq_ok_iff] at hVersion
  rcases hVersion with ⟨lastblock, -, hVersion⟩
  cases hVersion
  exact ⟨rfl, rfl, fun _ hHash => Or.inl hHash, by simp⟩

------------------------------------------------------------
-- Headers
------------------------------------------------------------

theorem payload_eq_ok_iff
    {Value : Type}
    {read : Option Value}
    {value : Value} :
    payload read = .ok value ↔ read = some value := by
  cases read <;> simp [payload]

theorem arrays_eq_ok_iff
    {Value : Type}
    {access : Option Value}
    {value : Value} :
    arrays access = .ok value ↔ access = some value := by
  cases access <;> simp [arrays]

/- A header has no hashes. -/
theorem hashesCount_of_header
    {sha256_2 : List UInt8 → UInt256}
    {buf : List UInt8}
    {block : BRMerkleBlock UInt256}
    (hLength : buf.length < 84)
    (hParse :
      BRMerkleBlock.parse sha256_2 buf = some (some block)) :
    block.hashesCount = 0 := by
  unfold BRMerkleBlock.parse at hParse
  split at hParse
  · cases hParse
  · simp only [Option.bind_eq_bind, if_neg (not_le.mpr hLength),
      Option.bind_eq_some_iff, Option.some_inj,
      exists_eq_left'] at hParse
    rcases hParse with
      ⟨version, -, prevBlock, -, merkleRoot, -, timestamp, -,
        target, -, nonce, -, rfl⟩
    rfl

theorem matchedHashes_of_hashesCount
    {block : BRMerkleBlock UInt256}
    (hCount : block.hashesCount = 0) :
    block.matchedHashes = some [] := by
  simp [BRMerkleBlock.matchedHashes, BRMerkleBlock.txHashes,
    BRMerkleBlock.txHashesR, BRMerkleBlock.maxDepth,
    BRMerkleBlock.hasNext, hCount]

theorem plain_relayHeaders
    {sha256_2 : List UInt8 → UInt256}
    {msg : List UInt8}
    {off : Nat}
    {now : UInt64}
    {rounds index : Nat}
    {calls : List Call}
    {isAccepted : Bool}
    (hRelay :
      relayHeaders sha256_2 msg off now rounds index =
        .ok (calls, isAccepted)) :
    ∀ call ∈ calls, Plain (.called call) := by
  induction rounds generalizing index calls isAccepted with
  | zero =>
      cases hRelay
      simp
  | succ rounds ih =>
      unfold relayHeaders at hRelay
      simp only [bind_eq_ok_iff, headerAt, payload_eq_ok_iff,
        arrays_eq_ok_iff] at hRelay
      rcases hRelay with
        ⟨header, hHeader, parsed, hParsed, block, rfl,
          isValid, -, hRelay⟩
      split at hRelay
      · cases hRelay
        simp
      · rw [bind_eq_ok_iff] at hRelay
        rcases hRelay with ⟨⟨rest, isRest⟩, hRest, hRelay⟩
        cases hRelay
        have hLength : header.length < 84 := by
          unfold Bytes.slice at hHeader
          split_ifs at hHeader
          cases hHeader
          exact lt_of_le_of_lt (List.length_take_le _ _)
            (by decide)
        have hMatched :=
          matchedHashes_of_hashesCount
            (hashesCount_of_header hLength hParsed)
        rw [List.forall_mem_cons]
        refine ⟨?_, ih hRest⟩
        intro other hOther hashes hHashes
        cases hOther
        rw [hMatched] at hHashes
        exact (Option.some.inj hHashes).symm

theorem leavesBlock_headers
    {sha256_2 : List UInt8 → UInt256}
    {peer next : BRPeerContext}
    {msg : List UInt8}
    {now : UInt64}
    {calls : List Call}
    {isAccepted : Bool}
    (hHeaders :
      peer.acceptHeadersMessage sha256_2 msg now =
        .ok (next, calls, isAccepted))
    (announced : List UInt256) :
    LeavesBlock peer next calls announced := by
  unfold acceptHeadersMessage at hHeaders
  dsimp only at hHeaders
  split at hHeaders
  · cases hHeaders
    exact LeavesBlock.refl_nil _ _
  rw [bind_eq_ok_iff] at hHeaders
  rcases hHeaders with ⟨timestamp, -, hHeaders⟩
  split at hHeaders
  · rw [bind_eq_ok_iff] at hHeaders
    rcases hHeaders with ⟨locators, -, hHeaders⟩
    rw [bind_eq_ok_iff] at hHeaders
    rcases hHeaders with ⟨⟨relayed, isRelayed⟩, hRelay, hNext⟩
    cases hNext
    exact LeavesBlock.refl _ (plain_relayHeaders hRelay) _
  · cases hHeaders
    exact LeavesBlock.refl_nil _ _

------------------------------------------------------------
-- The Condition
------------------------------------------------------------

/- A hash that was told if it was announced. -/
def Came (history : History) (hash : UInt256) : Prop :=
  hash ∈ history.announced → hash ∈ told history.exchanged

/-
  A block with no unknown hash, and a block whose last awaited
  transaction comes, have no hash that an inventory announced
  and that has not come since.
-/
def ReceivesAnnounced
    (sha256_2 : List UInt8 → UInt256)
    (history : History) : Event → Prop
  | .message .merkleblock msg now =>
      history.peer.currentBlock = none →
        (history.peer.sentFilter || history.peer.sentGetdata) →
          ∀ block,
            BRMerkleBlock.parse sha256_2 msg =
                some (some block) →
              block.isValid sha256_2 now.toUInt32 = some true →
                ∀ hashes ∈ block.matchedHashes,
                  hashes ⊆ history.peer.knownTxHashes →
                    ∀ hash ∈ hashes, Came history hash
  | .message .tx msg _ =>
      (history.peer.sentFilter || history.peer.sentGetdata) →
        ∀ tx,
          BRTransaction.parse sha256_2 msg = some (some tx) →
            ∀ block ∈ history.peer.currentBlock,
              history.peer.currentBlockTxHashes.erase
                  tx.txHash = [] →
                ∀ hashes ∈ block.matchedHashes,
                  ∀ hash ∈ hashes,
                    hash ≠ tx.txHash → Came history hash
  | _ => True

/-
  What a step does: it keeps the state of the collection, and
  delivers if the condition is met.
-/
structure Delivers
    (sha256_2 : List UInt8 → UInt256)
    (history : History)
    (event : Event)
    (next : History) : Prop where
  collects : Collects next
  delivered_iff :
    Delivered next.exchanged ↔
      Delivered history.exchanged ∧
        ReceivesAnnounced sha256_2 history event

theorem Quiet.delivers
    {sha256_2 : List UInt8 → UInt256}
    {history next : History}
    {event : Event}
    (hQuiet : Quiet history next)
    (hCollects : Collects history)
    (hMet : ReceivesAnnounced sha256_2 history event) :
    Delivers sha256_2 history event next where
  collects := hQuiet.collects hCollects
  delivered_iff := by
    rw [hQuiet.delivered_iff]
    exact (and_iff_left hMet).symm

/- The history behind a message. -/
def History.behind
    (history : History)
    (type : MessageType)
    (msg : List UInt8)
    (accepted : Accepted) : History where
  peer := accepted.1
  isOpen := accepted.2.2
  exchanged :=
    history.exchanged ++ accepted.2.1.map Exchange.called
  announced := history.announced ++ announcedBy type msg

theorem quiet_of_leavesBlock
    {history : History}
    {type : MessageType}
    {msg : List UInt8}
    {accepted : Accepted}
    (hLeaves :
      LeavesBlock history.peer accepted.1 accepted.2.1
        (announcedBy type msg)) :
    Quiet history (history.behind type msg accepted) where
  exchanged := by
    refine ⟨_, rfl, ?_⟩
    intro exchange hExchange
    rcases List.mem_map.mp hExchange with ⟨call, hCall, rfl⟩
    exact hLeaves.plain call hCall
  announced := List.subset_append_left _ _
  currentBlock := hLeaves.currentBlock
  currentBlockTxHashes := hLeaves.currentBlockTxHashes
  known := by
    intro hash hHash
    rcases hLeaves.known hash hHash with hOld | hNew
    · exact Or.inl hOld
    · exact Or.inr (Or.inr (List.mem_append_right _ hNew))

/- What was told or announced stays so. -/
theorem told_or_announced_behind
    {history : History}
    {hash : UInt256}
    (hBefore :
      hash ∈ told history.exchanged ∨
        hash ∈ history.announced)
    (type : MessageType)
    (msg : List UInt8)
    (accepted : Accepted) :
    hash ∈ told (history.behind type msg accepted).exchanged ∨
      hash ∈ (history.behind type msg accepted).announced :=
  hBefore.imp (fun hTold => told_subset _ _ hTold)
    (fun hAnnounced => List.mem_append_left _ hAnnounced)

------------------------------------------------------------
-- Transactions
------------------------------------------------------------

theorem delivers_tx
    {sha256_2 : List UInt8 → UInt256}
    {history : History}
    (hCollects : Collects history)
    {msg : List UInt8}
    {now : UInt64}
    {accepted : Accepted}
    (hTx :
      history.peer.acceptTxMessage sha256_2 msg =
        .ok accepted) :
    Delivers sha256_2 history (.message .tx msg now)
      (history.behind .tx msg accepted) := by
  unfold acceptTxMessage at hTx
  rw [bind_eq_ok_iff] at hTx
  simp only [payload_eq_ok_iff] at hTx
  rcases hTx with ⟨_ | tx, hParse, hTx⟩
  · cases hTx
    apply (quiet_of_leavesBlock
      (LeavesBlock.refl_nil _ _)).delivers hCollects
    intro _ tx hOther
    rw [hParse] at hOther
    cases hOther
  dsimp only at hTx
  split at hTx
  · rename_i hNoFilter
    cases hTx
    apply (quiet_of_leavesBlock
      (LeavesBlock.refl_nil _ _)).delivers hCollects
    intro hSent
    simp [hNoFilter] at hSent
  rename_i hSent
  have hSent :
      (history.peer.sentFilter ||
        history.peer.sentGetdata) = true := by
    by_contra hNone
    simp only [Bool.not_eq_true, Bool.or_eq_false_iff]
      at hNone
    exact hSent hNone
  have hOnly :
      ∀ other,
        BRTransaction.parse sha256_2 msg = some (some other) →
          other = tx := by
    intro other hOther
    rw [hParse] at hOther
    cases hOther
    rfl
  cases hTx
  unfold collectTx
  rcases hBlock : history.peer.currentBlock with _ | block
  · apply (quiet_of_leavesBlock
      (leavesBlock_of_calls _ (by simp) _)).delivers hCollects
    intro _ other _ block hOther
    rw [hBlock] at hOther
    cases hOther
  have hErase :
      (history.peer.currentBlockTxHashes.reverse.erase
          tx.txHash).reverse = [] ↔
        history.peer.currentBlockTxHashes.erase tx.txHash =
          [] := by
    rw [List.reverse_eq_nil_iff, ← List.length_eq_zero_iff,
      ← List.length_eq_zero_iff,
      ((List.reverse_perm _).erase tx.txHash).length_eq]
  dsimp only
  split
  · -- the last transaction that was awaited
    rename_i hLast
    rw [hErase] at hLast
    refine ⟨⟨?_, fun _ => rfl, by simp [History.behind]⟩, ?_⟩
    · intro hash hHash
      exact told_or_announced_behind
        (hCollects.known hash hHash) _ _ _
    · have hSplit :
          (history.behind .tx msg
              ({ history.peer with
                  currentBlock := none
                  currentBlockTxHashes := [] },
                [.relayedTx tx, .relayedBlock block],
                true)).exchanged =
            (history.exchanged ++ [.called (.relayedTx tx)]) ++
              [.called (.relayedBlock block)] := by
        simp [History.behind]
      have hTold :
          ∀ hash,
            hash ∈ told
                (history.exchanged ++
                  [.called (.relayedTx tx)]) ↔
              hash ∈ told history.exchanged ∨
                hash = tx.txHash := by
        intro hash
        rw [told_append, List.mem_append]
        simp [told, Exchange.told]
      rw [hSplit, delivered_concat_iff,
        delivered_append_of_plain _ (by simp [Plain])]
      refine and_congr_right fun _ => ?_
      constructor
      · intro hAll _ other hOther collected hCollected _
          hashes hHashes hash hHash hNe _
        cases hOnly other hOther
        rw [hBlock] at hCollected
        cases hCollected
        rcases (hTold hash).mp
            (hAll block rfl hashes hHashes hash hHash) with
          hBefore | hSame
        · exact hBefore
        · exact absurd hSame hNe
      · intro hMet relayed hRelayed hashes hHashes hash hHash
        cases hRelayed
        rw [hTold]
        by_cases hSame : hash = tx.txHash
        · exact Or.inr hSame
        · left
          rcases hCollects.collecting block hBlock hashes
              hHashes hash hHash with
            hAwaited | hBefore | hAnnounced
          · have hNone :=
              (List.mem_erase_of_ne hSame).mpr hAwaited
            rw [hLast] at hNone
            simp at hNone
          · exact hBefore
          · exact hMet hSent tx hParse block hBlock hLast
              hashes hHashes hash hHash hSame hAnnounced
  · -- a transaction before the last one
    rename_i hMore
    have hMore' := hMore
    rw [hErase] at hMore'
    refine ⟨⟨?_, ?_, ?_⟩, ?_⟩
    · intro hash hHash
      exact told_or_announced_behind
        (hCollects.known hash hHash) _ _ _
    · intro hNone
      cases hNone
    · intro collected hCollected hashes hHashes hash hHash
      cases hCollected
      rcases hCollects.collecting block hBlock hashes hHashes
          hash hHash with hAwaited | hBefore
      · by_cases hSame : hash = tx.txHash
        · right
          left
          change hash ∈ told (history.exchanged ++ _)
          rw [told_append, hSame]
          apply List.mem_append_right
          simp [told, Exchange.told]
        · left
          change hash ∈
            (history.peer.currentBlockTxHashes.reverse.erase
              tx.txHash).reverse
          rw [List.mem_reverse, List.mem_erase_of_ne hSame,
            List.mem_reverse]
          exact hAwaited
      · exact Or.inr
          (told_or_announced_behind hBefore _ _ _)
    · have hQuiet :
          Delivered
              (history.exchanged ++
                [Call.relayedTx tx].map Exchange.called) ↔
            Delivered history.exchanged :=
        delivered_append_of_plain _ (by simp [Plain])
      refine hQuiet.trans (and_iff_left ?_).symm
      intro _ other hOther collected _ hLast
      cases hOnly other hOther
      exact absurd hLast hMore'

------------------------------------------------------------
-- Blocks
------------------------------------------------------------

theorem delivers_merkleblock
    {sha256_2 : List UInt8 → UInt256}
    {history : History}
    (hCollects : Collects history)
    (hFree : history.peer.currentBlock = none)
    {msg : List UInt8}
    {now : UInt64}
    {accepted : Accepted}
    (hMerkleblock :
      history.peer.acceptMerkleblockMessage sha256_2 msg now =
        .ok accepted) :
    Delivers sha256_2 history (.message .merkleblock msg now)
      (history.behind .merkleblock msg accepted) := by
  unfold acceptMerkleblockMessage at hMerkleblock
  rw [bind_eq_ok_iff] at hMerkleblock
  simp only [payload_eq_ok_iff] at hMerkleblock
  rcases hMerkleblock with
    ⟨_ | block, hParse, hMerkleblock⟩
  · cases hMerkleblock
    apply (quiet_of_leavesBlock
      (LeavesBlock.refl_nil _ _)).delivers hCollects
    intro _ _ block hOther
    rw [hParse] at hOther
    cases hOther
  have hOnly :
      ∀ other,
        BRMerkleBlock.parse sha256_2 msg = some (some other) →
          other = block := by
    intro other hOther
    rw [hParse] at hOther
    cases hOther
    rfl
  simp only [bind_eq_ok_iff, arrays_eq_ok_iff]
    at hMerkleblock
  rcases hMerkleblock with ⟨isValid, hIsValid, hMerkleblock⟩
  split at hMerkleblock
  · rename_i hInvalid
    cases hMerkleblock
    apply (quiet_of_leavesBlock
      (LeavesBlock.refl_nil _ _)).delivers hCollects
    intro _ _ other hOther hValid
    cases hOnly other hOther
    rw [hIsValid] at hValid
    cases hValid
    cases hInvalid
  rename_i hValid
  rw [Bool.not_eq_true, Bool.not_eq_false'] at hValid
  subst hValid
  split at hMerkleblock
  · rename_i hNoFilter
    cases hMerkleblock
    apply (quiet_of_leavesBlock
      (LeavesBlock.refl_nil _ _)).delivers hCollects
    intro _ hSent
    simp [hNoFilter] at hSent
  rename_i hSent
  have hSent :
      (history.peer.sentFilter ||
        history.peer.sentGetdata) = true := by
    by_contra hNone
    simp only [Bool.not_eq_true, Bool.or_eq_false_iff]
      at hNone
    exact hSent hNone
  simp only [bind_eq_ok_iff, arrays_eq_ok_iff]
    at hMerkleblock
  rcases hMerkleblock with ⟨hashes, hHashes, hMerkleblock⟩
  cases hMerkleblock
  have hAwaited :
      history.peer.currentBlockTxHashes ++
          (hashes.reverse.filter fun hash =>
            hash ∉ history.peer.knownTxHashes) = [] ↔
        hashes ⊆ history.peer.knownTxHashes := by
    rw [hCollects.idle hFree, List.nil_append,
      List.filter_eq_nil_iff]
    simp [List.subset_def]
  unfold collectBlock
  dsimp only
  split
  · -- all of its transactions are known
    rename_i hKnown
    rw [hAwaited] at hKnown
    refine ⟨⟨?_, hCollects.idle, ?_⟩, ?_⟩
    · intro hash hHash
      exact told_or_announced_behind
        (hCollects.known hash hHash) _ _ _
    · intro collected hCollected
      change collected ∈ history.peer.currentBlock
        at hCollected
      rw [hFree] at hCollected
      cases hCollected
    · change Delivered
          (history.exchanged ++
            [.called (.relayedBlock block)]) ↔ _
      rw [delivered_concat_iff]
      refine and_congr_right fun _ => ?_
      constructor
      · intro hAll _ _ other hOther _ matched hMatched _ hash
          hHash _
        cases hOnly other hOther
        exact hAll block rfl matched hMatched hash hHash
      · intro hMet relayed hRelayed matched hMatched hash hHash
        cases hRelayed
        rw [hHashes] at hMatched
        cases hMatched
        rcases hCollects.known hash (hKnown hHash) with
          hTold | hAnnounced
        · exact hTold
        · exact hMet hFree hSent block hParse hIsValid hashes
            hHashes hKnown hash hHash hAnnounced
  · -- some transaction is waited for
    rename_i hUnknown
    have hSome := hUnknown
    rw [hAwaited] at hUnknown
    refine ⟨⟨?_, ?_, ?_⟩, ?_⟩
    · intro hash hHash
      exact told_or_announced_behind
        (hCollects.known hash hHash) _ _ _
    · intro hNone
      cases hNone
    · intro collected hCollected matched hMatched hash hHash
      cases hCollected
      rw [hHashes] at hMatched
      cases hMatched
      by_cases hKnown : hash ∈ history.peer.knownTxHashes
      · exact Or.inr
          (told_or_announced_behind
            (hCollects.known hash hKnown) _ _ _)
      · left
        apply List.mem_append_right
        simp [hHash, hKnown]
    · have hQuiet :
          Delivered
              (history.exchanged ++
                ([] : List Call).map Exchange.called) ↔
            Delivered history.exchanged := by
        simp
      refine hQuiet.trans (and_iff_left ?_).symm
      intro _ _ other hOther _ matched hMatched hKnown
      cases hOnly other hOther
      rw [hHashes] at hMatched
      cases hMatched
      exact absurd hKnown hUnknown

------------------------------------------------------------
-- Steps
------------------------------------------------------------

theorem delivers_message
    {sha256_2 : List UInt8 → UInt256}
    {history : History}
    (hCollects : Collects history)
    {type : MessageType}
    {msg : List UInt8}
    {now : UInt64}
    {accepted : Accepted}
    (hMessage :
      history.peer.acceptMessage sha256_2 type msg now =
        .ok accepted) :
    Delivers sha256_2 history (.message type msg now)
      (history.behind type msg accepted) := by
  unfold acceptMessage at hMessage
  split at hMessage
  · -- an incomplete block is dropped
    rename_i hIncomplete
    cases hMessage
    refine ⟨⟨?_, fun _ => rfl, by simp [History.behind]⟩, ?_⟩
    · intro hash hHash
      exact told_or_announced_behind
        (hCollects.known hash hHash) _ _ _
    · have hQuiet :
          Delivered
              (history.exchanged ++
                ([] : List Call).map Exchange.called) ↔
            Delivered history.exchanged := by
        simp
      refine hQuiet.trans (and_iff_left ?_).symm
      cases type with
      | merkleblock =>
          intro hNone
          rw [hNone] at hIncomplete
          exact absurd hIncomplete.1 (by simp)
      | tx => exact absurd rfl hIncomplete.2
      | _ => trivial
  · rename_i hComplete
    cases type with
    | tx => exact delivers_tx hCollects hMessage
    | merkleblock =>
        apply delivers_merkleblock hCollects _ hMessage
        simpa using hComplete
    | version =>
        exact (quiet_of_leavesBlock
          (leavesBlock_version hMessage _)).delivers hCollects
            trivial
    | addr =>
        exact (quiet_of_leavesBlock
          (leavesBlock_addr hMessage _)).delivers hCollects
            trivial
    | inv =>
        exact (quiet_of_leavesBlock
          (leavesBlock_inv hMessage)).delivers hCollects trivial
    | headers =>
        exact (quiet_of_leavesBlock
          (leavesBlock_headers hMessage _)).delivers hCollects
            trivial
    | getdata =>
        exact (quiet_of_leavesBlock
          (leavesBlock_getdata hMessage _)).delivers hCollects
            trivial
    | notfound =>
        exact (quiet_of_leavesBlock
          (leavesBlock_notfound hMessage _)).delivers hCollects
            trivial
    | reject =>
        exact (quiet_of_leavesBlock
          (leavesBlock_reject hMessage _)).delivers hCollects
            trivial
    | other isAccepted =>
        cases hMessage
        exact (quiet_of_leavesBlock
          (LeavesBlock.refl_nil _ _)).delivers hCollects trivial

theorem quiet_update
    (history : History)
    {peer : BRPeerContext}
    (hCurrentBlock :
      peer.currentBlock = history.peer.currentBlock)
    (hTxHashes :
      peer.currentBlockTxHashes =
        history.peer.currentBlockTxHashes)
    (hKnown :
      peer.knownTxHashes = history.peer.knownTxHashes) :
    Quiet history (history.update peer) where
  exchanged := ⟨[], (List.append_nil _).symm, by simp⟩
  announced := List.Subset.refl _
  currentBlock := hCurrentBlock
  currentBlockTxHashes := hTxHashes
  known := by
    intro hash hHash
    change hash ∈ peer.knownTxHashes at hHash
    rw [hKnown] at hHash
    exact Or.inl hHash

theorem quiet_register
    (history : History)
    {peer : BRPeerContext}
    {txHashes : List UInt256}
    (hCurrentBlock :
      peer.currentBlock = history.peer.currentBlock)
    (hTxHashes :
      peer.currentBlockTxHashes =
        history.peer.currentBlockTxHashes)
    (hKnown :
      peer.knownTxHashes =
        (history.peer.addKnownTxHashes
          txHashes).knownTxHashes) :
    Quiet history (history.register peer txHashes) where
  exchanged := ⟨[.registered txHashes], rfl, by simp [Plain]⟩
  announced := List.Subset.refl _
  currentBlock := hCurrentBlock
  currentBlockTxHashes := hTxHashes
  known := by
    intro hash hHash
    change hash ∈ peer.knownTxHashes at hHash
    rw [hKnown] at hHash
    apply (mem_addKnownTxHashes hHash).imp_right
    intro hNew
    left
    change hash ∈ told (history.exchanged ++ _)
    rw [told_append]
    apply List.mem_append_right
    simpa [told, Exchange.told] using hNew

theorem delivers_step
    {sha256_2 : List UInt8 → UInt256}
    {history next : History}
    (hCollects : Collects history)
    {event : Event}
    (hStep : step sha256_2 history event = some next) :
    Delivers sha256_2 history event next := by
  cases event with
  | message type msg now =>
      unfold step at hStep
      dsimp only at hStep
      split at hStep
      · rw [Option.bind_eq_bind, Option.bind_eq_some_iff]
          at hStep
        rcases hStep with ⟨accepted, hAccepted, hNext⟩
        cases hNext
        apply delivers_message hCollects
        revert hAccepted
        cases history.peer.acceptMessage sha256_2 type msg now
          with
        | error fault => exact nofun
        | ok other =>
            intro hAccepted
            exact congrArg _ (Option.some.inj hAccepted)
      · cases hStep
  | sendMempool knownTxHashes completionCallback =>
      unfold step at hStep
      dsimp only at hStep
      split at hStep
      · rename_i hCan
        cases hStep
        refine Quiet.delivers ?_ hCollects trivial
        apply quiet_register <;> simp [sendMempool, hCan,
          addKnownTxHashes]
      · rename_i hCannot
        cases hStep
        refine Quiet.delivers ?_ hCollects trivial
        apply quiet_update <;> simp [sendMempool, hCannot]
  | sendInv txHashes =>
      cases hStep
      refine Quiet.delivers ?_ hCollects trivial
      apply quiet_register <;> rfl
  | sendGetdata txHashes blockHashes =>
      cases hStep
      refine Quiet.delivers ?_ hCollects trivial
      apply quiet_update <;> simp
  | rerequestBlocks fromBlock =>
      cases hStep
      refine Quiet.delivers ?_ hCollects trivial
      apply quiet_update <;>
        (unfold rerequestBlocks
         dsimp only
         split_ifs <;> simp)
  | sendGetaddr =>
      cases hStep
      refine Quiet.delivers ?_ hCollects trivial
      exact quiet_update _ rfl rfl rfl
  | sendFilterload =>
      cases hStep
      refine Quiet.delivers ?_ hCollects trivial
      exact quiet_update _ rfl rfl rfl
  | setNeedsFilterUpdate needsFilterUpdate =>
      cases hStep
      refine Quiet.delivers ?_ hCollects trivial
      exact quiet_update _ rfl rfl rfl
  | setEarliestKeyTime earliestKeyTime =>
      cases hStep
      refine Quiet.delivers ?_ hCollects trivial
      exact quiet_update _ rfl rfl rfl
  | setCurrentBlockHeight currentBlockHeight =>
      cases hStep
      refine Quiet.delivers ?_ hCollects trivial
      exact quiet_update _ rfl rfl rfl
  | mempoolTimeout =>
      cases hStep
      refine Quiet.delivers ?_ hCollects trivial
      exact quiet_update _ rfl rfl rfl

------------------------------------------------------------
-- Runs
------------------------------------------------------------

theorem delivered_run_iff
    {sha256_2 : List UInt8 → UInt256}
    {history final : History}
    (hCollects : Collects history)
    {events : List Event}
    (hRun : run (step sha256_2) history events = some final) :
    Delivered final.exchanged ↔
      Delivered history.exchanged ∧
        Meets (step sha256_2) (ReceivesAnnounced sha256_2)
          history events := by
  induction events generalizing history with
  | nil =>
      cases hRun
      exact (and_iff_left trivial).symm
  | cons event events ih =>
      rw [run_cons, Option.bind_eq_some_iff] at hRun
      rcases hRun with ⟨next, hNext, hRest⟩
      have hDelivers := delivers_step hCollects hNext
      rw [ih hDelivers.collects hRest, hDelivers.delivered_iff,
        and_assoc]
      refine and_congr_right fun _ => and_congr_right fun _ => ?_
      constructor
      · intro hLater other hOther
        rw [hNext] at hOther
        cases hOther
        exact hLater
      · exact fun hLater => hLater next hNext

/-
  In every run from a new connection all blocks come behind
  their transactions exactly if no block is relayed with a
  hash that an inventory announced and that has not come.
-/
theorem delivered_iff_of_run
    {sha256_2 : List UInt8 → UInt256}
    {events : List Event}
    {final : History}
    (hRun :
      run (step sha256_2) History.start events = some final) :
    Delivered final.exchanged ↔
      Meets (step sha256_2) (ReceivesAnnounced sha256_2)
        History.start events := by
  rw [delivered_run_iff collects_start hRun]
  exact and_iff_right delivered_nil

/- The one transaction of the first block of the chain. -/
def genesisTx : List UInt8 :=
  [0x3b, 0xa3, 0xed, 0xfd, 0x7a, 0x7b, 0x12, 0xb2,
    0x7a, 0xc7, 0x2c, 0x3e, 0x67, 0x76, 0x8f, 0x61,
    0x7f, 0xc8, 0x1b, 0xc3, 0x88, 0x8a, 0x51, 0x32,
    0x3a, 0x9f, 0xb8, 0xaa, 0x4b, 0x1e, 0x5e, 0x4a]

/- The header of that block. -/
def genesisHeader : List UInt8 :=
  [0x01, 0x00, 0x00, 0x00] ++ List.replicate 32 0 ++
    genesisTx ++
    [0x29, 0xab, 0x5f, 0x49, 0xff, 0xff, 0x00, 0x1d,
     0x1d, 0xac, 0x2b, 0x7c]

def genesisHash : List UInt8 :=
  [0x6f, 0xe2, 0x8c, 0x0a, 0xb6, 0xf1, 0xb3, 0x72,
    0xc1, 0xa6, 0xa2, 0x46, 0xae, 0x63, 0xf7, 0x4f,
    0x93, 0x1e, 0x83, 0x65, 0xe1, 0x5a, 0x08, 0x9c,
    0x68, 0xd6, 0x19, 0x00, 0x00, 0x00, 0x00, 0x00]

/- The digests that are needed to check it. -/
def genesisSha256_2 (bytes : List UInt8) : UInt256 :=
  if bytes = genesisHeader then hashOfBytes genesisHash else 0

/- An inventory with the transaction. -/
def genesisInv : List UInt8 :=
  [1] ++ [1, 0, 0, 0] ++ genesisTx

/- The block with the transaction matched. -/
def genesisMerkleblock : List UInt8 :=
  genesisHeader ++ [1, 0, 0, 0] ++ [1] ++ genesisTx ++ [1, 1]

/- The time at which the messages come. -/
def genesisNow : UInt64 := 1231006505

/- An inventory that comes again tells of the transaction. -/
theorem delivered_of_announced_twice :
    ∃ final,
      run (step genesisSha256_2) History.start
          [.sendFilterload,
            .message .inv genesisInv genesisNow,
            .message .inv genesisInv genesisNow,
            .message .merkleblock genesisMerkleblock
              genesisNow] =
          some final ∧
        (Delivered final.exchanged ↔
          Meets (step genesisSha256_2)
            (ReceivesAnnounced genesisSha256_2) History.start
            [.sendFilterload,
              .message .inv genesisInv genesisNow,
              .message .inv genesisInv genesisNow,
              .message .merkleblock genesisMerkleblock
                genesisNow]) ∧
        final.exchanged.length = 2 := by
  have hLength :
      (run (step genesisSha256_2) History.start
          [.sendFilterload,
            .message .inv genesisInv genesisNow,
            .message .inv genesisInv genesisNow,
            .message .merkleblock genesisMerkleblock
              genesisNow]).map
          (fun final => final.exchanged.length) = some 2 := by
    decide +kernel
  rcases Option.map_eq_some_iff.mp hLength with
    ⟨final, hFinal, hTwo⟩
  exact ⟨final, hFinal, delivered_iff_of_run hFinal, hTwo⟩

/-
  A transaction that was announced is not waited for: its
  block is relayed before it comes.
-/
theorem not_delivered_of_announced :
    ¬ ∀ (sha256_2 : List UInt8 → UInt256)
        (events : List Event) (final : History),
        run (step sha256_2) History.start events =
            some final →
          Delivered final.exchanged := by
  intro hAll
  have hFirst :
      ((run (step genesisSha256_2) History.start
          [.sendFilterload,
            .message .inv genesisInv genesisNow,
            .message .merkleblock genesisMerkleblock
              genesisNow]).map
          fun final =>
            final.exchanged.map fun exchange =>
              match exchange with
              | .called (.relayedBlock block) =>
                  block.matchedHashes
              | _ => none) =
        some [some [hashOfBytes genesisTx]] := by
    decide +kernel
  rcases Option.map_eq_some_iff.mp hFirst with
    ⟨final, hFinal, hOne⟩
  have hDelivered := hAll _ _ final hFinal
  rcases hExchanged : final.exchanged with _ | ⟨first, rest⟩
  · rw [hExchanged] at hOne
    cases hOne
  · rw [hExchanged, List.map_cons, List.cons.injEq] at hOne
    rcases first with ⟨_ | _ | _ | _ | block | _ | _⟩ | _
    case called.relayedBlock =>
      have hMatched :=
        hDelivered [] block rest hExchanged _ hOne.1 _
          List.mem_cons_self
      simp [told] at hMatched
    all_goals exact absurd hOne.1 nofun

end BRPeerContext

end PlusWallet
