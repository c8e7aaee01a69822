import PlusWallet.Ethereum.BREthereumBlock
import PlusWallet.Ethereum.BREthereumLightNode
import PlusWallet.Ethereum.WalletOrder
import PlusWallet.Library.Run

/-
  Announcements in any order: when each transaction of the chain
  has one entry in a wallet, and keeps its place in a block.

  Main declarations:
    * `Ethereum.NodeHistory`, `Ethereum.NodeEvent`
    * `Ethereum.Truthful`, `Ethereum.InTurn`
    * `Ethereum.Faithful`, `Ethereum.faithful_step_iff`
    * `Ethereum.announcement_law`
-/

namespace PlusWallet

open KeyedOrder Bytes

namespace Ethereum

------------------------------------------------------------
-- Histories
------------------------------------------------------------

/-
  A node, the hashes that its transactions have on the chain,
  those announced to a wallet, and how each transaction was
  first blocked
-/
structure NodeHistory where
  node : BREthereumLightNode
  identity : TransactionPointer → BREthereumHash
  announced : Option BREthereumToken → List BREthereumHash
  settled :
    TransactionPointer → Option BREthereumTransactionState

/-
  A step, with the hash that a transaction which is created will
  have when it is signed
-/
structure NodeEvent where
  step : NodeStep
  signedHash : BREthereumHash

/- The wallet and the hash that an event announces -/
def announces
    (tokens : List BREthereumToken) :
    NodeStep →
      Option (Option BREthereumToken × BREthereumHash)
  | .announceTransaction announcement =>
      some (none, announcement.hash)
  | .announceLog announcement =>
      match tokenLookup tokens announcement.contract with
      | none => none
      | some token =>
          if announcement.isTransfer then
            some (some token, announcement.hash)
          else none
  | _ => none

/- The hash of a transaction that is made by the event -/
def identityAfter
    (tokens : List BREthereumToken)
    (history : NodeHistory)
    (event : NodeEvent) : TransactionPointer → BREthereumHash :=
  match announces tokens event.step with
  | some (_, hash) =>
      Function.update history.identity history.node.made hash
  | none =>
      match event.step with
      | .createTransaction _ =>
          Function.update history.identity history.node.made
            event.signedHash
      | _ => history.identity

def announcedAfter
    (tokens : List BREthereumToken)
    (history : NodeHistory)
    (event : NodeEvent) :
    Option BREthereumToken → List BREthereumHash :=
  match announces tokens event.step with
  | none => history.announced
  | some (wallet, hash) =>
      Function.update history.announced wallet
        (hash :: history.announced wallet)

/- How transactions were first blocked -/
def settledAfter
    (history : NodeHistory)
    (node : BREthereumLightNode)
    (pointer : TransactionPointer) :
    Option BREthereumTransactionState :=
  match history.settled pointer with
  | some state => some state
  | none =>
      if pointer < node.made ∧
          transactionIsBlocked (node.memory pointer) then
        some (node.memory pointer).state
      else none

/-
  What an event reports is so on the chain: a new transaction
  has a hash of its own, a submission has the hash of its
  transaction, and an announcement has the source and the nonce
  of the transaction with its hash.
-/
def Truthful
    (history : NodeHistory)
    (event : NodeEvent) : Prop :=
  match event.step with
  | .createTransaction _ =>
      ∀ pointer < history.node.made,
        history.identity pointer ≠ event.signedHash
  | .announceSubmitTransaction _ tid hash =>
      tid < history.node.made → hash = history.identity tid
  | .announceTransaction announcement =>
      hashExists announcement.hash = true ∧
        ∀ pointer ∈ history.node.wallets none,
          history.identity pointer = announcement.hash →
            (history.node.memory pointer).sourceAddress =
                announcedSource history.node announcement ∧
              (history.node.memory pointer).nonce =
                announcement.nonce
  | .announceLog announcement =>
      hashExists announcement.hash = true
  | _ => True

instance
    (history : NodeHistory)
    (event : NodeEvent) :
    Decidable (Truthful history event) := by
  unfold Truthful
  split <;> infer_instance

/- A step of a node on an event that is true -/
def nodeHistoryStep
    (tokens : List BREthereumToken)
    (history : NodeHistory)
    (event : NodeEvent) : Option NodeHistory :=
  if Truthful history event then do
    let node ← nodeStep tokens history.node event.step
    some
      { node := node
        identity := identityAfter tokens history event
        announced := announcedAfter tokens history event
        settled := settledAfter history node }
  else none

/- The hashes of the entries of a wallet -/
def hashes
    (history : NodeHistory)
    (wallet : Option BREthereumToken) : List BREthereumHash :=
  (history.node.wallets wallet).map history.identity

/-
  Each hash has at most one entry in a wallet and, announced to
  it, exactly one; and what was blocked stays as it was blocked.
-/
structure Faithful (history : NodeHistory) : Prop where
  once : ∀ wallet, (hashes history wallet).Nodup
  found :
    ∀ wallet, ∀ hash ∈ history.announced wallet,
      hash ∈ hashes history wallet
  kept :
    ∀ pointer state,
      history.settled pointer = some state →
        (history.node.memory pointer).state = state

/-
  The condition on an event: a transaction is signed, and its
  submission announced, before it is blocked; one found by its
  nonce is not in the place of another; and a token transfer has
  its hash when its log is announced.
-/
def InTurn
    (tokens : List BREthereumToken)
    (history : NodeHistory)
    (event : NodeEvent) : Prop :=
  match event.step with
  | .signTransaction transaction =>
      transactionIsBlocked (history.node.memory transaction) =
        false
  | .announceSubmitTransaction wallet tid _ =>
      wallet ≠ none → tid < history.node.made →
        transactionIsBlocked (history.node.memory tid) = false
  | .announceTransaction announcement =>
      findAnnounced history.node announcement ≠ none →
        announcement.hash ∈ hashes history none
  | .announceLog announcement =>
      ∀ token,
        tokenLookup tokens announcement.contract = some token →
          announcement.isTransfer = true →
            walletGetTransactionByHash history.node.memory
                (history.node.wallets (some token))
                announcement.hash =
              none →
            announcement.hash ∉ hashes history (some token)
  | _ => True

/- What truthful events always keep -/
structure Sound (history : NodeHistory) : Prop where
  valid :
    ∀ wallet, ∀ pointer ∈ history.node.wallets wallet,
      pointer < history.node.made
  hash :
    ∀ pointer < history.node.made,
      hashExists (history.node.memory pointer).hash = true →
        (history.node.memory pointer).hash =
          history.identity pointer
  own :
    ∀ pointer < history.node.made,
      (history.node.memory pointer).sourceAddress =
          history.node.primaryAddress ∨
        (history.node.memory pointer).hash =
          history.identity pointer
  known :
    ∀ pointer < history.node.made,
      transactionIsBlocked (history.node.memory pointer) =
          true →
        history.settled pointer ≠ none
  settled :
    ∀ pointer state,
      history.settled pointer = some state →
        pointer < history.node.made ∧
          ∃ gasUsed number timestamp index,
            state = .blocked gasUsed number timestamp index

------------------------------------------------------------
-- What a Step Can Do
------------------------------------------------------------

/- Some transaction may have been blocked, and nothing else. -/
structure OnlyBlocked
    (node next : BREthereumLightNode) : Prop where
  wallets :
    ∀ wallet, (next.wallets wallet).Perm (node.wallets wallet)
  made : next.made = node.made
  primaryAddress : next.primaryAddress = node.primaryAddress
  hash :
    ∀ pointer,
      (next.memory pointer).hash = (node.memory pointer).hash
  sourceAddress :
    ∀ pointer,
      (next.memory pointer).sourceAddress =
        (node.memory pointer).sourceAddress
  state :
    ∀ pointer,
      transactionIsBlocked (node.memory pointer) = true →
        (next.memory pointer).state =
          (node.memory pointer).state

/- A transaction was added to a wallet. -/
structure Added
    (node next : BREthereumLightNode)
    (wallet : Option BREthereumToken)
    (transaction : WalletTransaction) : Prop where
  added :
    (next.wallets wallet).Perm
      (node.made :: node.wallets wallet)
  others :
    ∀ other, other ≠ wallet →
      next.wallets other = node.wallets other
  made : next.made = node.made + 1
  primaryAddress : next.primaryAddress = node.primaryAddress
  old :
    ∀ pointer, pointer ≠ node.made →
      next.memory pointer = node.memory pointer
  new : next.memory node.made = transaction

theorem perm_walletHandleTransaction
    (memory : TransactionMemory)
    (transactions : List TransactionPointer)
    (transaction : TransactionPointer) :
    (walletHandleTransaction memory transactions
        transaction).Perm
      (transaction :: transactions) := by
  unfold walletHandleTransaction
  rw [walletInsertTransactionSorted_eq]
  exact perm_insertLast _ _ _

theorem perm_walletUpdateTransactionSorted
    {memory : TransactionMemory}
    {transactions updated : List TransactionPointer}
    {transaction : TransactionPointer}
    (hUpdate :
      walletUpdateTransactionSorted memory transactions
          transaction =
        some updated) :
    updated.Perm transactions := by
  unfold walletUpdateTransactionSorted walletUnhandleTransaction
    at hUpdate
  split_ifs at hUpdate with hMem
  · cases hUpdate
    rw [walletInsertTransactionSorted_eq]
    apply (perm_insertLast _ _ _).trans
    exact (List.perm_cons_erase hMem).symm
  · cases hUpdate

theorem added_insert
    (node : BREthereumLightNode)
    (wallet : Option BREthereumToken)
    (transaction : WalletTransaction) :
    Added node (node.insert wallet transaction) wallet
      transaction where
  added := by
    unfold BREthereumLightNode.insert
    dsimp only
    rw [Function.update_self]
    exact perm_walletHandleTransaction _ _ _
  others := by
    intro other hOther
    unfold BREthereumLightNode.insert
    exact Function.update_of_ne hOther _ _
  made := rfl
  primaryAddress := rfl
  old := by
    intro pointer hPointer
    unfold BREthereumLightNode.insert
    exact Function.update_of_ne hPointer _ _
  new := by
    unfold BREthereumLightNode.insert
    exact Function.update_self _ _ _

theorem added_insertSubmitted
    (node : BREthereumLightNode)
    (wallet : Option BREthereumToken)
    (sourceAddress : BREthereumAddress)
    (nonce : UInt64)
    (hash : BREthereumHash) :
    Added node
      (insertSubmitted node wallet sourceAddress nonce hash)
      wallet
      { sourceAddress := sourceAddress
        nonce := nonce
        hash := hash
        state := .submitted } := by
  have hAdded :=
    added_insert node wallet
      (newTransaction sourceAddress nonce)
  refine
    ⟨hAdded.added, hAdded.others, hAdded.made,
      hAdded.primaryAddress, ?_, ?_⟩
  · intro pointer hPointer
    unfold insertSubmitted BREthereumLightNode.change
    dsimp only
    rw [Function.update_of_ne hPointer]
    exact hAdded.old pointer hPointer
  · unfold insertSubmitted BREthereumLightNode.change
    dsimp only
    rw [Function.update_self, hAdded.new]
    rfl

theorem onlyBlocked_of_announceBlocked
    {node next : BREthereumLightNode}
    {wallet : Option BREthereumToken}
    {transaction : TransactionPointer}
    {gasUsed index : UInt64}
    {block : AnnouncedBlock}
    (hBlocked :
      announceBlocked node wallet transaction gasUsed block
          index =
        some next) :
    OnlyBlocked node next := by
  unfold announceBlocked at hBlocked
  by_cases hAlready :
      transactionIsBlocked (node.memory transaction) = true
  · rw [if_pos hAlready] at hBlocked
    cases hBlocked
    exact
      ⟨fun _ => List.Perm.refl _, rfl, rfl, fun _ => rfl,
        fun _ => rfl, fun _ _ => rfl⟩
  · rw [if_neg hAlready] at hBlocked
    dsimp only at hBlocked
    rw [Option.bind_eq_bind, Option.bind_eq_some_iff] at hBlocked
    rcases hBlocked with ⟨transactions, hUpdate, hNext⟩
    cases hNext
    unfold BREthereumLightNode.setWallet
      BREthereumLightNode.change
    refine ⟨?_, rfl, rfl, ?_, ?_, ?_⟩
    · intro other
      dsimp only
      by_cases hOther : other = wallet
      · rw [hOther, Function.update_self]
        exact perm_walletUpdateTransactionSorted hUpdate
      · rw [Function.update_of_ne hOther]
    · intro pointer
      dsimp only
      by_cases hPointer : pointer = transaction
      · rw [hPointer, Function.update_self]
        rfl
      · rw [Function.update_of_ne hPointer]
    · intro pointer
      dsimp only
      by_cases hPointer : pointer = transaction
      · rw [hPointer, Function.update_self]
        rfl
      · rw [Function.update_of_ne hPointer]
    · intro pointer hState
      dsimp only
      rw [Function.update_of_ne]
      rintro rfl
      exact hAlready hState

/- Finding or adding a block leaves the transactions. -/
theorem lightNodeAnnounceBlock_node
    (node : BREthereumLightNode)
    (block : AnnouncedBlock) :
    ∃ blocks,
      (lightNodeAnnounceBlock node block).1 =
        { node with blocks := blocks } := by
  unfold lightNodeAnnounceBlock
  split
  · exact ⟨_, rfl⟩
  · exact ⟨_, rfl⟩

/- An announcement of a transaction that is found, or new -/
theorem announcement_cases
    {node next : BREthereumLightNode}
    {wallet : Option BREthereumToken}
    {found : Option TransactionPointer}
    {sourceAddress : BREthereumAddress}
    {nonce gasUsed index : UInt64}
    {hash : BREthereumHash}
    {block : AnnouncedBlock}
    (hAnnounce :
      (match found with
        | some transaction =>
            announceBlocked
              (lightNodeAnnounceBlock node block).1 wallet
              transaction gasUsed
              (lightNodeAnnounceBlock node block).2 index
        | none =>
            announceBlocked
              (insertSubmitted
                (lightNodeAnnounceBlock node block).1 wallet
                sourceAddress nonce hash)
              wallet (lightNodeAnnounceBlock node block).1.made
              gasUsed (lightNodeAnnounceBlock node block).2
              index) =
        some next) :
    (found ≠ none ∧ OnlyBlocked node next) ∨
      ∃ middle,
        found = none ∧
          Added node middle wallet
            { sourceAddress := sourceAddress
              nonce := nonce
              hash := hash
              state := .submitted } ∧
          OnlyBlocked middle next := by
  rcases lightNodeAnnounceBlock_node node block with
    ⟨blocks, hNode⟩
  rw [hNode] at hAnnounce
  cases found with
  | some transaction =>
      left
      have hOnly := onlyBlocked_of_announceBlocked hAnnounce
      exact
        ⟨Option.some_ne_none _,
          ⟨hOnly.wallets, hOnly.made, hOnly.primaryAddress,
            hOnly.hash, hOnly.sourceAddress, hOnly.state⟩⟩
  | none =>
      right
      have hAdded :=
        added_insertSubmitted { node with blocks := blocks }
          wallet sourceAddress nonce hash
      exact
        ⟨_, rfl,
          ⟨hAdded.added, hAdded.others, hAdded.made,
            hAdded.primaryAddress, hAdded.old, hAdded.new⟩,
          onlyBlocked_of_announceBlocked hAnnounce⟩

------------------------------------------------------------
-- Entries and Hashes
------------------------------------------------------------

theorem OnlyBlocked.refl (node : BREthereumLightNode) :
    OnlyBlocked node node :=
  ⟨fun _ => List.Perm.refl _, rfl, rfl, fun _ => rfl,
    fun _ => rfl, fun _ _ => rfl⟩

variable {tokens : List BREthereumToken}
variable {history : NodeHistory}
variable {node middle : BREthereumLightNode}
variable {wallet : Option BREthereumToken}
variable {transaction : WalletTransaction}
variable {hash : BREthereumHash}

/- Old entries do not see the hash of a new transaction. -/
theorem map_identity
    (hSound : Sound history)
    (hash : BREthereumHash)
    (other : Option BREthereumToken) :
    (history.node.wallets other).map
        (Function.update history.identity history.node.made
          hash) =
      hashes history other := by
  apply List.map_congr_left
  intro pointer hPointer
  exact
    Function.update_of_ne
      (hSound.valid other pointer hPointer).ne _ _

theorem perm_onlyBlocked
    (hSound : Sound history)
    (hOnly : OnlyBlocked history.node node)
    (hash : BREthereumHash)
    (other : Option BREthereumToken) :
    ((node.wallets other).map
        (Function.update history.identity history.node.made
          hash)).Perm
      (hashes history other) := by
  rw [← map_identity hSound hash other]
  exact (hOnly.wallets other).map _

theorem perm_added
    (hSound : Sound history)
    (hAdded : Added history.node middle wallet transaction)
    (hOnly : OnlyBlocked middle node)
    (hash : BREthereumHash) :
    ((node.wallets wallet).map
        (Function.update history.identity history.node.made
          hash)).Perm
      (hash :: hashes history wallet) := by
  rw [← map_identity hSound hash wallet]
  apply ((hOnly.wallets wallet).map _).trans
  apply (hAdded.added.map _).trans
  rw [List.map_cons, Function.update_self]

theorem perm_added_other
    (hSound : Sound history)
    (hAdded : Added history.node middle wallet transaction)
    (hOnly : OnlyBlocked middle node)
    (hash : BREthereumHash)
    {other : Option BREthereumToken}
    (hOther : other ≠ wallet) :
    ((node.wallets other).map
        (Function.update history.identity history.node.made
          hash)).Perm
      (hashes history other) := by
  rw [← map_identity hSound hash other,
    ← hAdded.others other hOther]
  exact (hOnly.wallets other).map _

------------------------------------------------------------
-- Transactions That Were Blocked
------------------------------------------------------------

/- What is blocked now is kept if what was blocked before is. -/
theorem kept_after_iff :
    (∀ pointer state,
        settledAfter history node pointer = some state →
          (node.memory pointer).state = state) ↔
      ∀ pointer state,
        history.settled pointer = some state →
          (node.memory pointer).state = state := by
  constructor
  · intro hKept pointer state hSettled
    apply hKept
    unfold settledAfter
    rw [hSettled]
  · intro hKept pointer state hSettled
    unfold settledAfter at hSettled
    cases hOld : history.settled pointer with
    | some old =>
        rw [hOld] at hSettled
        cases hSettled
        exact hKept pointer _ hOld
    | none =>
        rw [hOld] at hSettled
        dsimp only at hSettled
        split_ifs at hSettled
        exact Option.some.inj hSettled

theorem kept_of_onlyBlocked
    (hSound : Sound history)
    (hFaithful : Faithful history)
    (hOnly : OnlyBlocked history.node node)
    (pointer : TransactionPointer)
    (state : BREthereumTransactionState)
    (hSettled : history.settled pointer = some state) :
    (node.memory pointer).state = state := by
  have hState := hFaithful.kept pointer state hSettled
  rcases (hSound.settled pointer state hSettled).2 with
    ⟨gasUsed, number, timestamp, index, rfl⟩
  rw [← hState]
  apply hOnly.state
  unfold transactionIsBlocked
  rw [hState]

theorem kept_of_added
    (hSound : Sound history)
    (hFaithful : Faithful history)
    (hAdded : Added history.node middle wallet transaction)
    (hOnly : OnlyBlocked middle node)
    (pointer : TransactionPointer)
    (state : BREthereumTransactionState)
    (hSettled : history.settled pointer = some state) :
    (node.memory pointer).state = state := by
  have hState := hFaithful.kept pointer state hSettled
  rcases hSound.settled pointer state hSettled with
    ⟨hMade, gasUsed, number, timestamp, index, rfl⟩
  rw [← hState, ← hAdded.old pointer hMade.ne]
  apply hOnly.state
  unfold transactionIsBlocked
  rw [hAdded.old pointer hMade.ne, hState]

/- A change to another status is wrong if it was blocked. -/
theorem kept_change_iff
    (hSound : Sound history)
    (hFaithful : Faithful history)
    {pointer : TransactionPointer}
    (hMade : pointer < history.node.made)
    (hMemory :
      ∀ other, other ≠ pointer →
        node.memory other = history.node.memory other)
    (hUnblocked :
      transactionIsBlocked (node.memory pointer) = false) :
    (∀ other state,
        history.settled other = some state →
          (node.memory other).state = state) ↔
      transactionIsBlocked (history.node.memory pointer) =
        false := by
  constructor
  · intro hKept
    by_contra hBlocked
    rw [Bool.not_eq_false] at hBlocked
    have hKnown := hSound.known pointer hMade hBlocked
    rw [Option.ne_none_iff_exists'] at hKnown
    rcases hKnown with ⟨state, hSettled⟩
    have hState := hKept pointer state hSettled
    rcases (hSound.settled pointer state hSettled).2 with
      ⟨gasUsed, number, timestamp, index, rfl⟩
    unfold transactionIsBlocked at hUnblocked
    rw [hState] at hUnblocked
    cases hUnblocked
  · intro hBlocked other state hSettled
    have hState := hFaithful.kept other state hSettled
    by_cases hOther : other = pointer
    · rw [hOther] at hState hSettled
      rcases (hSound.settled pointer state hSettled).2 with
        ⟨gasUsed, number, timestamp, index, rfl⟩
      unfold transactionIsBlocked at hBlocked
      rw [hState] at hBlocked
      cases hBlocked
    · rw [hMemory other hOther]
      exact hState

------------------------------------------------------------
-- Announcements of One Hash
------------------------------------------------------------

/- The history after the announcement of a hash to a wallet -/
def announcedHistory
    (history : NodeHistory)
    (node : BREthereumLightNode)
    (wallet : Option BREthereumToken)
    (hash : BREthereumHash) : NodeHistory where
  node := node
  identity :=
    Function.update history.identity history.node.made hash
  announced :=
    Function.update history.announced wallet
      (hash :: history.announced wallet)
  settled := settledAfter history node

/- Where an entry is found, it has to be that of the hash. -/
theorem faithful_found_iff
    (hSound : Sound history)
    (hFaithful : Faithful history)
    (hOnly : OnlyBlocked history.node node) :
    Faithful (announcedHistory history node wallet hash) ↔
      hash ∈ hashes history wallet := by
  have hPerm := perm_onlyBlocked hSound hOnly hash
  constructor
  · intro hNext
    have hFound :=
      hNext.found wallet hash (by
        unfold announcedHistory
        dsimp only
        rw [Function.update_self]
        exact List.mem_cons_self)
    exact (hPerm wallet).mem_iff.mp hFound
  · intro hEntry
    constructor
    · intro other
      exact (hPerm other).nodup_iff.mpr (hFaithful.once other)
    · intro other found hFound
      apply (hPerm other).mem_iff.mpr
      unfold announcedHistory at hFound
      dsimp only at hFound
      by_cases hOther : other = wallet
      · rw [hOther, Function.update_self, List.mem_cons]
          at hFound
        rw [hOther]
        rcases hFound with rfl | hOld
        · exact hEntry
        · exact hFaithful.found wallet found hOld
      · rw [Function.update_of_ne hOther] at hFound
        exact hFaithful.found other found hFound
    · exact
        kept_after_iff.mpr
          (kept_of_onlyBlocked hSound hFaithful hOnly)

/- Where an entry is added, the hash may not have one. -/
theorem faithful_added_iff
    (hSound : Sound history)
    (hFaithful : Faithful history)
    (hAdded : Added history.node middle wallet transaction)
    (hOnly : OnlyBlocked middle node) :
    Faithful (announcedHistory history node wallet hash) ↔
      hash ∉ hashes history wallet := by
  have hPerm := perm_added hSound hAdded hOnly hash
  constructor
  · intro hNext
    have hOnce := hPerm.nodup_iff.mp (hNext.once wallet)
    exact (List.nodup_cons.mp hOnce).1
  · intro hFresh
    constructor
    · intro other
      by_cases hOther : other = wallet
      · rw [hOther]
        apply hPerm.nodup_iff.mpr
        exact
          List.nodup_cons.mpr
            ⟨hFresh, hFaithful.once wallet⟩
      · exact
          (perm_added_other hSound hAdded hOnly hash
            hOther).nodup_iff.mpr (hFaithful.once other)
    · intro other found hFound
      unfold announcedHistory at hFound
      dsimp only at hFound
      by_cases hOther : other = wallet
      · rw [hOther] at hFound ⊢
        apply hPerm.mem_iff.mpr
        rw [Function.update_self, List.mem_cons] at hFound
        rcases hFound with rfl | hOld
        · exact List.mem_cons_self
        · exact
            List.mem_cons_of_mem hash
              (hFaithful.found wallet found hOld)
      · rw [Function.update_of_ne hOther] at hFound
        apply (perm_added_other hSound hAdded hOnly hash
          hOther).mem_iff.mpr
        exact hFaithful.found other found hFound
    · exact
        kept_after_iff.mpr
          (kept_of_added hSound hFaithful hAdded hOnly)

------------------------------------------------------------
-- What Is Always Kept
------------------------------------------------------------

theorem isBlocked_iff (transaction : WalletTransaction) :
    transactionIsBlocked transaction = true ↔
      ∃ gasUsed number timestamp index,
        transaction.state =
          .blocked gasUsed number timestamp index := by
  unfold transactionIsBlocked
  cases transaction.state <;> simp

theorem settledAfter_ne_none
    {pointer : TransactionPointer}
    (hMade : pointer < node.made)
    (hBlocked :
      transactionIsBlocked (node.memory pointer) = true) :
    settledAfter history node pointer ≠ none := by
  unfold settledAfter
  cases history.settled pointer with
  | some state => exact Option.some_ne_none state
  | none =>
      dsimp only
      rw [if_pos ⟨hMade, hBlocked⟩]
      exact Option.some_ne_none _

theorem settledAfter_settled
    (hSound : Sound history)
    (hMade : history.node.made ≤ node.made)
    {pointer : TransactionPointer}
    {state : BREthereumTransactionState}
    (hSettled :
      settledAfter history node pointer = some state) :
    pointer < node.made ∧
      ∃ gasUsed number timestamp index,
        state = .blocked gasUsed number timestamp index := by
  unfold settledAfter at hSettled
  cases hOld : history.settled pointer with
  | some old =>
      rw [hOld] at hSettled
      cases hSettled
      rcases hSound.settled pointer _ hOld with ⟨hLt, hState⟩
      exact ⟨hLt.trans_le hMade, hState⟩
  | none =>
      rw [hOld] at hSettled
      dsimp only at hSettled
      split_ifs at hSettled with hNew
      cases hSettled
      exact ⟨hNew.1, (isBlocked_iff _).mp hNew.2⟩

/- A change of records that keeps what their hashes say -/
theorem sound_change
    (hSound : Sound history)
    {identity : TransactionPointer → BREthereumHash}
    {announced : Option BREthereumToken → List BREthereumHash}
    (hIdentity :
      ∀ pointer < history.node.made,
        identity pointer = history.identity pointer)
    (hWallets :
      ∀ wallet,
        (node.wallets wallet).Perm
          (history.node.wallets wallet))
    (hMade : node.made = history.node.made)
    (hPrimary :
      node.primaryAddress = history.node.primaryAddress)
    (hSource :
      ∀ pointer,
        (node.memory pointer).sourceAddress =
          (history.node.memory pointer).sourceAddress)
    (hHash :
      ∀ pointer < history.node.made,
        (node.memory pointer).hash =
            (history.node.memory pointer).hash ∨
          (node.memory pointer).hash =
            history.identity pointer) :
    Sound
      { node := node
        identity := identity
        announced := announced
        settled := settledAfter history node } := by
  constructor
  · intro wallet pointer hPointer
    dsimp only at hPointer ⊢
    rw [hMade]
    exact
      hSound.valid wallet pointer
        ((hWallets wallet).mem_iff.mp hPointer)
  · intro pointer hPointer hExists
    dsimp only at hPointer hExists ⊢
    rw [hMade] at hPointer
    rw [hIdentity pointer hPointer]
    rcases hHash pointer hPointer with hSame | hNew
    · rw [hSame] at hExists ⊢
      exact hSound.hash pointer hPointer hExists
    · exact hNew
  · intro pointer hPointer
    dsimp only at hPointer ⊢
    rw [hMade] at hPointer
    rw [hIdentity pointer hPointer, hSource, hPrimary]
    rcases hHash pointer hPointer with hSame | hNew
    · rw [hSame]
      exact hSound.own pointer hPointer
    · exact Or.inr hNew
  · intro pointer hPointer hBlocked
    exact settledAfter_ne_none hPointer hBlocked
  · intro pointer state hSettled
    exact settledAfter_settled hSound hMade.ge hSettled

/- A new record that has the hash of its transaction, or none -/
theorem sound_added
    (hSound : Sound history)
    {announced : Option BREthereumToken → List BREthereumHash}
    (hAdded : Added history.node middle wallet transaction)
    (hOnly : OnlyBlocked middle node)
    (hHash :
      transaction.hash = hash ∨
        (hashExists transaction.hash = false ∧
          transaction.sourceAddress =
            history.node.primaryAddress)) :
    Sound
      { node := node
        identity :=
          Function.update history.identity history.node.made
            hash
        announced := announced
        settled := settledAfter history node } := by
  have hMade : node.made = history.node.made + 1 :=
    hOnly.made.trans hAdded.made
  have hNewHash :
      (node.memory history.node.made).hash =
        transaction.hash := by
    rw [hOnly.hash, hAdded.new]
  have hNewSource :
      (node.memory history.node.made).sourceAddress =
        transaction.sourceAddress := by
    rw [hOnly.sourceAddress, hAdded.new]
  constructor
  · intro other pointer hPointer
    dsimp only at hPointer ⊢
    rw [(hOnly.wallets other).mem_iff] at hPointer
    rw [hMade]
    by_cases hOther : other = wallet
    · rw [hOther, hAdded.added.mem_iff, List.mem_cons]
        at hPointer
      rcases hPointer with rfl | hOld
      · exact Nat.lt_succ_self _
      · exact Nat.lt_succ_of_lt (hSound.valid _ _ hOld)
    · rw [hAdded.others other hOther] at hPointer
      exact Nat.lt_succ_of_lt (hSound.valid _ _ hPointer)
  · intro pointer hPointer hExists
    dsimp only at hPointer hExists ⊢
    by_cases hNew : pointer = history.node.made
    · subst hNew
      rw [hNewHash] at hExists
      rw [Function.update_self, hNewHash]
      rcases hHash with hSame | ⟨hNone, -⟩
      · exact hSame
      · rw [hNone] at hExists
        cases hExists
    · have hOld : pointer < history.node.made := by omega
      rw [Function.update_of_ne hNew]
      rw [hOnly.hash, hAdded.old pointer hNew] at hExists ⊢
      exact hSound.hash pointer hOld hExists
  · intro pointer hPointer
    dsimp only at hPointer ⊢
    rw [hOnly.primaryAddress, hAdded.primaryAddress]
    by_cases hNew : pointer = history.node.made
    · rw [hNew, Function.update_self, hNewHash, hNewSource]
      rcases hHash with hSame | ⟨-, hSource⟩
      · exact Or.inr hSame
      · exact Or.inl hSource
    · have hOld : pointer < history.node.made := by omega
      rw [Function.update_of_ne hNew, hOnly.hash,
        hOnly.sourceAddress, hAdded.old pointer hNew]
      exact hSound.own pointer hOld
  · intro pointer hPointer hBlocked
    exact settledAfter_ne_none hPointer hBlocked
  · intro pointer state hSettled
    apply settledAfter_settled hSound ?_ hSettled
    rw [hMade]
    exact Nat.le_succ _

------------------------------------------------------------
-- Steps
------------------------------------------------------------

/- Entries and identities that stay: only the blocks may fail. -/
theorem faithful_change_iff
    (hFaithful : Faithful history)
    (hWallets : node.wallets = history.node.wallets) :
    Faithful
        { node := node
          identity := history.identity
          announced := history.announced
          settled := settledAfter history node } ↔
      ∀ pointer state,
        history.settled pointer = some state →
          (node.memory pointer).state = state := by
  rw [← kept_after_iff]
  constructor
  · exact Faithful.kept
  · intro hKept
    refine ⟨?_, ?_, hKept⟩
    · intro wallet
      unfold hashes
      rw [hWallets]
      exact hFaithful.once wallet
    · intro wallet found hFound
      unfold hashes
      rw [hWallets]
      exact hFaithful.found wallet found hFound

/- A new transaction has a hash that no other one has. -/
theorem faithful_created
    (hSound : Sound history)
    (hFaithful : Faithful history)
    (hAdded : Added history.node node wallet transaction)
    (hFresh :
      ∀ pointer < history.node.made,
        history.identity pointer ≠ hash) :
    Faithful
      { node := node
        identity :=
          Function.update history.identity history.node.made
            hash
        announced := history.announced
        settled := settledAfter history node } := by
  have hOnly := OnlyBlocked.refl node
  have hPerm := perm_added hSound hAdded hOnly hash
  constructor
  · intro other
    by_cases hOther : other = wallet
    · rw [hOther]
      apply hPerm.nodup_iff.mpr
      refine List.nodup_cons.mpr ⟨?_, hFaithful.once wallet⟩
      intro hMem
      rcases List.mem_map.mp hMem with
        ⟨pointer, hPointer, hSame⟩
      exact
        hFresh pointer (hSound.valid wallet pointer hPointer)
          hSame
    · exact
        (perm_added_other hSound hAdded hOnly hash
          hOther).nodup_iff.mpr (hFaithful.once other)
  · intro other found hFound
    have hOld := hFaithful.found other found hFound
    by_cases hOther : other = wallet
    · rw [hOther] at hOld ⊢
      exact
        hPerm.mem_iff.mpr (List.mem_cons_of_mem hash hOld)
    · exact
        (perm_added_other hSound hAdded hOnly hash
          hOther).mem_iff.mpr hOld
  · exact
      kept_after_iff.mpr
        (kept_of_added hSound hFaithful hAdded hOnly)

/- A transaction that is found by its hash has this hash. -/
theorem mem_of_byHash
    (hSound : Sound history)
    {pointer : TransactionPointer}
    (hFound :
      walletGetTransactionByHash history.node.memory
          (history.node.wallets wallet) hash =
        some pointer) :
    hash ∈ hashes history wallet := by
  unfold walletGetTransactionByHash at hFound
  split_ifs at hFound with hExists
  have hMem := List.mem_of_find?_eq_some hFound
  have hSame := List.find?_some hFound
  rw [decide_eq_true_eq] at hSame
  have hMade := hSound.valid wallet pointer hMem
  apply List.mem_map.mpr
  refine ⟨pointer, hMem, ?_⟩
  rw [← hSound.hash pointer hMade, ← hSame]
  rw [← hSame]
  exact hExists

/- One that is not found so has not got its hash yet. -/
theorem own_of_byHash_none
    (hSound : Sound history)
    (hExists : hashExists hash = true)
    (hNone :
      walletGetTransactionByHash history.node.memory
          (history.node.wallets wallet) hash =
        none)
    {pointer : TransactionPointer}
    (hPointer : pointer ∈ history.node.wallets wallet)
    (hSame : history.identity pointer = hash) :
    (history.node.memory pointer).sourceAddress =
      history.node.primaryAddress := by
  unfold walletGetTransactionByHash at hNone
  rw [if_pos hExists, List.find?_eq_none] at hNone
  have hOther := hNone pointer hPointer
  rw [decide_eq_true_eq] at hOther
  rcases hSound.own pointer
      (hSound.valid wallet pointer hPointer) with
    hOwn | hHash
  · exact hOwn
  · rw [hSame] at hHash
    exact absurd hHash.symm hOther

/- A transaction that is not found has no entry at all. -/
theorem not_mem_of_findAnnounced
    (hSound : Sound history)
    {announcement : TransactionAnnouncement}
    (hExists : hashExists announcement.hash = true)
    (hTrue :
      ∀ pointer ∈ history.node.wallets none,
        history.identity pointer = announcement.hash →
          (history.node.memory pointer).sourceAddress =
              announcedSource history.node announcement ∧
            (history.node.memory pointer).nonce =
              announcement.nonce)
    (hNone : findAnnounced history.node announcement = none) :
    announcement.hash ∉ hashes history none := by
  intro hMem
  rcases List.mem_map.mp hMem with ⟨pointer, hPointer, hSame⟩
  rcases hTrue pointer hPointer hSame with ⟨hSource, hNonce⟩
  unfold findAnnounced at hNone
  cases hHash :
      walletGetTransactionByHash history.node.memory
        (history.node.wallets none) announcement.hash with
  | some found =>
      rw [hHash] at hNone
      cases hNone
  | none =>
      rw [hHash] at hNone
      have hOwn :=
        own_of_byHash_none hSound hExists hHash hPointer hSame
      have hIsSource :
          isSource history.node announcement = true := by
        by_contra hOther
        unfold announcedSource at hSource
        rw [if_neg hOther, hOwn] at hSource
        apply hOther
        unfold isSource addressHasString strcasecmp
        rw [hSource]
        exact decide_eq_true rfl
      dsimp only at hNone
      rw [if_pos hIsSource] at hNone
      unfold walletGetTransactionByNonce at hNone
      rw [List.find?_eq_none] at hNone
      apply hNone pointer hPointer
      rw [decide_eq_true_eq]
      exact ⟨hNonce.symm, hOwn.symm⟩

/- The law of one announcement that is found, or is new -/
theorem announced_step
    (hSound : Sound history)
    {found : Option TransactionPointer}
    {sourceAddress : BREthereumAddress}
    {nonce gasUsed index : UInt64}
    {block : AnnouncedBlock}
    (hAnnounce :
      (match found with
        | some transaction =>
            announceBlocked
              (lightNodeAnnounceBlock history.node block).1
              wallet transaction gasUsed
              (lightNodeAnnounceBlock history.node block).2
              index
        | none =>
            announceBlocked
              (insertSubmitted
                (lightNodeAnnounceBlock history.node block).1
                wallet sourceAddress nonce hash)
              wallet
              (lightNodeAnnounceBlock history.node block).1.made
              gasUsed
              (lightNodeAnnounceBlock history.node block).2
              index) =
        some node) :
    Sound (announcedHistory history node wallet hash) ∧
      (Faithful history →
        (Faithful (announcedHistory history node wallet hash) ↔
          if found = none then hash ∉ hashes history wallet
          else hash ∈ hashes history wallet)) := by
  rcases announcement_cases hAnnounce with
    ⟨hFound, hOnly⟩ | ⟨middle, hFound, hAdded, hOnly⟩
  · rw [if_neg hFound]
    constructor
    · apply sound_change hSound
      · intro pointer hPointer
        exact Function.update_of_ne hPointer.ne _ _
      · exact hOnly.wallets
      · exact hOnly.made
      · exact hOnly.primaryAddress
      · exact hOnly.sourceAddress
      · intro pointer _
        exact Or.inl (hOnly.hash pointer)
    · intro hFaithful
      exact faithful_found_iff hSound hFaithful hOnly
  · rw [if_pos hFound]
    constructor
    · exact sound_added hSound hAdded hOnly (Or.inl rfl)
    · intro hFaithful
      exact faithful_added_iff hSound hFaithful hAdded hOnly

/- The history after a step that makes nothing -/
def keptHistory
    (history : NodeHistory)
    (node : BREthereumLightNode) : NodeHistory :=
  { history with
    node := node
    settled := settledAfter history node }

/- The law of a record that changes to another status -/
theorem changed_step
    (hSound : Sound history)
    (node : BREthereumLightNode)
    {pointer : TransactionPointer}
    (hPointer : pointer < history.node.made)
    (hMemory :
      node.memory =
        Function.update history.node.memory pointer transaction)
    (hWallets : node.wallets = history.node.wallets)
    (hMade : node.made = history.node.made)
    (hPrimary :
      node.primaryAddress = history.node.primaryAddress)
    (hSource :
      transaction.sourceAddress =
        (history.node.memory pointer).sourceAddress)
    (hHash :
      transaction.hash = (history.node.memory pointer).hash ∨
        transaction.hash = history.identity pointer)
    (hUnblocked : transactionIsBlocked transaction = false) :
    Sound (keptHistory history node) ∧
      (Faithful history →
        (Faithful (keptHistory history node) ↔
          transactionIsBlocked (history.node.memory pointer) =
            false)) := by
  have hSelf : node.memory pointer = transaction := by
    rw [hMemory, Function.update_self]
  have hOther :
      ∀ other, other ≠ pointer →
        node.memory other = history.node.memory other := by
    intro other hOther
    rw [hMemory, Function.update_of_ne hOther]
  constructor
  · apply sound_change hSound (fun _ _ => rfl) ?_ hMade hPrimary
    · intro other
      by_cases hSame : other = pointer
      · rw [hSame, hSelf, hSource]
      · rw [hOther other hSame]
    · intro other _
      by_cases hSame : other = pointer
      · rw [hSame, hSelf]
        exact hHash
      · exact Or.inl (congrArg _ (hOther other hSame))
    · intro wallet
      rw [hWallets]
  · intro hFaithful
    apply (faithful_change_iff hFaithful hWallets).trans
    rw [← hSelf] at hUnblocked
    exact
      kept_change_iff hSound hFaithful hPointer hOther
        hUnblocked

/- The law of a step that changes no record -/
theorem unchanged_step
    (hSound : Sound history)
    (node : BREthereumLightNode)
    (hMemory : node.memory = history.node.memory)
    (hWallets : node.wallets = history.node.wallets)
    (hMade : node.made = history.node.made)
    (hPrimary :
      node.primaryAddress = history.node.primaryAddress) :
    Sound (keptHistory history node) ∧
      (Faithful history →
        Faithful (keptHistory history node)) := by
  constructor
  · apply sound_change hSound (fun _ _ => rfl) ?_ hMade hPrimary
    · intro pointer
      rw [hMemory]
    · intro pointer _
      rw [hMemory]
      exact Or.inl rfl
    · intro wallet
      rw [hWallets]
  · intro hFaithful
    apply (faithful_change_iff hFaithful hWallets).mpr
    rw [hMemory]
    exact hFaithful.kept

/-
  Truthful events keep what is always kept, and the entries
  exactly when they are in turn.
-/
theorem faithful_step_iff
    {event : NodeEvent}
    {next : NodeHistory}
    (hSound : Sound history)
    (hStep : nodeHistoryStep tokens history event = some next) :
    Sound next ∧
      (Faithful history →
        (Faithful next ↔ InTurn tokens history event)) := by
  unfold nodeHistoryStep at hStep
  by_cases hTrue : Truthful history event
  · rw [if_pos hTrue, Option.bind_eq_bind,
      Option.bind_eq_some_iff] at hStep
    rcases hStep with ⟨node, hNode, hNext⟩
    cases hNext
    rcases event with ⟨action, signedHash⟩
    cases action with
    | createTransaction wallet =>
        cases hNode
        have hAdded :=
          added_insert history.node wallet
            (newTransaction history.node.primaryAddress
              TRANSACTION_NONCE_IS_NOT_ASSIGNED)
        have hEmpty :
            hashExists (List.Vector.replicate 32 0) =
              false := by
          decide
        constructor
        · apply sound_added hSound hAdded (OnlyBlocked.refl _)
          exact Or.inr ⟨hEmpty, rfl⟩
        · intro hFaithful
          exact
            ⟨fun _ => trivial, fun _ =>
              faithful_created hSound hFaithful hAdded hTrue⟩
    | signTransaction transaction =>
        unfold nodeStep at hNode
        dsimp only at hNode
        split_ifs at hNode with hMade
        cases hNode
        exact
          changed_step hSound _ hMade rfl rfl rfl rfl rfl
            (Or.inl rfl) rfl
    | announceNonce nonce =>
        cases hNode
        have hKept :=
          unchanged_step hSound
            { history.node with
              addressNonce :=
                addressSetNonce history.node.addressNonce
                  nonce }
            rfl rfl rfl rfl
        exact
          ⟨hKept.1, fun hFaithful =>
            ⟨fun _ => trivial, fun _ => hKept.2 hFaithful⟩⟩
    | announceSubmitTransaction wallet tid hash =>
        cases hNode
        unfold lightNodeAnnounceSubmitTransaction
        by_cases hKnown : wallet ≠ none ∧ tid < history.node.made
        · rw [if_pos hKnown]
          have hChanged :=
            changed_step hSound
              (history.node.change tid
                (transactionAnnounceSubmitted
                  (history.node.memory tid) hash))
              hKnown.2 rfl rfl rfl rfl rfl
              (Or.inr (hTrue hKnown.2)) rfl
          refine ⟨hChanged.1, fun hFaithful => ?_⟩
          apply (hChanged.2 hFaithful).trans
          exact
            ⟨fun hState _ _ => hState, fun hTurn =>
              hTurn hKnown.1 hKnown.2⟩
        · rw [if_neg hKnown]
          have hKept :=
            unchanged_step hSound history.node rfl rfl rfl rfl
          refine ⟨hKept.1, fun hFaithful => ?_⟩
          exact
            ⟨fun _ hWallet hMade =>
              absurd ⟨hWallet, hMade⟩ hKnown,
              fun _ => hKept.2 hFaithful⟩
    | announceTransaction announcement =>
        unfold nodeStep lightNodeAnnounceTransaction at hNode
        dsimp only at hNode
        split_ifs at hNode
        have hLaw := announced_step hSound hNode
        refine ⟨hLaw.1, fun hFaithful => ?_⟩
        apply (hLaw.2 hFaithful).trans
        rcases lightNodeAnnounceBlock_node history.node
            { hash := announcement.blockHash
              number := announcement.blockNumber
              timestamp := announcement.blockTimestamp } with
          ⟨blocks, hBlocks⟩
        rw [hBlocks]
        change
          (if findAnnounced history.node announcement = none
              then _ else _) ↔
            (findAnnounced history.node announcement ≠ none → _)
        by_cases hFound :
            findAnnounced history.node announcement = none
        · rw [if_pos hFound]
          exact
            ⟨fun _ hOther => absurd hFound hOther, fun _ =>
              not_mem_of_findAnnounced hSound hTrue.1 hTrue.2
                hFound⟩
        · rw [if_neg hFound]
          exact ⟨fun hMem _ => hMem, fun hAll => hAll hFound⟩
    | announceLog announcement =>
        unfold nodeStep lightNodeAnnounceLog at hNode
        dsimp only at hNode
        unfold identityAfter announcedAfter announces InTurn
        dsimp only
        have hUnchanged :=
          unchanged_step hSound history.node rfl rfl rfl rfl
        cases hToken : tokenLookup tokens announcement.contract
          with
        | none =>
            rw [hToken] at hNode
            cases hNode
            refine ⟨hUnchanged.1, fun hFaithful => ?_⟩
            exact
              ⟨fun _ _ hNone => (nomatch hNone), fun _ =>
                hUnchanged.2 hFaithful⟩
        | some token =>
            rw [hToken] at hNode
            dsimp only at hNode ⊢
            by_cases hTransfer : announcement.isTransfer = true
            · rw [if_pos hTransfer] at hNode ⊢
              have hLaw := announced_step hSound hNode
              refine ⟨hLaw.1, fun hFaithful => ?_⟩
              apply (hLaw.2 hFaithful).trans
              rcases lightNodeAnnounceBlock_node history.node
                  { hash := announcement.hash
                    number := announcement.blockNumber
                    timestamp := announcement.blockTimestamp }
                with ⟨blocks, hBlocks⟩
              rw [hBlocks]
              dsimp only
              by_cases hFound :
                  walletGetTransactionByHash
                      history.node.memory
                      (history.node.wallets (some token))
                      announcement.hash =
                    none
              · rw [if_pos hFound]
                constructor
                · intro hFresh other hOther _ _
                  cases hOther
                  exact hFresh
                · intro hTurn
                  exact hTurn token rfl hTransfer hFound
              · rw [if_neg hFound]
                rw [← ne_eq, Option.ne_none_iff_exists'] at hFound
                rcases hFound with ⟨pointer, hFound⟩
                constructor
                · intro _ other hOther _ hNone
                  cases hOther
                  rw [hFound] at hNone
                  cases hNone
                · intro _
                  exact mem_of_byHash hSound hFound
            · rw [if_neg hTransfer] at hNode ⊢
              cases hNode
              refine ⟨hUnchanged.1, fun hFaithful => ?_⟩
              exact
                ⟨fun _ _ _ hOther => absurd hOther hTransfer,
                  fun _ => hUnchanged.2 hFaithful⟩
  · rw [if_neg hTrue] at hStep
    cases hStep

------------------------------------------------------------
-- Runs
------------------------------------------------------------

/- A node without transactions -/
def emptyNode
    (primaryAddress : BREthereumAddress)
    (addressNonce : UInt64)
    (memory : TransactionMemory)
    (identity : TransactionPointer → BREthereumHash) :
    NodeHistory where
  node :=
    { primaryAddress := primaryAddress
      addressNonce := addressNonce
      memory := memory
      made := 0
      wallets := fun _ => []
      blocks := [] }
  identity := identity
  announced := fun _ => []
  settled := fun _ => none

theorem sound_emptyNode
    (primaryAddress : BREthereumAddress)
    (addressNonce : UInt64)
    (memory : TransactionMemory)
    (identity : TransactionPointer → BREthereumHash) :
    Sound
      (emptyNode primaryAddress addressNonce memory
        identity) where
  valid := by
    intro wallet pointer hPointer
    cases hPointer
  hash := by
    intro pointer hPointer
    exact absurd hPointer (Nat.not_lt_zero pointer)
  own := by
    intro pointer hPointer
    exact absurd hPointer (Nat.not_lt_zero pointer)
  known := by
    intro pointer hPointer
    exact absurd hPointer (Nat.not_lt_zero pointer)
  settled := by
    intro pointer state hSettled
    cases hSettled

theorem faithful_emptyNode
    (primaryAddress : BREthereumAddress)
    (addressNonce : UInt64)
    (memory : TransactionMemory)
    (identity : TransactionPointer → BREthereumHash) :
    Faithful
      (emptyNode primaryAddress addressNonce memory
        identity) where
  once := fun _ => List.nodup_nil
  found := by
    intro wallet hash hHash
    cases hHash
  kept := by
    intro pointer state hSettled
    cases hSettled

theorem heldToken_valid :
    validateAddressString
        (cString
          "0x00000000000000000000000000000000000000b2") =
      true := by
  decide +kernel

def heldToken : BREthereumToken where
  address :=
    cString "0x00000000000000000000000000000000000000b2"
  valid := heldToken_valid

def firstHash : BREthereumHash := List.Vector.replicate 32 1

def secondHash : BREthereumHash := List.Vector.replicate 32 2

/- A node of the holder, with one token -/
def newNode : NodeHistory :=
  emptyNode holder 0 (fun _ => newTransaction holder 0)
    fun _ => hashCreateEmpty

def twoCreated : List NodeEvent :=
  [⟨.createTransaction none, firstHash⟩,
    ⟨.createTransaction (some heldToken), secondHash⟩,
    ⟨.announceNonce 7, hashCreateEmpty⟩]

/- A transfer of ether is blocked, then its submission returns. -/
def lateSubmission : List NodeEvent :=
  [⟨.createTransaction none, firstHash⟩,
    ⟨.signTransaction 0, hashCreateEmpty⟩,
    ⟨.announceTransaction
        { hash := firstHash
          source := holder
          target := holder
          nonce := 0
          gasUsed := 21000
          blockNumber := 7
          blockHash := secondHash
          blockTransactionIndex := 1
          blockTimestamp := 100 },
      hashCreateEmpty⟩,
    ⟨.announceSubmitTransaction (some none) 0 firstHash,
      hashCreateEmpty⟩]

/- The log of a token transfer comes before its submission. -/
def earlyLog : List NodeEvent :=
  [⟨.createTransaction (some heldToken), firstHash⟩,
    ⟨.signTransaction 0, hashCreateEmpty⟩,
    ⟨.announceLog
        { hash := firstHash
          contract := heldToken.address
          isTransfer := true
          source := holder
          gasUsed := 60000
          blockNumber := 7
          blockTransactionIndex := 1
          blockTimestamp := 100 },
      hashCreateEmpty⟩]

end Ethereum

end PlusWallet
