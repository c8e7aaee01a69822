import PlusWallet.Ethereum.Announcements

/-
  Which nonces are assigned in a run of a node.

  A nonce is assigned from the counter of the address, which
  signing and the announcements of nonces raise.  The
  announcement of an own transaction does not raise it; when
  the nonce of each one is below the counter already, no nonce
  is used twice.

  Main declarations:
    * `Ethereum.NonceHistory`, `Ethereum.nonceStep`
    * `Ethereum.SignsCreated`, `Ethereum.Covered`
    * `Ethereum.Fresh`
    * `Ethereum.Extends`, `Ethereum.Ahead`
    * `Ethereum.fresh_of_covered`
-/

namespace PlusWallet

open Run

namespace Ethereum

------------------------------------------------------------
-- Histories
------------------------------------------------------------

/-
  A nonce that signing assigned, with the nonces that had been
  announced until then
-/
structure NonceAssignment where
  nonce : UInt64
  announced : List UInt64
  own : List UInt64
deriving DecidableEq

/-
  A node, the transactions created and signed here, the
  announced nonces of the account and of its transactions, and
  the nonces that were assigned
-/
structure NonceHistory where
  node : BREthereumLightNode
  created : List TransactionPointer
  signed : List TransactionPointer
  announced : List UInt64
  own : List UInt64
  assigned : List NonceAssignment

/- Whether signing a transaction assigns a nonce -/
def assignsNonce
    (node : BREthereumLightNode)
    (transaction : TransactionPointer) : Bool :=
  (node.memory transaction).nonce =
    TRANSACTION_NONCE_IS_NOT_ASSIGNED

/- What is known of a step once it has been taken -/
def recordNonces
    (history : NonceHistory)
    (next : BREthereumLightNode) : NodeStep → NonceHistory
  | .createTransaction _ =>
      { history with
        node := next
        created := history.node.made :: history.created }
  | .signTransaction transaction =>
      { history with
        node := next
        signed := transaction :: history.signed
        assigned :=
          if assignsNonce history.node transaction then
            { nonce := (next.memory transaction).nonce
              announced := history.announced
              own := history.own } :: history.assigned
          else history.assigned }
  | .announceNonce nonce =>
      { history with
        node := next
        announced := nonce :: history.announced }
  | .announceTransaction announcement =>
      { history with
        node := next
        own :=
          if isSource history.node announcement then
            announcement.nonce :: history.own
          else history.own }
  | _ => { history with node := next }

def nonceStep
    (tokens : List BREthereumToken)
    (history : NonceHistory)
    (event : NodeStep) : Option NonceHistory :=
  (nodeStep tokens history.node event).map
    fun next => recordNonces history next event

/-
  What is signed was created here, and a nonce is left for it.
-/
def SignsCreated
    (history : NonceHistory) : NodeStep → Prop
  | .signTransaction transaction =>
      transaction ∈ history.created ∧
        (assignsNonce history.node transaction →
          history.node.addressNonce <
            TRANSACTION_NONCE_IS_NOT_ASSIGNED)
  | _ => True

/-
  The condition on an event: the nonce of an own transaction is
  below the counter.
-/
def Covered
    (history : NonceHistory) : NodeStep → Prop
  | .announceTransaction announcement =>
      isSource history.node announcement →
        announcement.nonce < history.node.addressNonce
  | _ => True

/-
  No two transactions were signed with one nonce, and each
  nonce that was assigned follows those announced before.
-/
structure Fresh (history : NonceHistory) : Prop where
  distinct :
    ∀ first ∈ history.signed, ∀ second ∈ history.signed,
      first ≠ second →
        (history.node.memory first).nonce ≠
          (history.node.memory second).nonce
  follows :
    ∀ assignment ∈ history.assigned,
      (∀ nonce ∈ assignment.announced,
        nonce ≤ assignment.nonce) ∧
        ∀ nonce ∈ assignment.own, nonce < assignment.nonce

------------------------------------------------------------
-- Announcements
------------------------------------------------------------

/- The counter is kept, and the nonces of transactions are. -/
structure Extends
    (node next : BREthereumLightNode) : Prop where
  made : node.made ≤ next.made
  addressNonce : next.addressNonce = node.addressNonce
  nonce :
    ∀ pointer < node.made,
      (next.memory pointer).nonce =
        (node.memory pointer).nonce

theorem Extends.refl (node : BREthereumLightNode) :
    Extends node node :=
  ⟨le_rfl, rfl, fun _ _ => rfl⟩

theorem Extends.trans
    {node middle next : BREthereumLightNode}
    (hFirst : Extends node middle)
    (hSecond : Extends middle next) : Extends node next where
  made := hFirst.made.trans hSecond.made
  addressNonce :=
    hSecond.addressNonce.trans hFirst.addressNonce
  nonce := fun pointer hPointer =>
    (hSecond.nonce pointer
      (hPointer.trans_le hFirst.made)).trans
        (hFirst.nonce pointer hPointer)

/- A record takes the place of one with the same nonce. -/
theorem extends_change
    {node : BREthereumLightNode}
    {pointer : TransactionPointer}
    {transaction : WalletTransaction}
    (hNonce :
      transaction.nonce = (node.memory pointer).nonce) :
    Extends node (node.change pointer transaction) where
  made := le_rfl
  addressNonce := rfl
  nonce := by
    intro other _
    unfold BREthereumLightNode.change
    by_cases hOther : other = pointer
    · subst hOther
      dsimp only
      rw [Function.update_self, hNonce]
    · dsimp only
      rw [Function.update_of_ne hOther]

theorem extends_insert
    (node : BREthereumLightNode)
    (wallet : Option BREthereumToken)
    (transaction : WalletTransaction) :
    Extends node (node.insert wallet transaction) where
  made := Nat.le_succ _
  addressNonce := rfl
  nonce := by
    intro pointer hPointer
    rw [(added_insert node wallet transaction).old pointer
      hPointer.ne]

theorem extends_insertSubmitted
    (node : BREthereumLightNode)
    (wallet : Option BREthereumToken)
    (sourceAddress : BREthereumAddress)
    (nonce : UInt64)
    (hash : BREthereumHash) :
    Extends node
      (insertSubmitted node wallet sourceAddress nonce
        hash) :=
  (extends_insert node wallet _).trans (extends_change rfl)

theorem extends_announceBlocked
    {node next : BREthereumLightNode}
    {wallet : Option BREthereumToken}
    {transaction : TransactionPointer}
    {gasUsed index : UInt64}
    {block : AnnouncedBlock}
    (hBlocked :
      announceBlocked node wallet transaction gasUsed block
          index =
        some next) :
    Extends node next := by
  unfold announceBlocked at hBlocked
  split_ifs at hBlocked
  · cases hBlocked
    exact Extends.refl node
  · dsimp only at hBlocked
    rw [Option.bind_eq_bind, Option.bind_eq_some_iff]
      at hBlocked
    rcases hBlocked with ⟨transactions, -, hNext⟩
    cases hNext
    have hChange :
        Extends node
          (node.change transaction
            (transactionAnnounceBlocked
              (node.memory transaction) gasUsed block.number
              block.timestamp index)) :=
      extends_change rfl
    exact ⟨hChange.made, rfl, hChange.nonce⟩

theorem extends_lightNodeAnnounceBlock
    (node : BREthereumLightNode)
    (block : AnnouncedBlock) :
    Extends node (lightNodeAnnounceBlock node block).1 := by
  rcases lightNodeAnnounceBlock_node node block with
    ⟨blocks, hNode⟩
  rw [hNode]
  exact ⟨le_rfl, rfl, fun _ _ => rfl⟩

/- An announcement of a transaction leaves the counter. -/
theorem extends_lightNodeAnnounceTransaction
    {node next : BREthereumLightNode}
    {announcement : TransactionAnnouncement}
    (hNext :
      lightNodeAnnounceTransaction node announcement =
        some next) :
    Extends node next := by
  unfold lightNodeAnnounceTransaction at hNext
  split_ifs at hNext
  dsimp only at hNext
  have hBlock :=
    extends_lightNodeAnnounceBlock node
      { hash := announcement.blockHash
        number := announcement.blockNumber
        timestamp := announcement.blockTimestamp }
  split at hNext
  · exact hBlock.trans (extends_announceBlocked hNext)
  · exact
      (hBlock.trans (extends_insertSubmitted _ _ _ _ _)).trans
        (extends_announceBlocked hNext)

theorem extends_lightNodeAnnounceLog
    {tokens : List BREthereumToken}
    {node next : BREthereumLightNode}
    {announcement : LogAnnouncement}
    (hNext :
      lightNodeAnnounceLog tokens node announcement =
        some next) :
    Extends node next := by
  unfold lightNodeAnnounceLog at hNext
  split at hNext
  · cases hNext
    exact Extends.refl node
  · split_ifs at hNext
    · dsimp only at hNext
      have hBlock :=
        extends_lightNodeAnnounceBlock node
          { hash := announcement.hash
            number := announcement.blockNumber
            timestamp := announcement.blockTimestamp }
      split at hNext
      · exact hBlock.trans (extends_announceBlocked hNext)
      · exact
          (hBlock.trans
            (extends_insertSubmitted _ _ _ _ _)).trans
              (extends_announceBlocked hNext)
    · cases hNext
      exact Extends.refl node

theorem extends_lightNodeAnnounceSubmitTransaction
    (node : BREthereumLightNode)
    (wallet : Option (Option BREthereumToken))
    (tid : TransactionPointer)
    (hash : BREthereumHash) :
    Extends node
      (lightNodeAnnounceSubmitTransaction node wallet tid
        hash) := by
  unfold lightNodeAnnounceSubmitTransaction
  split_ifs
  · exact extends_change rfl
  · exact Extends.refl node

------------------------------------------------------------
-- Invariant
------------------------------------------------------------

/- The counter is ahead of every nonce. -/
structure Ahead (history : NonceHistory) : Prop where
  made :
    ∀ pointer ∈ history.created, pointer < history.node.made
  created :
    ∀ pointer ∈ history.created,
      assignsNonce history.node pointer ∨
        (history.node.memory pointer).nonce <
          history.node.addressNonce
  distinct :
    ∀ first ∈ history.created, ∀ second ∈ history.created,
      first ≠ second →
        assignsNonce history.node first ∨
          (history.node.memory first).nonce ≠
            (history.node.memory second).nonce
  signed :
    ∀ pointer ∈ history.signed,
      pointer ∈ history.created ∧
        assignsNonce history.node pointer = false
  announced :
    ∀ nonce ∈ history.announced,
      nonce ≤ history.node.addressNonce
  own :
    ∀ nonce ∈ history.own, nonce < history.node.addressNonce
  follows :
    ∀ assignment ∈ history.assigned,
      (∀ nonce ∈ assignment.announced,
        nonce ≤ assignment.nonce) ∧
        ∀ nonce ∈ assignment.own, nonce < assignment.nonce

theorem Ahead.fresh
    {history : NonceHistory}
    (hAhead : Ahead history) : Fresh history := by
  refine ⟨?_, hAhead.follows⟩
  intro first hFirst second hSecond hOther
  rcases hAhead.signed first hFirst with
    ⟨hCreated, hAssigned⟩
  rcases hAhead.distinct first hCreated second
      (hAhead.signed second hSecond).1 hOther with
    hNone | hNonces
  · rw [hAssigned] at hNone
    cases hNone
  · exact hNonces

theorem Extends.assignsNonce
    {node next : BREthereumLightNode}
    (hExtends : Extends node next)
    {pointer : TransactionPointer}
    (hMade : pointer < node.made) :
    Ethereum.assignsNonce next pointer =
      Ethereum.assignsNonce node pointer := by
  unfold Ethereum.assignsNonce
  rw [hExtends.nonce pointer hMade]

/- What keeps the counter and the nonces keeps it ahead. -/
theorem Ahead.extend
    {history : NonceHistory}
    (hAhead : Ahead history)
    {next : BREthereumLightNode}
    (hExtends : Extends history.node next) :
    Ahead { history with node := next } where
  made := fun pointer hCreated =>
    (hAhead.made pointer hCreated).trans_le hExtends.made
  created := by
    intro pointer hCreated
    have hMade := hAhead.made pointer hCreated
    dsimp only
    rw [hExtends.assignsNonce hMade,
      hExtends.nonce pointer hMade, hExtends.addressNonce]
    exact hAhead.created pointer hCreated
  distinct := by
    intro first hFirst second hSecond hOther
    have hMade := hAhead.made first hFirst
    dsimp only
    rw [hExtends.assignsNonce hMade,
      hExtends.nonce first hMade,
      hExtends.nonce second (hAhead.made second hSecond)]
    exact
      hAhead.distinct first hFirst second hSecond hOther
  signed := by
    intro pointer hSigned
    rcases hAhead.signed pointer hSigned with
      ⟨hCreated, hAssigned⟩
    refine ⟨hCreated, ?_⟩
    dsimp only
    rw [hExtends.assignsNonce (hAhead.made pointer hCreated)]
    exact hAssigned
  announced := by
    dsimp only
    rw [hExtends.addressNonce]
    exact hAhead.announced
  own := by
    dsimp only
    rw [hExtends.addressNonce]
    exact hAhead.own
  follows := hAhead.follows

/- A transaction that was just created has no nonce. -/
theorem Ahead.create
    {history : NonceHistory}
    (hAhead : Ahead history)
    (wallet : Option BREthereumToken) :
    Ahead
      (recordNonces history
        (history.node.insert wallet
          (newTransaction history.node.primaryAddress
            TRANSACTION_NONCE_IS_NOT_ASSIGNED))
        (.createTransaction wallet)) := by
  have hAdded :=
    added_insert history.node wallet
      (newTransaction history.node.primaryAddress
        TRANSACTION_NONCE_IS_NOT_ASSIGNED)
  have hExtended :=
    hAhead.extend
      (extends_insert history.node wallet
        (newTransaction history.node.primaryAddress
          TRANSACTION_NONCE_IS_NOT_ASSIGNED))
  have hNew :
      assignsNonce
        (history.node.insert wallet
          (newTransaction history.node.primaryAddress
            TRANSACTION_NONCE_IS_NOT_ASSIGNED))
        history.node.made := by
    unfold assignsNonce
    rw [hAdded.new]
    rfl
  refine
    ⟨?_, ?_, ?_, ?_, hExtended.announced, hExtended.own,
      hExtended.follows⟩
  · intro pointer hCreated
    rcases List.mem_cons.mp hCreated with rfl | hCreated
    · exact Nat.lt_succ_self _
    · exact hExtended.made pointer hCreated
  · intro pointer hCreated
    rcases List.mem_cons.mp hCreated with rfl | hCreated
    · exact .inl hNew
    · exact hExtended.created pointer hCreated
  · intro first hFirst second hSecond hOther
    rcases List.mem_cons.mp hFirst with rfl | hFirst
    · exact .inl hNew
    · rcases List.mem_cons.mp hSecond with rfl | hSecond
      · by_cases hNone :
            assignsNonce
              (history.node.insert wallet
                (newTransaction history.node.primaryAddress
                  TRANSACTION_NONCE_IS_NOT_ASSIGNED))
              first
        · exact .inl hNone
        · right
          intro hSame
          apply hNone
          unfold assignsNonce at hNew ⊢
          dsimp only [recordNonces] at hSame
          rw [hSame]
          exact hNew
      · exact
          hExtended.distinct first hFirst second hSecond
            hOther
  · intro pointer hSigned
    rcases hExtended.signed pointer hSigned with
      ⟨hCreated, hAssigned⟩
    exact ⟨List.mem_cons_of_mem _ hCreated, hAssigned⟩

------------------------------------------------------------
-- Signing
------------------------------------------------------------

/- The node after a transaction was signed -/
def signedNode
    (node : BREthereumLightNode)
    (transaction : TransactionPointer) : BREthereumLightNode :=
  { node.change transaction
      (signedTransaction node.addressNonce
        (node.memory transaction)) with
    addressNonce :=
      nextNonce node.addressNonce (node.memory transaction) }

theorem nodeStep_signTransaction
    (tokens : List BREthereumToken)
    {node : BREthereumLightNode}
    {transaction : TransactionPointer}
    (hMade : transaction < node.made) :
    nodeStep tokens node (.signTransaction transaction) =
      some (signedNode node transaction) :=
  if_pos hMade

/- A counter that can still be used up grows. -/
theorem lt_next_of_le
    {nonce addressNonce : UInt64}
    (hLeft : addressNonce < TRANSACTION_NONCE_IS_NOT_ASSIGNED)
    (hNonce : nonce ≤ addressNonce) :
    nonce < addressNonce + 1 := by
  have hLast :
      TRANSACTION_NONCE_IS_NOT_ASSIGNED.toNat = 2 ^ 64 - 1 :=
    rfl
  have hOne : (1 : UInt64).toNat = 1 := rfl
  rw [UInt64.lt_iff_toNat_lt, hLast] at hLeft
  rw [UInt64.le_iff_toNat_le] at hNonce
  rw [UInt64.lt_iff_toNat_lt, UInt64.toNat_add, hOne,
    Nat.mod_eq_of_lt (by omega)]
  omega

/- A transaction with a nonce keeps it. -/
theorem extends_signedNode
    {node : BREthereumLightNode}
    {transaction : TransactionPointer}
    (hAssigned : assignsNonce node transaction = false) :
    Extends node (signedNode node transaction) := by
  have hNonce :
      (node.memory transaction).nonce ≠
        TRANSACTION_NONCE_IS_NOT_ASSIGNED :=
    of_decide_eq_false hAssigned
  have hChange :
      Extends node
        (node.change transaction
          (signedTransaction node.addressNonce
            (node.memory transaction))) :=
    extends_change (if_neg hNonce)
  exact ⟨hChange.made, if_neg hNonce, hChange.nonce⟩

/- The nonces after one was assigned -/
theorem nonce_signedNode
    {node : BREthereumLightNode}
    {transaction : TransactionPointer}
    (hAssigns : assignsNonce node transaction)
    (pointer : TransactionPointer) :
    ((signedNode node transaction).memory pointer).nonce =
      if pointer = transaction then node.addressNonce
      else (node.memory pointer).nonce := by
  unfold signedNode BREthereumLightNode.change
  dsimp only
  split_ifs with hPointer
  · rw [hPointer, Function.update_self]
    exact if_pos (of_decide_eq_true hAssigns)
  · rw [Function.update_of_ne hPointer]

theorem Ahead.sign_assigned
    {history : NonceHistory}
    (hAhead : Ahead history)
    {transaction : TransactionPointer}
    (hCreated : transaction ∈ history.created)
    (hAssigned :
      assignsNonce history.node transaction = false) :
    Ahead
      (recordNonces history
        (signedNode history.node transaction)
        (.signTransaction transaction)) := by
  have hKept := extends_signedNode hAssigned
  have hExtended := hAhead.extend hKept
  have hSame :
      (recordNonces history
          (signedNode history.node transaction)
          (.signTransaction transaction)).assigned =
        history.assigned := by
    unfold recordNonces
    dsimp only
    rw [hAssigned]
    rfl
  refine
    ⟨hExtended.made, hExtended.created, hExtended.distinct,
      ?_, hExtended.announced, hExtended.own, ?_⟩
  · intro pointer hSigned
    rcases List.mem_cons.mp hSigned with rfl | hSigned
    · refine ⟨hCreated, ?_⟩
      exact
        (hKept.assignsNonce (hAhead.made _ hCreated)).trans
          hAssigned
    · exact hExtended.signed pointer hSigned
  · rw [hSame]
    exact hExtended.follows

/- The counter becomes the nonce of the transaction. -/
theorem Ahead.sign_assigns
    {history : NonceHistory}
    (hAhead : Ahead history)
    {transaction : TransactionPointer}
    (hCreated : transaction ∈ history.created)
    (hAssigns : assignsNonce history.node transaction)
    (hLeft :
      history.node.addressNonce <
        TRANSACTION_NONCE_IS_NOT_ASSIGNED) :
    Ahead
      (recordNonces history
        (signedNode history.node transaction)
        (.signTransaction transaction)) := by
  have hNonce := nonce_signedNode hAssigns
  have hCounter :
      (signedNode history.node transaction).addressNonce =
        history.node.addressNonce + 1 :=
    if_pos (of_decide_eq_true hAssigns)
  have hOthers :
      ∀ pointer, pointer ≠ transaction →
        assignsNonce (signedNode history.node transaction)
            pointer =
          assignsNonce history.node pointer := by
    intro pointer hOther
    unfold assignsNonce
    rw [hNonce, if_neg hOther]
  have hNext :
      ∀ pointer ∈ history.created, pointer ≠ transaction →
        (history.node.memory pointer).nonce ≠
          history.node.addressNonce := by
    intro pointer hIn _
    rcases hAhead.created pointer hIn with hNone | hBelow
    · rw [of_decide_eq_true hNone]
      exact (UInt64.ne_of_lt hLeft).symm
    · exact UInt64.ne_of_lt hBelow
  refine ⟨hAhead.made, ?_, ?_, ?_, ?_, ?_, ?_⟩
  · intro pointer hIn
    dsimp only [recordNonces]
    by_cases hPointer : pointer = transaction
    · right
      rw [hNonce, if_pos hPointer, hCounter]
      exact lt_next_of_le hLeft UInt64.le_rfl
    · rw [hOthers pointer hPointer, hNonce, if_neg hPointer,
        hCounter]
      refine (hAhead.created pointer hIn).imp_right ?_
      intro hBelow
      exact lt_next_of_le hLeft (UInt64.le_of_lt hBelow)
  · intro first hFirst second hSecond hOther
    dsimp only [recordNonces]
    by_cases hFirstIs : first = transaction
    · right
      rw [hNonce, hNonce, if_pos hFirstIs,
        if_neg (hFirstIs ▸ hOther.symm)]
      exact
        (hNext second hSecond (hFirstIs ▸ hOther.symm)).symm
    · rw [hOthers first hFirstIs, hNonce, hNonce,
        if_neg hFirstIs]
      by_cases hSecondIs : second = transaction
      · rw [if_pos hSecondIs]
        exact .inr (hNext first hFirst hFirstIs)
      · rw [if_neg hSecondIs]
        exact
          hAhead.distinct first hFirst second hSecond hOther
  · intro pointer hSigned
    dsimp only [recordNonces]
    by_cases hPointer : pointer = transaction
    · subst hPointer
      refine ⟨hCreated, ?_⟩
      unfold assignsNonce
      rw [hNonce, if_pos rfl]
      exact decide_eq_false (UInt64.ne_of_lt hLeft)
    · rcases List.mem_cons.mp hSigned with rfl | hSigned
      · exact absurd rfl hPointer
      · rw [hOthers pointer hPointer]
        exact hAhead.signed pointer hSigned
  · intro nonce hIn
    dsimp only [recordNonces]
    rw [hCounter]
    exact
      UInt64.le_of_lt
        (lt_next_of_le hLeft (hAhead.announced nonce hIn))
  · intro nonce hIn
    dsimp only [recordNonces]
    rw [hCounter]
    exact
      lt_next_of_le hLeft
        (UInt64.le_of_lt (hAhead.own nonce hIn))
  · intro assignment hIn
    dsimp only [recordNonces] at hIn
    rw [if_pos hAssigns] at hIn
    rcases List.mem_cons.mp hIn with rfl | hIn
    · dsimp only
      rw [hNonce, if_pos rfl]
      exact ⟨hAhead.announced, hAhead.own⟩
    · exact hAhead.follows assignment hIn

------------------------------------------------------------
-- Runs
------------------------------------------------------------

theorem Ahead.announceNonce
    {history : NonceHistory}
    (hAhead : Ahead history)
    (nonce : UInt64) :
    Ahead
      (recordNonces history
        { history.node with
          addressNonce :=
            addressSetNonce history.node.addressNonce nonce }
        (.announceNonce nonce)) := by
  have hOld :
      ∀ other, other ≤ history.node.addressNonce →
        other ≤
          addressSetNonce history.node.addressNonce nonce := by
    intro other hOther
    unfold addressSetNonce
    split_ifs with hMore
    · exact
        UInt64.le_of_lt (UInt64.lt_of_le_of_lt hOther hMore)
    · exact hOther
  have hBelow :
      ∀ other, other < history.node.addressNonce →
        other <
          addressSetNonce history.node.addressNonce nonce :=
    fun other hOther =>
      UInt64.lt_of_lt_of_le hOther (hOld _ UInt64.le_rfl)
  refine
    ⟨hAhead.made, ?_, hAhead.distinct, hAhead.signed, ?_,
      fun other hIn => hBelow other (hAhead.own other hIn),
      hAhead.follows⟩
  · intro pointer hCreated
    exact
      (hAhead.created pointer hCreated).imp_right
        (hBelow _)
  · intro other hIn
    rcases List.mem_cons.mp hIn with rfl | hIn
    · dsimp only [recordNonces]
      unfold addressSetNonce
      split_ifs with hMore
      · exact UInt64.le_rfl
      · exact UInt64.not_lt.mp hMore
    · exact hOld other (hAhead.announced other hIn)

theorem Ahead.announceTransaction
    {history : NonceHistory}
    (hAhead : Ahead history)
    {announcement : TransactionAnnouncement}
    (hCovered :
      Covered history (.announceTransaction announcement))
    {next : BREthereumLightNode}
    (hNext :
      lightNodeAnnounceTransaction history.node announcement =
        some next) :
    Ahead
      (recordNonces history next
        (.announceTransaction announcement)) := by
  have hKept := extends_lightNodeAnnounceTransaction hNext
  have hExtended := hAhead.extend hKept
  refine
    ⟨hExtended.made, hExtended.created, hExtended.distinct,
      hExtended.signed, hExtended.announced, ?_,
      hExtended.follows⟩
  intro nonce hIn
  dsimp only [recordNonces] at hIn ⊢
  split_ifs at hIn with hSource
  · rcases List.mem_cons.mp hIn with rfl | hIn
    · rw [hKept.addressNonce]
      exact hCovered hSource
    · exact hExtended.own nonce hIn
  · exact hExtended.own nonce hIn

theorem Ahead.step
    {tokens : List BREthereumToken}
    {history next : NonceHistory}
    {event : NodeStep}
    (hAhead : Ahead history)
    (hSigns : SignsCreated history event)
    (hCovered : Covered history event)
    (hNext : nonceStep tokens history event = some next) :
    Ahead next := by
  unfold nonceStep at hNext
  rw [Option.map_eq_some_iff] at hNext
  rcases hNext with ⟨node, hNode, rfl⟩
  cases event with
  | createTransaction wallet =>
      cases hNode
      exact hAhead.create wallet
  | signTransaction transaction =>
      rcases hSigns with ⟨hCreated, hLeft⟩
      rw [nodeStep_signTransaction tokens
        (hAhead.made transaction hCreated)] at hNode
      cases hNode
      cases hAssigns :
          assignsNonce history.node transaction with
      | false => exact hAhead.sign_assigned hCreated hAssigns
      | true =>
          exact
            hAhead.sign_assigns hCreated hAssigns
              (hLeft hAssigns)
  | announceNonce nonce =>
      cases hNode
      exact hAhead.announceNonce nonce
  | announceSubmitTransaction wallet tid hash =>
      cases hNode
      exact
        hAhead.extend
          (extends_lightNodeAnnounceSubmitTransaction _ _ _ _)
  | announceTransaction announcement =>
      exact hAhead.announceTransaction hCovered hNode
  | announceLog announcement =>
      exact hAhead.extend (extends_lightNodeAnnounceLog hNode)

/- A node without transactions -/
def NonceHistory.new
    (primaryAddress : BREthereumAddress)
    (addressNonce : UInt64)
    (memory : TransactionMemory) : NonceHistory where
  node :=
    { primaryAddress := primaryAddress
      addressNonce := addressNonce
      memory := memory
      made := 0
      wallets := fun _ => []
      blocks := [] }
  created := []
  signed := []
  announced := []
  own := []
  assigned := []

theorem ahead_new
    (primaryAddress : BREthereumAddress)
    (addressNonce : UInt64)
    (memory : TransactionMemory) :
    Ahead (NonceHistory.new primaryAddress addressNonce memory)
    where
  made := by simp [NonceHistory.new]
  created := by simp [NonceHistory.new]
  distinct := by simp [NonceHistory.new]
  signed := by simp [NonceHistory.new]
  announced := by simp [NonceHistory.new]
  own := by simp [NonceHistory.new]
  follows := by simp [NonceHistory.new]

theorem Ahead.throughout
    {tokens : List BREthereumToken}
    {history : NonceHistory}
    {events : List NodeStep}
    (hAhead : Ahead history)
    (hSigns :
      Meets (nonceStep tokens) SignsCreated history events)
    (hCovered :
      Meets (nonceStep tokens) Covered history events) :
    Throughout (nonceStep tokens) Fresh history events := by
  induction events generalizing history with
  | nil => exact hAhead.fresh
  | cons event events ih =>
      refine ⟨hAhead.fresh, fun next hNext => ?_⟩
      exact
        ih (hAhead.step hSigns.1 hCovered.1 hNext)
          (hSigns.2 next hNext) (hCovered.2 next hNext)

/-
  From a new node on, no nonce is used twice, and each follows
  those announced, as long as the nonce of every own transaction
  is below the counter when it is announced.
-/
theorem fresh_of_covered
    (tokens : List BREthereumToken)
    (primaryAddress : BREthereumAddress)
    (addressNonce : UInt64)
    (memory : TransactionMemory)
    {events : List NodeStep}
    (hSigns :
      Meets (nonceStep tokens) SignsCreated
        (NonceHistory.new primaryAddress addressNonce memory)
        events)
    (hCovered :
      Meets (nonceStep tokens) Covered
        (NonceHistory.new primaryAddress addressNonce memory)
        events) :
    Throughout (nonceStep tokens) Fresh
      (NonceHistory.new primaryAddress addressNonce memory)
      events :=
  (ahead_new primaryAddress addressNonce memory).throughout
    hSigns hCovered

/- The announcement of an own transfer with a nonce -/
def ownTransfer (nonce : UInt64) : TransactionAnnouncement where
  hash := firstHash
  source := holder
  target := holder
  nonce := nonce
  gasUsed := 21000
  blockNumber := 7
  blockHash := secondHash
  blockTransactionIndex := 1
  blockTimestamp := 100

/- A transfer is signed, and announced from the chain. -/
theorem fresh_of_covered_announced :
    Throughout (nonceStep []) Fresh
      (NonceHistory.new holder 0 fun _ =>
        newTransaction holder 0)
      [.createTransaction none, .signTransaction 0,
        .announceTransaction (ownTransfer 0)] := by
  apply fresh_of_covered
  · refine ⟨trivial, fun created hCreated => ?_⟩
    cases hCreated
    refine ⟨⟨by decide, fun _ => by decide⟩, fun _ _ => ?_⟩
    exact ⟨trivial, fun _ _ => trivial⟩
  · refine ⟨trivial, fun created hCreated => ?_⟩
    cases hCreated
    refine ⟨trivial, fun signed hSigned => ?_⟩
    cases hSigned
    exact ⟨fun _ => by decide, fun _ _ => trivial⟩

/-
  A transfer of another device is announced, and its nonce is
  assigned again.
-/
theorem not_fresh_after_ownTransfer :
    Meets (nonceStep []) SignsCreated
        (NonceHistory.new holder 0 fun _ =>
          newTransaction holder 0)
        [.createTransaction none,
          .announceTransaction (ownTransfer 0),
          .signTransaction 0] ∧
      ∃ final,
        run (nonceStep [])
            (NonceHistory.new holder 0 fun _ =>
              newTransaction holder 0)
            [.createTransaction none,
              .announceTransaction (ownTransfer 0),
              .signTransaction 0] =
          some final ∧
        ¬ Fresh final := by
  constructor
  · refine ⟨trivial, fun created hCreated => ?_⟩
    cases hCreated
    refine ⟨trivial, fun announced hAnnounced => ?_⟩
    unfold nonceStep at hAnnounced
    rw [Option.map_eq_some_iff] at hAnnounced
    rcases hAnnounced with ⟨node, hNode, rfl⟩
    have hKept := extends_lightNodeAnnounceTransaction hNode
    refine
      ⟨⟨List.mem_cons_self, fun _ => ?_⟩, fun _ _ => trivial⟩
    dsimp only [recordNonces]
    rw [hKept.addressNonce]
    decide
  · have hShape :
        (run (nonceStep [])
            (NonceHistory.new holder 0 fun _ =>
              newTransaction holder 0)
            [.createTransaction none,
              .announceTransaction (ownTransfer 0),
              .signTransaction 0]).map (·.assigned) =
          some
            [{ nonce := 0, announced := [], own := [0] }] := by
      decide +kernel
    rw [Option.map_eq_some_iff] at hShape
    rcases hShape with ⟨final, hRun, hFinal⟩
    refine ⟨final, hRun, fun hFresh => ?_⟩
    have hFollows := hFresh.follows
    rw [hFinal] at hFollows
    have hLess :=
      (hFollows _ List.mem_cons_self).2 0 List.mem_cons_self
    revert hLess
    decide

end Ethereum

end PlusWallet
