import Mathlib

/-
  The lists of peers that `BRPeerManager.c` keeps, one for each
  transaction.

  An array is given from its end, where the loops begin and
  where `array_add` puts what it adds.  Peers are what
  `BRPeerEq` compares of them.

  Main declarations:
    * `BRTxPeerList`, `peersOf`
    * `hasPeer`, `count`, `addPeer`, `removePeer`, `dropPeer`
    * `Distinct` and what keeps it
    * `peersOf_addPeer`, `peersOf_removePeer`,
      `peersOf_dropPeer`
-/

namespace PlusWallet

/- `BRTxPeerList` -/
structure BRTxPeerList (Hash Peer : Type) where
  txHash : Hash
  peers : List Peer
deriving DecidableEq

namespace BRTxPeerList

variable {Hash Peer : Type}
variable [DecidableEq Hash] [DecidableEq Peer]

/- The list at which a loop over the lists stops. -/
def entryOf
    (list : List (BRTxPeerList Hash Peer))
    (txHash : Hash) : Option (BRTxPeerList Hash Peer) :=
  list.find? fun entry => entry.txHash = txHash

/- Change the peers of that list. -/
def changePeers
    (txHash : Hash)
    (change : List Peer → List Peer) :
    List (BRTxPeerList Hash Peer) →
      List (BRTxPeerList Hash Peer)
  | [] => []
  | entry :: rest =>
      if entry.txHash = txHash then
        { entry with peers := change entry.peers } :: rest
      else entry :: changePeers txHash change rest

/- `_BRTxPeerListHasPeer` -/
def hasPeer
    (list : List (BRTxPeerList Hash Peer))
    (txHash : Hash)
    (peer : Peer) : Bool :=
  match entryOf list txHash with
  | none => false
  | some entry => entry.peers.contains peer

/- `_BRTxPeerListCount` -/
def count
    (list : List (BRTxPeerList Hash Peer))
    (txHash : Hash) : Nat :=
  match entryOf list txHash with
  | none => 0
  | some entry => entry.peers.length

/- `_BRTxPeerListAddPeer`, with the number that it returns -/
def addPeer
    (list : List (BRTxPeerList Hash Peer))
    (txHash : Hash)
    (peer : Peer) :
    List (BRTxPeerList Hash Peer) × Nat :=
  match entryOf list txHash with
  | none => ({ txHash := txHash, peers := [peer] } :: list, 1)
  | some entry =>
      if entry.peers.contains peer then
        (list, entry.peers.length)
      else
        (changePeers txHash (peer :: ·) list,
          entry.peers.length + 1)

/- `_BRTxPeerListRemovePeer`, with whether it found the peer -/
def removePeer
    (list : List (BRTxPeerList Hash Peer))
    (txHash : Hash)
    (peer : Peer) :
    List (BRTxPeerList Hash Peer) × Bool :=
  match entryOf list txHash with
  | none => (list, false)
  | some entry =>
      if entry.peers.contains peer then
        (changePeers txHash (List.erase · peer) list, true)
      else (list, false)

/- The loop of `_peerDisconnected` over one of the lists. -/
def dropPeer
    (list : List (BRTxPeerList Hash Peer))
    (peer : Peer) : List (BRTxPeerList Hash Peer) :=
  list.map fun entry =>
    { entry with peers := entry.peers.filter (· ≠ peer) }

/- The peers that are listed for a transaction. -/
def peersOf
    (list : List (BRTxPeerList Hash Peer))
    (txHash : Hash) : List Peer :=
  ((entryOf list txHash).map BRTxPeerList.peers).getD []

------------------------------------------------------------
-- Reading
------------------------------------------------------------

omit [DecidableEq Peer] in
@[simp]
theorem peersOf_nil (txHash : Hash) :
    peersOf ([] : List (BRTxPeerList Hash Peer)) txHash = [] :=
  rfl

omit [DecidableEq Peer] in
theorem peersOf_cons
    (entry : BRTxPeerList Hash Peer)
    (list : List (BRTxPeerList Hash Peer))
    (txHash : Hash) :
    peersOf (entry :: list) txHash =
      if entry.txHash = txHash then entry.peers
      else peersOf list txHash := by
  rw [peersOf, entryOf, List.find?_cons]
  split_ifs with hSame
  · rw [decide_eq_true hSame]
    rfl
  · rw [decide_eq_false hSame]
    rfl

omit [DecidableEq Peer] in
theorem peersOf_of_entryOf
    {list : List (BRTxPeerList Hash Peer)}
    {txHash : Hash}
    {entry : BRTxPeerList Hash Peer}
    (hEntry : entryOf list txHash = some entry) :
    peersOf list txHash = entry.peers := by
  rw [peersOf, hEntry]
  rfl

omit [DecidableEq Peer] in
theorem peersOf_of_none
    {list : List (BRTxPeerList Hash Peer)}
    {txHash : Hash}
    (hEntry : entryOf list txHash = none) :
    peersOf list txHash = [] := by
  rw [peersOf, hEntry]
  rfl

theorem hasPeer_iff
    (list : List (BRTxPeerList Hash Peer))
    (txHash : Hash)
    (peer : Peer) :
    hasPeer list txHash peer = true ↔
      peer ∈ peersOf list txHash := by
  rw [hasPeer]
  rcases hEntry : entryOf list txHash with _ | entry
  · rw [peersOf_of_none hEntry]
    simp
  · rw [peersOf_of_entryOf hEntry]
    exact List.contains_iff_mem

omit [DecidableEq Peer] in
theorem count_eq
    (list : List (BRTxPeerList Hash Peer))
    (txHash : Hash) :
    count list txHash = (peersOf list txHash).length := by
  rw [count]
  rcases hEntry : entryOf list txHash with _ | entry
  · rw [peersOf_of_none hEntry]
    rfl
  · rw [peersOf_of_entryOf hEntry]

------------------------------------------------------------
-- Changing
------------------------------------------------------------

omit [DecidableEq Peer] in
@[simp]
theorem hashes_changePeers
    (txHash : Hash)
    (change : List Peer → List Peer)
    (list : List (BRTxPeerList Hash Peer)) :
    (changePeers txHash change list).map
        BRTxPeerList.txHash =
      list.map BRTxPeerList.txHash := by
  induction list with
  | nil => rfl
  | cons entry rest ih =>
      rw [changePeers]
      split_ifs
      · rfl
      · rw [List.map_cons, List.map_cons, ih]

omit [DecidableEq Peer] in
theorem peersOf_changePeers
    {list : List (BRTxPeerList Hash Peer)}
    {txHash : Hash}
    {entry : BRTxPeerList Hash Peer}
    (hEntry : entryOf list txHash = some entry)
    (change : List Peer → List Peer)
    (other : Hash) :
    peersOf (changePeers txHash change list) other =
      if other = txHash then change entry.peers
      else peersOf list other := by
  induction list with
  | nil => cases hEntry
  | cons first rest ih =>
      rw [changePeers]
      by_cases hFirst : first.txHash = txHash
      · rw [entryOf, List.find?_cons, decide_eq_true hFirst]
          at hEntry
        cases hEntry
        rw [if_pos hFirst, peersOf_cons, peersOf_cons]
        simp only [hFirst]
        by_cases hOther : txHash = other
        · rw [if_pos hOther, if_pos hOther.symm]
        · rw [if_neg hOther, if_neg hOther,
            if_neg (Ne.symm hOther)]
      · rw [entryOf, List.find?_cons, decide_eq_false hFirst]
          at hEntry
        rw [if_neg hFirst, peersOf_cons, peersOf_cons,
          ih hEntry]
        by_cases hOther : first.txHash = other
        · rw [if_pos hOther, if_pos hOther, if_neg]
          rintro rfl
          exact hFirst hOther
        · rw [if_neg hOther, if_neg hOther]

/- The peer is listed for the transaction, once. -/
theorem peersOf_addPeer
    (list : List (BRTxPeerList Hash Peer))
    (txHash : Hash)
    (peer : Peer)
    (other : Hash) :
    peersOf (addPeer list txHash peer).1 other =
      if other = txHash then
        (peersOf list txHash).insert peer
      else peersOf list other := by
  rw [addPeer]
  rcases hEntry : entryOf list txHash with _ | entry
  · rw [peersOf_of_none hEntry, peersOf_cons]
    by_cases hOther : txHash = other
    · rw [if_pos hOther, if_pos hOther.symm]
      rfl
    · rw [if_neg hOther, if_neg (Ne.symm hOther)]
  · dsimp only
    rw [peersOf_of_entryOf hEntry]
    by_cases hThere : peer ∈ entry.peers
    · rw [if_pos (List.contains_iff_mem.mpr hThere),
        List.insert_of_mem hThere]
      split_ifs with hOther
      · rw [hOther, peersOf_of_entryOf hEntry]
      · rfl
    · rw [if_neg (mt List.contains_iff_mem.mp hThere),
        List.insert_of_not_mem hThere,
        peersOf_changePeers hEntry]

theorem snd_addPeer
    (list : List (BRTxPeerList Hash Peer))
    (txHash : Hash)
    (peer : Peer) :
    (addPeer list txHash peer).2 =
      count (addPeer list txHash peer).1 txHash := by
  rw [count_eq, peersOf_addPeer, if_pos rfl, addPeer]
  rcases hEntry : entryOf list txHash with _ | entry
  · rw [peersOf_of_none hEntry]
    rfl
  · dsimp only
    rw [peersOf_of_entryOf hEntry]
    by_cases hThere : peer ∈ entry.peers
    · rw [if_pos (List.contains_iff_mem.mpr hThere),
        List.insert_of_mem hThere]
    · rw [if_neg (mt List.contains_iff_mem.mp hThere),
        List.insert_of_not_mem hThere]
      rfl

/- The peer is no longer listed for the transaction. -/
theorem peersOf_removePeer
    (list : List (BRTxPeerList Hash Peer))
    (txHash : Hash)
    (peer : Peer)
    (other : Hash) :
    peersOf (removePeer list txHash peer).1 other =
      if other = txHash then
        (peersOf list txHash).erase peer
      else peersOf list other := by
  rw [removePeer]
  rcases hEntry : entryOf list txHash with _ | entry
  · rw [peersOf_of_none hEntry]
    split_ifs with hOther
    · rw [hOther, peersOf_of_none hEntry]
      rfl
    · rfl
  · dsimp only
    rw [peersOf_of_entryOf hEntry]
    by_cases hThere : peer ∈ entry.peers
    · rw [if_pos (List.contains_iff_mem.mpr hThere),
        peersOf_changePeers hEntry]
    · rw [if_neg (mt List.contains_iff_mem.mp hThere),
        List.erase_of_not_mem hThere]
      split_ifs with hOther
      · rw [hOther, peersOf_of_entryOf hEntry]
      · rfl

theorem snd_removePeer
    (list : List (BRTxPeerList Hash Peer))
    (txHash : Hash)
    (peer : Peer) :
    (removePeer list txHash peer).2 =
      hasPeer list txHash peer := by
  rw [removePeer, hasPeer]
  rcases entryOf list txHash with _ | entry
  · rfl
  · dsimp only
    by_cases hThere : entry.peers.contains peer = true
    · rw [if_pos hThere, hThere]
    · rw [if_neg hThere, Bool.eq_false_iff.mpr hThere]

/- The peer is no longer listed for any transaction. -/
theorem peersOf_dropPeer
    (list : List (BRTxPeerList Hash Peer))
    (peer : Peer)
    (txHash : Hash) :
    peersOf (dropPeer list peer) txHash =
      (peersOf list txHash).filter (· ≠ peer) := by
  induction list with
  | nil => rfl
  | cons entry rest ih =>
      rw [dropPeer, List.map_cons, peersOf_cons, peersOf_cons]
      split_ifs
      · rfl
      · exact ih

------------------------------------------------------------
-- One List to a Transaction, one Place to a Peer
------------------------------------------------------------

/-
  Each transaction has at most one list, and each list names a
  peer at most once.
-/
structure Distinct
    (list : List (BRTxPeerList Hash Peer)) : Prop where
  hashes : (list.map BRTxPeerList.txHash).Nodup
  peers : ∀ entry ∈ list, entry.peers.Nodup

omit [DecidableEq Hash] [DecidableEq Peer] in
theorem distinct_nil :
    Distinct ([] : List (BRTxPeerList Hash Peer)) where
  hashes := List.nodup_nil
  peers := by simp

omit [DecidableEq Peer] in
/- With one list to each, the loops find every list. -/
theorem peersOf_of_mem
    {list : List (BRTxPeerList Hash Peer)}
    (hHashes : (list.map BRTxPeerList.txHash).Nodup)
    {entry : BRTxPeerList Hash Peer}
    (hEntry : entry ∈ list) :
    peersOf list entry.txHash = entry.peers := by
  induction list with
  | nil => cases hEntry
  | cons first rest ih =>
      rw [List.map_cons, List.nodup_cons] at hHashes
      rw [peersOf_cons]
      rcases List.mem_cons.mp hEntry with rfl | hRest
      · rw [if_pos rfl]
      · rw [if_neg, ih hHashes.2 hRest]
        intro hSame
        rw [hSame] at hHashes
        exact hHashes.1 (List.mem_map_of_mem hRest)

omit [DecidableEq Peer] in
theorem mem_of_entryOf
    {list : List (BRTxPeerList Hash Peer)}
    {txHash : Hash}
    {entry : BRTxPeerList Hash Peer}
    (hEntry : entryOf list txHash = some entry) :
    entry ∈ list ∧ entry.txHash = txHash :=
  ⟨List.mem_of_find?_eq_some hEntry,
    by simpa using List.find?_some hEntry⟩

omit [DecidableEq Peer] in
theorem distinct_iff
    (list : List (BRTxPeerList Hash Peer)) :
    Distinct list ↔
      (list.map BRTxPeerList.txHash).Nodup ∧
        ∀ txHash, (peersOf list txHash).Nodup := by
  constructor
  · rintro ⟨hHashes, hPeers⟩
    refine ⟨hHashes, fun txHash => ?_⟩
    rcases hEntry : entryOf list txHash with _ | entry
    · rw [peersOf_of_none hEntry]
      exact List.nodup_nil
    · rw [peersOf_of_entryOf hEntry]
      exact hPeers entry (mem_of_entryOf hEntry).1
  · rintro ⟨hHashes, hPeers⟩
    refine ⟨hHashes, fun entry hEntry => ?_⟩
    rw [← peersOf_of_mem hHashes hEntry]
    exact hPeers entry.txHash

omit [DecidableEq Peer] in
theorem not_mem_of_entryOf
    {list : List (BRTxPeerList Hash Peer)}
    {txHash : Hash}
    (hEntry : entryOf list txHash = none) :
    txHash ∉ list.map BRTxPeerList.txHash := by
  intro hMem
  rcases List.mem_map.mp hMem with ⟨entry, hThere, hSame⟩
  rw [entryOf, List.find?_eq_none] at hEntry
  exact hEntry entry hThere (by simpa using hSame)

theorem Distinct.addPeer
    {list : List (BRTxPeerList Hash Peer)}
    (hDistinct : Distinct list)
    (txHash : Hash)
    (peer : Peer) :
    Distinct (addPeer list txHash peer).1 := by
  rw [distinct_iff] at hDistinct ⊢
  constructor
  · rw [BRTxPeerList.addPeer]
    rcases hEntry : entryOf list txHash with _ | entry
    · rw [List.map_cons, List.nodup_cons]
      exact ⟨not_mem_of_entryOf hEntry, hDistinct.1⟩
    · dsimp only
      split_ifs
      · exact hDistinct.1
      · rw [hashes_changePeers]
        exact hDistinct.1
  · intro other
    rw [peersOf_addPeer]
    split_ifs
    · exact (hDistinct.2 txHash).insert
    · exact hDistinct.2 other

theorem Distinct.removePeer
    {list : List (BRTxPeerList Hash Peer)}
    (hDistinct : Distinct list)
    (txHash : Hash)
    (peer : Peer) :
    Distinct (removePeer list txHash peer).1 := by
  rw [distinct_iff] at hDistinct ⊢
  constructor
  · rw [BRTxPeerList.removePeer]
    rcases entryOf list txHash with _ | entry
    · exact hDistinct.1
    · dsimp only
      split_ifs
      · rw [hashes_changePeers]
        exact hDistinct.1
      · exact hDistinct.1
  · intro other
    rw [peersOf_removePeer]
    split_ifs
    · exact (hDistinct.2 txHash).erase peer
    · exact hDistinct.2 other

theorem Distinct.dropPeer
    {list : List (BRTxPeerList Hash Peer)}
    (hDistinct : Distinct list)
    (peer : Peer) :
    Distinct (dropPeer list peer) := by
  rw [distinct_iff] at hDistinct ⊢
  constructor
  · rw [BRTxPeerList.dropPeer, List.map_map]
    exact hDistinct.1
  · intro txHash
    rw [peersOf_dropPeer]
    exact (hDistinct.2 txHash).filter _

end BRTxPeerList

end PlusWallet
