import PlusWallet.Library.Run
import PlusWallet.Wallet.Wallet

/-
  How `BRPeerManager.c` publishes transactions and calls back.

  Each call runs under the lock, up to the callbacks it makes
  behind it.  What a call asks of the wallet is given with it,
  and may be anything.  What it sends to peers, their timers,
  time stamps and the lists of the peers that relay a
  transaction are left out: nothing here reads them, and a
  timeout is a call like any other.

  Main declarations:
    * `BRPeerManager`
    * `addTxToPublishList`
    * `peerRelayedTx`, `peerHasTx`, `peerRequestedTx`
    * `peerDisconnected`
    * `publishTx`, `publishTxChecked`
    * `History`, `step`
-/

namespace PlusWallet

/- The codes of `errno.h` that are told apart. -/
inductive Errno where
  | EINVAL
  | EPROTO
  | ENOTCONN
  | ETIMEDOUT
  | other (code : Nat)
deriving DecidableEq

/- notify user of network problems after this many connect
   failures in a row -/
def MAX_CONNECT_FAILURES : Nat := 20

/- `BRPublishedTx`; the callback stands for its info too. -/
structure BRPublishedTx (Hash Callback : Type) where
  tx : BRTransaction Hash
  callback : Option Callback

/- An entry whose callback is taken. -/
def BRPublishedTx.cleared
    {Hash Callback : Type}
    (entry : BRPublishedTx Hash Callback) :
    BRPublishedTx Hash Callback :=
  { entry with callback := none }

/- The fields of the manager about its connections. -/
structure Connections (Peer : Type) where
  isConnected : Bool
  connectFailureCount : Nat
  syncStartHeight : Nat
  downloadPeer : Option Peer
  connectedPeers : List Peer

/-
  A call of `BRPeerManagerPublishTx` that has released the
  lock to ask whether the network is reachable.
-/
structure PublishCall (Hash Callback : Type) where
  tx : BRTransaction Hash
  callback : Option Callback
  connectFailureCount : Nat

/- `BRPeerManagerStruct`, with the calls that are going on. -/
structure BRPeerManager (Hash Peer Callback : Type) where
  connections : Connections Peer
  publishedTx : List (BRPublishedTx Hash Callback)
  calls : List (PublishCall Hash Callback)

/- The callbacks of a call, with their errors, none for 0. -/
abbrev Invoked (Callback : Type) :=
  List (Callback × Option Errno)

namespace BRPeerManager

variable {Hash Peer Callback : Type}
variable [DecidableEq Hash] [DecidableEq Peer]

/- `BRPeerManagerNew` -/
def new : BRPeerManager Hash Peer Callback where
  connections :=
    { isConnected := false
      connectFailureCount := 0
      syncStartHeight := 0
      downloadPeer := none
      connectedPeers := [] }
  publishedTx := []
  calls := []

------------------------------------------------------------
-- The List
------------------------------------------------------------

/- Whether the list holds a transaction. -/
def isPublished
    (publishedTx : List (BRPublishedTx Hash Callback))
    (txHash : Hash) : Bool :=
  publishedTx.any fun entry => entry.tx.txHash = txHash

/-
  `_BRPeerManagerAddTxToPublishList`, with a bound on its
  recursion over the unconfirmed inputs
-/
def addTx
    (allTx : TxSet Hash) :
    Nat → List (BRPublishedTx Hash Callback) →
      BRTransaction Hash → Option Callback →
        Option (List (BRPublishedTx Hash Callback))
  | 0, _, _, _ => none
  | bound + 1, publishedTx, tx, callback =>
      if tx.blockHeight ≠ TX_UNCONFIRMED then
        some publishedTx
      else if isPublished publishedTx tx.txHash then
        some publishedTx
      else
        tx.inputs.foldlM
          (fun publishedTx input =>
            match allTx.get input.txHash with
            | none => some publishedTx
            | some parent =>
                addTx allTx bound publishedTx parent none)
          (publishedTx ++
            [{ tx := tx, callback := callback }])

/- `_BRPeerManagerAddTxToPublishList` -/
def addTxToPublishList
    (allTx : TxSet Hash)
    (publishedTx : List (BRPublishedTx Hash Callback))
    (tx : BRTransaction Hash)
    (callback : Option Callback) :
    Option (List (BRPublishedTx Hash Callback)) :=
  addTx allTx (allTx.records.length + 2) publishedTx tx
    callback

/-
  The loop over the list, from its end, that takes the entry
  of a transaction and clears its callback.
-/
def takePublished
    (txHash : Hash) :
    List (BRPublishedTx Hash Callback) →
      Option (BRPublishedTx Hash Callback) ×
        List (BRPublishedTx Hash Callback)
  | [] => (none, [])
  | entry :: entries =>
      let (pubTx, entries) := takePublished txHash entries
      if entry.tx.txHash = txHash then
        (some entry, entry.cleared :: entries)
      else (pubTx, entry :: entries)

/- A call of a callback that may be `NULL`. -/
def invoke
    (callback : Option Callback)
    (error : Option Errno) : Invoked Callback :=
  callback.toList.map fun callback => (callback, error)

------------------------------------------------------------
-- Messages of Peers
------------------------------------------------------------

/-
  What `_peerRelayedTx` is told by the wallet: whether it
  contains the transaction, whether it registers it, what it
  holds then, and whether the transaction is a valid one that
  sends from it.
-/
structure RelayAnswers (Hash : Type) where
  contains : Bool
  registers : Bool
  allTx : TxSet Hash
  sends : Bool
  isValid : Bool

/- `_peerRelayedTx` -/
def peerRelayedTx
    (manager : BRPeerManager Hash Peer Callback)
    (tx : BRTransaction Hash)
    (answers : RelayAnswers Hash) :
    Option
      (BRPeerManager Hash Peer Callback × Invoked Callback) := do
  let (pubTx, publishedTx) :=
    takePublished tx.txHash manager.publishedTx
  let isWalletTx :=
    (manager.connections.syncStartHeight = 0 ||
      answers.contains) && answers.registers
  let publishedTx ←
    match answers.allTx.get tx.txHash with
    | none => some publishedTx
    | some tx =>
        if isWalletTx && answers.sends && answers.isValid then
          -- add valid send tx to mempool
          addTxToPublishList answers.allTx publishedTx tx none
        else some publishedTx
  return ({ manager with publishedTx := publishedTx },
    invoke (pubTx.bind BRPublishedTx.callback) none)

/- `_peerHasTx` -/
def peerHasTx
    (manager : BRPeerManager Hash Peer Callback)
    (txHash : Hash) :
    BRPeerManager Hash Peer Callback × Invoked Callback :=
  let (pubTx, publishedTx) :=
    takePublished txHash manager.publishedTx
  ({ manager with publishedTx := publishedTx },
    invoke (pubTx.bind BRPublishedTx.callback) none)

/-
  `_peerRequestedTx`, with the transaction that it returns; the
  wallet tells whether the transaction is valid
-/
def peerRequestedTx
    (manager : BRPeerManager Hash Peer Callback)
    (txHash : Hash)
    (isValid : Bool) :
    BRPeerManager Hash Peer Callback × Invoked Callback ×
      Option (BRTransaction Hash) :=
  let (pubTx, publishedTx) :=
    takePublished txHash manager.publishedTx
  let error :=
    if pubTx.isSome && !isValid then some Errno.EINVAL
    else none
  ({ manager with publishedTx := publishedTx },
    invoke (pubTx.bind BRPublishedTx.callback) error,
    pubTx.map BRPublishedTx.tx)

/- The calls that a disconnect makes, from the list's end. -/
def cancelled
    (publishedTx : List (BRPublishedTx Hash Callback))
    (error : Errno) : Invoked Callback :=
  publishedTx.reverse.flatMap fun entry =>
    invoke entry.callback (some error)

/- `_peerDisconnected`, with an error that is `none` for 0 -/
def peerDisconnected
    (manager : BRPeerManager Hash Peer Callback)
    (peer : Peer)
    (error : Option Errno) :
    BRPeerManager Hash Peer Callback × Invoked Callback :=
  let state := manager.connections
  -- timeout or some non-protocol related network error
  let isFailure := error.isSome && error ≠ some Errno.EPROTO
  let failures :=
    if isFailure then state.connectFailureCount + 1
    else state.connectFailureCount
  let txError :=
    if isFailure && error = some Errno.ETIMEDOUT &&
        (some peer ≠ state.downloadPeer ||
          state.syncStartHeight = 0 ||
          state.connectedPeers.length = 1) then
      some Errno.ETIMEDOUT
    else none
  -- download peer disconnected
  let isDownload := some peer = state.downloadPeer
  let isConnected := state.isConnected && !isDownload
  let failures :=
    if isDownload then min failures MAX_CONNECT_FAILURES
    else failures
  let isStopped :=
    !isConnected && failures = MAX_CONNECT_FAILURES
  -- trigger any pending tx publish callbacks
  let txError :=
    if isStopped then some Errno.ENOTCONN else txError
  let connections :=
    { isConnected := isConnected
      connectFailureCount := failures
      syncStartHeight :=
        if isStopped then 0 else state.syncStartHeight
      downloadPeer :=
        if isDownload then none else state.downloadPeer
      connectedPeers :=
        (state.connectedPeers.reverse.erase peer).reverse }
  match txError with
  | none => ({ manager with connections := connections }, [])
  | some txError =>
      ({ manager with
          connections := connections
          publishedTx :=
            manager.publishedTx.map BRPublishedTx.cleared },
        cancelled manager.publishedTx txError)

------------------------------------------------------------
-- Publishing
------------------------------------------------------------

/-
  `BRPeerManagerPublishTx` up to where it releases the lock,
  or to its end if it is connected
-/
def publishTx
    (manager : BRPeerManager Hash Peer Callback)
    (tx : BRTransaction Hash)
    (callback : Option Callback)
    (allTx : TxSet Hash) :
    Option
      (BRPeerManager Hash Peer Callback × Invoked Callback) :=
  if !tx.isSigned then
    -- transaction not signed
    some (manager, invoke callback (some Errno.EINVAL))
  else if !manager.connections.isConnected then
    some
      ({ manager with
          calls :=
            manager.calls ++
              [{ tx := tx
                 callback := callback
                 connectFailureCount :=
                   manager.connections.connectFailureCount }] },
        [])
  else do
    let publishedTx ←
      addTxToPublishList allTx manager.publishedTx tx callback
    return ({ manager with publishedTx := publishedTx }, [])

/-
  The rest of the call at a place in the list of calls, with
  the block height that the transaction has by then
-/
def publishTxChecked
    (manager : BRPeerManager Hash Peer Callback)
    (place : Nat)
    (isReachable : Bool)
    (blockHeight : Nat)
    (allTx : TxSet Hash) :
    Option
      (BRPeerManager Hash Peer Callback × Invoked Callback) := do
  match manager.calls[place]? with
  | none => some (manager, [])
  | some call =>
      let manager :=
        { manager with calls := manager.calls.eraseIdx place }
      if MAX_CONNECT_FAILURES ≤ call.connectFailureCount ∨
          isReachable = false then
        -- not connected to bitcoin network
        some
          (manager, invoke call.callback (some Errno.ENOTCONN))
      else
        let publishedTx ←
          addTxToPublishList allTx manager.publishedTx
            { call.tx with blockHeight := blockHeight }
            call.callback
        return ({ manager with publishedTx := publishedTx }, [])

------------------------------------------------------------
-- Sequences of Calls
------------------------------------------------------------

/-
  One call.  `other` stands for every function that does not
  change the list, whatever it does to the connections.
-/
inductive Event (Hash Peer Callback : Type) where
  | publish
      (tx : BRTransaction Hash)
      (callback : Option Callback)
      (allTx : TxSet Hash)
  | checked
      (place : Nat)
      (isReachable : Bool)
      (blockHeight : Nat)
      (allTx : TxSet Hash)
  | relayedTx
      (tx : BRTransaction Hash)
      (answers : RelayAnswers Hash)
  | hasTx (txHash : Hash)
  | requestedTx (txHash : Hash) (isValid : Bool)
  | disconnected (peer : Peer) (error : Option Errno)
  | other (connections : Connections Peer)

/- The callback that a call passes to the manager. -/
def Event.passed :
    Event Hash Peer Callback → Option Callback
  | .publish _ callback _ => callback
  | _ => none

/- Run one call. -/
def handle
    (manager : BRPeerManager Hash Peer Callback) :
    Event Hash Peer Callback →
      Option
        (BRPeerManager Hash Peer Callback × Invoked Callback)
  | .publish tx callback allTx =>
      manager.publishTx tx callback allTx
  | .checked place isReachable blockHeight allTx =>
      manager.publishTxChecked place isReachable blockHeight
        allTx
  | .relayedTx tx answers => manager.peerRelayedTx tx answers
  | .hasTx txHash => some (manager.peerHasTx txHash)
  | .requestedTx txHash isValid =>
      let (manager, invoked, _) :=
        manager.peerRequestedTx txHash isValid
      some (manager, invoked)
  | .disconnected peer error =>
      some (manager.peerDisconnected peer error)
  | .other connections =>
      some ({ manager with connections := connections }, [])

/-
  The manager with the callbacks that were passed to it and
  those that it has called.
-/
structure History (Hash Peer Callback : Type) where
  manager : BRPeerManager Hash Peer Callback
  passed : List Callback
  invoked : Invoked Callback

/- The manager before any call. -/
def History.start : History Hash Peer Callback where
  manager := new
  passed := []
  invoked := []

/- Run one call and keep account of it. -/
def step
    (history : History Hash Peer Callback)
    (event : Event Hash Peer Callback) :
    Option (History Hash Peer Callback) := do
  let (manager, invoked) ← history.manager.handle event
  some
    { manager := manager
      passed := history.passed ++ event.passed.toList
      invoked := history.invoked ++ invoked }

end BRPeerManager

end PlusWallet
