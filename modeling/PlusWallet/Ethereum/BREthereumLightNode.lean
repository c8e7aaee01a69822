import PlusWallet.Ethereum.BREthereumWallet

/-
  The announcements of a light node about its transactions, of
  `BREthereumLightNodeAnnounce.c`.

  Main declarations:
    * `Ethereum.BREthereumLightNode`
    * `Ethereum.lightNodeAnnounceSubmitTransaction`
    * `Ethereum.lightNodeAnnounceTransaction`
    * `Ethereum.lightNodeAnnounceLog`
    * `Ethereum.NodeStep`, `Ethereum.nodeStep`
-/

namespace PlusWallet

open Bytes

namespace Ethereum

/- A block of `createBlockMinimal` -/
structure AnnouncedBlock where
  hash : BREthereumHash
  number : UInt64
  timestamp : UInt64

/-
  `BREthereumLightNodeRecord`: its account, the transactions
  made so far, a wallet for ether and one for each token, and
  the blocks
-/
structure BREthereumLightNode where
  primaryAddress : BREthereumAddress
  addressNonce : UInt64
  memory : TransactionMemory
  made : Nat
  wallets : Option BREthereumToken → List TransactionPointer
  blocks : List AnnouncedBlock

/- What `lightNodeAnnounceTransaction` is told. -/
structure TransactionAnnouncement where
  hash : BREthereumHash
  source : BREthereumAddress
  target : BREthereumAddress
  nonce : UInt64
  gasUsed : UInt64
  blockNumber : UInt64
  blockHash : BREthereumHash
  blockTransactionIndex : UInt64
  blockTimestamp : UInt64

/- What `lightNodeAnnounceLog` is told. -/
structure LogAnnouncement where
  hash : BREthereumHash
  contract : List UInt8
  isTransfer : Bool
  source : BREthereumAddress
  gasUsed : UInt64
  blockNumber : UInt64
  blockTransactionIndex : UInt64
  blockTimestamp : UInt64

namespace BREthereumLightNode

/- Another record in the place of one -/
def change
    (node : BREthereumLightNode)
    (pointer : TransactionPointer)
    (transaction : WalletTransaction) : BREthereumLightNode :=
  { node with
    memory := Function.update node.memory pointer transaction }

/- Another list of transactions for a wallet -/
def setWallet
    (node : BREthereumLightNode)
    (wallet : Option BREthereumToken)
    (transactions : List TransactionPointer) :
    BREthereumLightNode :=
  { node with
    wallets :=
      Function.update node.wallets wallet transactions }

/- A new transaction, in the node and in a wallet of it -/
def insert
    (node : BREthereumLightNode)
    (wallet : Option BREthereumToken)
    (transaction : WalletTransaction) : BREthereumLightNode :=
  let memory :=
    Function.update node.memory node.made transaction
  { node with
    memory := memory
    made := node.made + 1
    wallets :=
      Function.update node.wallets wallet
        (walletHandleTransaction memory (node.wallets wallet)
          node.made) }

end BREthereumLightNode

/- `addressHasString` -/
def addressHasString
    (address : BREthereumAddress)
    (string : List UInt8) : Bool :=
  strcasecmp string address.string

/- `lightNodeAnnounceBlock` -/
def lightNodeAnnounceBlock
    (node : BREthereumLightNode)
    (block : AnnouncedBlock) :
    BREthereumLightNode × AnnouncedBlock :=
  match node.blocks.find? (fun other => block.hash = other.hash)
    with
  | some found => (node, found)
  | none => ({ node with blocks := node.blocks ++ [block] }, block)

/- The end of both announcements: blocked, unless it was -/
def announceBlocked
    (node : BREthereumLightNode)
    (wallet : Option BREthereumToken)
    (transaction : TransactionPointer)
    (gasUsed : UInt64)
    (block : AnnouncedBlock)
    (blockTransactionIndex : UInt64) :
    Option BREthereumLightNode :=
  if transactionIsBlocked (node.memory transaction) then
    some node
  else do
    let node :=
      node.change transaction
        (transactionAnnounceBlocked (node.memory transaction)
          gasUsed block.number block.timestamp
          blockTransactionIndex)
    let transactions ←
      walletUpdateTransactionSorted node.memory
        (node.wallets wallet) transaction
    some (node.setWallet wallet transactions)

/- A new transaction that is submitted with its hash at once -/
def insertSubmitted
    (node : BREthereumLightNode)
    (wallet : Option BREthereumToken)
    (sourceAddress : BREthereumAddress)
    (nonce : UInt64)
    (hash : BREthereumHash) : BREthereumLightNode :=
  let inserted :=
    node.insert wallet (newTransaction sourceAddress nonce)
  inserted.change node.made
    (transactionAnnounceSubmitted
      (inserted.memory node.made) hash)

/-
  `lightNodeAnnounceSubmitTransaction`, with the wallet that was
  found, if any
-/
def lightNodeAnnounceSubmitTransaction
    (node : BREthereumLightNode)
    (wallet : Option (Option BREthereumToken))
    (tid : TransactionPointer)
    (hash : BREthereumHash) : BREthereumLightNode :=
  if wallet ≠ none ∧ tid < node.made then
    node.change tid
      (transactionAnnounceSubmitted (node.memory tid) hash)
  else node

/- Whether the account of the node is the source -/
def isSource
    (node : BREthereumLightNode)
    (announcement : TransactionAnnouncement) : Bool :=
  addressHasString node.primaryAddress
    announcement.source.string

/- The address that a new transaction is from -/
def announcedSource
    (node : BREthereumLightNode)
    (announcement : TransactionAnnouncement) :
    BREthereumAddress :=
  if isSource node announcement then node.primaryAddress
  else announcement.source

/- The transaction that an announcement is about -/
def findAnnounced
    (node : BREthereumLightNode)
    (announcement : TransactionAnnouncement) :
    Option TransactionPointer :=
  match walletGetTransactionByHash node.memory
      (node.wallets none) announcement.hash with
  | some transaction => some transaction
  | none =>
      if isSource node announcement then
        walletGetTransactionByNonce node.memory
          (node.wallets none) node.primaryAddress
          announcement.nonce
      else none

/- `lightNodeAnnounceTransaction` -/
def lightNodeAnnounceTransaction
    (node : BREthereumLightNode)
    (announcement : TransactionAnnouncement) :
    Option BREthereumLightNode :=
  if isSource node announcement ∨
      addressHasString node.primaryAddress
        announcement.target.string then
    let (node, block) :=
      lightNodeAnnounceBlock node
        { hash := announcement.blockHash
          number := announcement.blockNumber
          timestamp := announcement.blockTimestamp }
    match findAnnounced node announcement with
    | some transaction =>
        announceBlocked node none transaction
          announcement.gasUsed block
          announcement.blockTransactionIndex
    | none =>
        announceBlocked
          (insertSubmitted node none
            (announcedSource node announcement)
            announcement.nonce announcement.hash)
          none node.made announcement.gasUsed block
          announcement.blockTransactionIndex
  else none

/-
  `lightNodeAnnounceLog`: the hash of the transaction stands in
  for the hash of the block.
-/
def lightNodeAnnounceLog
    (tokens : List BREthereumToken)
    (node : BREthereumLightNode)
    (announcement : LogAnnouncement) :
    Option BREthereumLightNode :=
  match tokenLookup tokens announcement.contract with
  | none => some node
  | some token =>
      if announcement.isTransfer then
        let (node, block) :=
          lightNodeAnnounceBlock node
            { hash := announcement.hash
              number := announcement.blockNumber
              timestamp := announcement.blockTimestamp }
        match walletGetTransactionByHash node.memory
            (node.wallets (some token)) announcement.hash with
        | some transaction =>
            announceBlocked node (some token) transaction
              announcement.gasUsed block
              announcement.blockTransactionIndex
        | none =>
            announceBlocked
              (insertSubmitted node (some token)
                announcement.source 0 announcement.hash)
              (some token) node.made announcement.gasUsed block
              announcement.blockTransactionIndex
      else some node

/-
  What can happen to the transactions of a node: its own calls,
  and announcements of its client
-/
inductive NodeStep where
  | createTransaction (wallet : Option BREthereumToken)
  | signTransaction (transaction : TransactionPointer)
  | announceNonce (nonce : UInt64)
  | announceSubmitTransaction
      (wallet : Option (Option BREthereumToken))
      (tid : TransactionPointer)
      (hash : BREthereumHash)
  | announceTransaction (announcement : TransactionAnnouncement)
  | announceLog (announcement : LogAnnouncement)

/- One step of a node -/
def nodeStep
    (tokens : List BREthereumToken)
    (node : BREthereumLightNode) :
    NodeStep → Option BREthereumLightNode
  | .createTransaction wallet =>
      some
        (node.insert wallet
          (newTransaction node.primaryAddress
            TRANSACTION_NONCE_IS_NOT_ASSIGNED))
  | .signTransaction transaction =>
      if transaction < node.made then
        some
          { node.change transaction
              (signedTransaction node.addressNonce
                (node.memory transaction)) with
            addressNonce :=
              nextNonce node.addressNonce
                (node.memory transaction) }
      else none
  | .announceNonce nonce =>
      some
        { node with
          addressNonce :=
            addressSetNonce node.addressNonce nonce }
  | .announceSubmitTransaction wallet tid hash =>
      some
        (lightNodeAnnounceSubmitTransaction node wallet tid hash)
  | .announceTransaction announcement =>
      lightNodeAnnounceTransaction node announcement
  | .announceLog announcement =>
      lightNodeAnnounceLog tokens node announcement

end Ethereum

end PlusWallet
