import PlusWallet.Ethereum.BREthereumLog
import PlusWallet.Ethereum.BREthereumTransaction
import PlusWallet.Library.KeyedOrder

/-
  The transactions of a wallet, of `BREthereumWallet.c`: a list
  of pointers to records that change under it.

  Main declarations:
    * `BREthereumTransactionState`, `WalletTransaction`
    * `Ethereum.transactionCompare`
    * `Ethereum.walletInsertTransactionSorted`
    * `Ethereum.BREthereumWallet`, `Ethereum.WalletStep`
    * `Ethereum.step`
-/

namespace PlusWallet

------------------------------------------------------------
-- Records
------------------------------------------------------------

/- `BREthereumTransactionState`: a status with its data -/
inductive BREthereumTransactionState where
  | created
  | signed
  | submitted
  | blocked
      (gasUsed number timestamp transactionIndex : UInt64)
  | dropped
deriving DecidableEq

/- What a wallet reads of a `BREthereumTransactionRecord` -/
structure WalletTransaction where
  sourceAddress : BREthereumAddress
  nonce : UInt64
  hash : BREthereumHash
  state : BREthereumTransactionState
deriving DecidableEq

/- `BREthereumComparison` -/
inductive BREthereumComparison where
  | lt
  | eq
  | gt
deriving DecidableEq

namespace Ethereum

/- A pointer to a transaction, of those made so far -/
abbrev TransactionPointer := Nat

/- The records behind the pointers -/
abbrev TransactionMemory :=
  TransactionPointer → WalletTransaction

/- `transactionHasStatus` with `TRANSACTION_BLOCKED` -/
def transactionIsBlocked
    (transaction : WalletTransaction) : Bool :=
  match transaction.state with
  | .blocked _ _ _ _ => true
  | _ => false

/- `transactionCompare` -/
def transactionCompare
    (t1 t2 : WalletTransaction) : BREthereumComparison :=
  match t1.state, t2.state with
  | .blocked _ number1 _ index1, .blocked _ number2 _ index2 =>
      if number1 < number2 then .lt
      else if number2 < number1 then .gt
      else if index1 < index2 then .lt
      else if index2 < index1 then .gt
      else .eq
  | _, .blocked _ _ _ _ => .gt
  | .blocked _ _ _ _, _ => .lt
  | _, _ =>
      if t1.nonce < t2.nonce then .lt
      else if t2.nonce < t1.nonce then .gt
      else .eq

/- `transactionCreate`, as far as a wallet reads it -/
def newTransaction
    (sourceAddress : BREthereumAddress)
    (nonce : UInt64) : WalletTransaction where
  sourceAddress := sourceAddress
  nonce := nonce
  hash := List.Vector.replicate 32 0
  state := .created

/- `transactionAnnounceSubmitted` -/
def transactionAnnounceSubmitted
    (transaction : WalletTransaction)
    (hash : BREthereumHash) : WalletTransaction :=
  { transaction with state := .submitted, hash := hash }

/- `transactionAnnounceBlocked` -/
def transactionAnnounceBlocked
    (transaction : WalletTransaction)
    (gasUsed blockNumber blockTimestamp
      blockTransactionIndex : UInt64) : WalletTransaction :=
  { transaction with
    state :=
      .blocked gasUsed blockNumber blockTimestamp
        blockTransactionIndex }

/- `transactionAnnounceDropped` -/
def transactionAnnounceDropped
    (transaction : WalletTransaction) : WalletTransaction :=
  { transaction with state := .dropped }

/- What `walletSignTransaction` leaves: a nonce and a status -/
def signedTransaction
    (addressNonce : UInt64)
    (transaction : WalletTransaction) : WalletTransaction :=
  { transaction with
    nonce :=
      if transaction.nonce =
          TRANSACTION_NONCE_IS_NOT_ASSIGNED then
        addressNonce
      else transaction.nonce
    state := .signed }

/- The nonce of the address after signing -/
def nextNonce
    (addressNonce : UInt64)
    (transaction : WalletTransaction) : UInt64 :=
  if transaction.nonce = TRANSACTION_NONCE_IS_NOT_ASSIGNED then
    addressNonce + 1
  else addressNonce

/- `addressSetNonce`, which is not forced -/
def addressSetNonce (addressNonce nonce : UInt64) : UInt64 :=
  if addressNonce < nonce then nonce else addressNonce

------------------------------------------------------------
-- Lists of Transactions
------------------------------------------------------------

/-
  The loop of `walletInsertTransactionSorted`: the index goes
  down while the transaction is less than the one in front.
-/
def insertionIndex
    (memory : TransactionMemory)
    (transactions : List TransactionPointer)
    (transaction : TransactionPointer) : Nat → Nat
  | 0 => 0
  | index + 1 =>
      match transactions[index]? with
      | none => index + 1
      | some next =>
          if transactionCompare (memory transaction)
              (memory next) ≠ .lt then
            index + 1
          else
            insertionIndex memory transactions transaction index

/- `walletInsertTransactionSorted` -/
def walletInsertTransactionSorted
    (memory : TransactionMemory)
    (transactions : List TransactionPointer)
    (transaction : TransactionPointer) :
    List TransactionPointer :=
  let index :=
    insertionIndex memory transactions transaction
      transactions.length
  transactions.take index ++
    transaction :: transactions.drop index

/- `walletHandleTransaction` -/
def walletHandleTransaction
    (memory : TransactionMemory)
    (transactions : List TransactionPointer)
    (transaction : TransactionPointer) :
    List TransactionPointer :=
  walletInsertTransactionSorted memory transactions transaction

/- `walletUnhandleTransaction`: the first entry is removed. -/
def walletUnhandleTransaction
    (transactions : List TransactionPointer)
    (transaction : TransactionPointer) :
    Option (List TransactionPointer) :=
  if transaction ∈ transactions then
    some (transactions.erase transaction)
  else none

/- `walletUpdateTransactionSorted` -/
def walletUpdateTransactionSorted
    (memory : TransactionMemory)
    (transactions : List TransactionPointer)
    (transaction : TransactionPointer) :
    Option (List TransactionPointer) := do
  let others ←
    walletUnhandleTransaction transactions transaction
  some (walletInsertTransactionSorted memory others transaction)

/- `hashExists` -/
def hashExists (hash : BREthereumHash) : Bool :=
  hash.toList.any (· ≠ 0)

/- `walletGetTransactionByHash` -/
def walletGetTransactionByHash
    (memory : TransactionMemory)
    (transactions : List TransactionPointer)
    (hash : BREthereumHash) : Option TransactionPointer :=
  if hashExists hash then
    transactions.find? fun transaction =>
      hash = (memory transaction).hash
  else none

/- `walletGetTransactionByNonce` -/
def walletGetTransactionByNonce
    (memory : TransactionMemory)
    (transactions : List TransactionPointer)
    (sourceAddress : BREthereumAddress)
    (nonce : UInt64) : Option TransactionPointer :=
  transactions.find? fun transaction =>
    nonce = (memory transaction).nonce ∧
      sourceAddress = (memory transaction).sourceAddress

------------------------------------------------------------
-- Wallets
------------------------------------------------------------

/-
  A wallet with the address that counts its nonces, and with the
  records made so far.
-/
structure BREthereumWallet where
  address : BREthereumAddress
  addressNonce : UInt64
  memory : TransactionMemory
  made : Nat
  transactions : List TransactionPointer

/-
  What can happen to a wallet: `make` is a `transactionCreate`
  outside of it, and `setNonce` is `addressSetNonce` of an
  announcement.
-/
inductive WalletStep where
  | make (sourceAddress : BREthereumAddress) (nonce : UInt64)
  | setNonce (nonce : UInt64)
  | create (nonce : UInt64)
  | sign (transaction : TransactionPointer)
  | submit
      (transaction : TransactionPointer)
      (hash : BREthereumHash)
  | block
      (transaction : TransactionPointer)
      (gasUsed blockNumber blockTimestamp
        blockTransactionIndex : UInt64)
  | drop (transaction : TransactionPointer)
  | handle (transaction : TransactionPointer)
  | unhandle (transaction : TransactionPointer)

/- A new record in the memory -/
def BREthereumWallet.make
    (wallet : BREthereumWallet)
    (transaction : WalletTransaction) : BREthereumWallet :=
  { wallet with
    memory :=
      Function.update wallet.memory wallet.made transaction
    made := wallet.made + 1 }

/- Another record in the place of one -/
def BREthereumWallet.change
    (wallet : BREthereumWallet)
    (pointer : TransactionPointer)
    (transaction : WalletTransaction) : BREthereumWallet :=
  { wallet with
    memory :=
      Function.update wallet.memory pointer transaction }

/-
  One step of a wallet; `none` stands for a pointer that is not
  one, and for a failed assertion.
-/
def walletStep
    (wallet : BREthereumWallet) :
    WalletStep → Option BREthereumWallet
  | .make sourceAddress nonce =>
      some (wallet.make (newTransaction sourceAddress nonce))
  | .setNonce nonce =>
      some
        { wallet with
          addressNonce :=
            addressSetNonce wallet.addressNonce nonce }
  | .create nonce =>
      let made :=
        wallet.make (newTransaction wallet.address nonce)
      some
        { made with
          transactions :=
            walletHandleTransaction made.memory
              wallet.transactions wallet.made }
  | .sign transaction =>
      if transaction < wallet.made then
        some
          { wallet.change transaction
              (signedTransaction wallet.addressNonce
                (wallet.memory transaction)) with
            addressNonce :=
              nextNonce wallet.addressNonce
                (wallet.memory transaction) }
      else none
  | .submit transaction hash =>
      if transaction < wallet.made then
        some
          (wallet.change transaction
            (transactionAnnounceSubmitted
              (wallet.memory transaction) hash))
      else none
  | .block transaction gasUsed blockNumber blockTimestamp
      blockTransactionIndex =>
      if transaction < wallet.made then do
        let changed :=
          wallet.change transaction
            (transactionAnnounceBlocked
              (wallet.memory transaction) gasUsed blockNumber
              blockTimestamp blockTransactionIndex)
        let transactions ←
          walletUpdateTransactionSorted changed.memory
            changed.transactions transaction
        some { changed with transactions := transactions }
      else none
  | .drop transaction =>
      if transaction < wallet.made then
        some
          (wallet.change transaction
            (transactionAnnounceDropped
              (wallet.memory transaction)))
      else none
  | .handle transaction =>
      if transaction < wallet.made then
        some
          { wallet with
            transactions :=
              walletHandleTransaction wallet.memory
                wallet.transactions transaction }
      else none
  | .unhandle transaction => do
      let transactions ←
        walletUnhandleTransaction wallet.transactions transaction
      some { wallet with transactions := transactions }

end Ethereum

end PlusWallet
