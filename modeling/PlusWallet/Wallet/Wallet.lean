import PlusWallet.Library.KeyedSet
import PlusWallet.Transaction.Transaction

/-
  The wallet of `BRWallet.c` and the calls that change it.

  `transactions` holds pointers to records of `allTx`; here
  it holds their hashes.  The sets of transactions, outputs
  and addresses are finite sets.  A result of `none` stands
  for a run that follows a pointer to a freed transaction or
  recurses without end, or for a `NULL` wallet.

  Main declarations:
    * `WalletKeys`
    * `BRWallet`
    * `BRWallet.updateBalance`
    * `BRWallet.registerTransaction`
    * `BRWallet.removeTransaction`
    * `BRWallet.updateTransactions`
    * `BRWallet.setTxUnconfirmedAfter`
    * `BRWallet.step`
-/

namespace PlusWallet

------------------------------------------------------------
-- Wallets
------------------------------------------------------------

/-
  Addresses: the one that a script pays, and those that the
  master public key gives for the internal and the external
  chain.  `moved` tells whether the array of a chain is moved
  in memory when it grows from one length to another.
-/
structure WalletKeys (Address : Type) where
  addressOf : List UInt8 → Option Address
  derive : (internal : Bool) → Nat → Option Address
  moved : (internal : Bool) → Nat → Nat → Bool

/- gap limits of `BRBIP32Sequence.h` -/
def SEQUENCE_GAP_LIMIT_EXTERNAL : Nat := 10

def SEQUENCE_GAP_LIMIT_INTERNAL : Nat := 5

/- The transactions of a wallet, one to a hash. -/
abbrev TxSet (Hash : Type) :=
  KeyedSet (fun tx : BRTransaction Hash => tx.txHash)

/- `BRWalletStruct` -/
structure BRWallet (Hash Address : Type) where
  balance : UInt64
  totalSent : UInt64
  totalReceived : UInt64
  feePerKb : UInt64
  balanceHist : List UInt64
  blockHeight : Nat
  utxos : List (BRUTXO Hash)
  transactions : List Hash
  internalChain : List Address
  externalChain : List Address
  allTx : TxSet Hash
  invalidTx : Finset Hash
  pendingTx : Finset Hash
  spentOutputs : Finset (BRUTXO Hash)
  usedAddrs : Finset Address
  allAddrs : Finset Address

variable {Hash Address : Type}
variable [DecidableEq Hash] [DecidableEq Address]

/- The address of a transaction's output. -/
def WalletKeys.outputAddress
    (keys : WalletKeys Address)
    (output : BRTxOutput) : Option Address :=
  keys.addressOf output.script

namespace BRWallet

------------------------------------------------------------
-- Order of Transactions
------------------------------------------------------------

/-
  `_BRWalletTxIsAscending`, with a bound on its recursion
  along the inputs of the first transaction.
-/
def txIsAscending
    (allTx : TxSet Hash) :
    Nat → BRTransaction Hash → BRTransaction Hash →
      Option Bool
  | 0, _, _ => none
  | bound + 1, tx1, tx2 =>
      if tx2.blockHeight < tx1.blockHeight then some true
      else if tx1.blockHeight < tx2.blockHeight then
        some false
      else if
          tx1.inputs.any fun input =>
            input.txHash = tx2.txHash then some true
      else if
          tx2.inputs.any fun input =>
            input.txHash = tx1.txHash then some false
      else
        tx1.inputs.foldlM
          (fun found input =>
            if found then some true
            else
              match allTx.get input.txHash with
              | some parent =>
                  txIsAscending allTx bound parent tx2
              | none => some false)
          false

/- `_txChainIndex` -/
def txChainIndex
    (keys : WalletKeys Address)
    (tx : BRTransaction Hash)
    (addrChain : List Address) : Option Nat :=
  (List.range addrChain.length).reverse.find? fun i =>
    tx.outputs.any fun output =>
      decide (keys.outputAddress output = addrChain[i]?)

/- `_BRWalletTxCompare` -/
def txCompare
    (keys : WalletKeys Address)
    (wallet : BRWallet Hash Address)
    (tx1 tx2 : BRTransaction Hash) : Option Int := do
  let bound := wallet.allTx.records.length + 1
  if ← txIsAscending wallet.allTx bound tx1 tx2 then
    return 1
  if ← txIsAscending wallet.allTx bound tx2 tx1 then
    return -1
  let i := txChainIndex keys tx1 wallet.internalChain
  let j :=
    txChainIndex keys tx2
      (if i = none then wallet.externalChain
        else wallet.internalChain)
  let i :=
    if i = none ∧ j ≠ none then
      txChainIndex keys tx1 wallet.externalChain
    else i
  match i, j with
  | some i, some j =>
      return if i = j then 0 else if j < i then 1 else -1
  | _, _ => return 0

/-
  The loop of `_BRWalletInsertTx` from the end of the list,
  over the list backwards.
-/
def insertBehind
    (keys : WalletKeys Address)
    (wallet : BRWallet Hash Address)
    (tx : BRTransaction Hash) :
    List Hash → Option (List Hash)
  | [] => some [tx.txHash]
  | hash :: before => do
      let other ← wallet.allTx.get hash
      let order ← wallet.txCompare keys other tx
      if 0 < order then
        let before ← insertBehind keys wallet tx before
        some (hash :: before)
      else some (tx.txHash :: hash :: before)

/- `_BRWalletInsertTx` -/
def insertTx
    (keys : WalletKeys Address)
    (wallet : BRWallet Hash Address)
    (tx : BRTransaction Hash) :
    Option (BRWallet Hash Address) := do
  let transactions ←
    insertBehind keys wallet tx wallet.transactions.reverse
  some { wallet with transactions := transactions.reverse }

/- Whether an output pays a generated address. -/
def paysWallet
    (keys : WalletKeys Address)
    (wallet : BRWallet Hash Address)
    (output : BRTxOutput) : Bool :=
  match keys.outputAddress output with
  | some address => decide (address ∈ wallet.allAddrs)
  | none => false

/- The output that an input of a transaction spends. -/
def spentOutput
    (allTx : TxSet Hash)
    (utxo : BRUTXO Hash) : Option BRTxOutput := do
  let tx ← allTx.get utxo.hash
  tx.outputs[utxo.n.toNat]?

/- `_BRWalletContainsTx` -/
def containsTx
    (keys : WalletKeys Address)
    (wallet : BRWallet Hash Address)
    (tx : BRTransaction Hash) : Bool :=
  (tx.outputs.any fun output =>
      wallet.paysWallet keys output) ||
    tx.inputs.any fun input =>
      match spentOutput wallet.allTx input.utxo with
      | some output => wallet.paysWallet keys output
      | none => false

/- `BRWalletAmountReceivedFromTx` -/
def amountReceivedFromTx
    (keys : WalletKeys Address)
    (wallet : BRWallet Hash Address)
    (tx : BRTransaction Hash) : UInt64 :=
  (tx.outputs.map fun output =>
    if wallet.paysWallet keys output then output.amount
    else 0).sum

/- `BRWalletAmountSentByTx` -/
def amountSentByTx
    (keys : WalletKeys Address)
    (wallet : BRWallet Hash Address)
    (tx : BRTransaction Hash) : UInt64 :=
  (tx.inputs.map fun input =>
    match spentOutput wallet.allTx input.utxo with
    | some output =>
        if wallet.paysWallet keys output then output.amount
        else 0
    | none => 0).sum

------------------------------------------------------------
-- Balance
------------------------------------------------------------

/- What `_BRWalletUpdateBalance` builds up, with its locals. -/
structure Pass (Hash Address : Type) where
  balance : UInt64
  prevBalance : UInt64
  totalSent : UInt64
  totalReceived : UInt64
  balanceHist : List UInt64
  utxos : List (BRUTXO Hash)
  invalidTx : Finset Hash
  pendingTx : Finset Hash
  spentOutputs : Finset (BRUTXO Hash)
  usedAddrs : Finset Address

/- The state in which the loop over all transactions begins. -/
def Pass.start : Pass Hash Address where
  balance := 0
  prevBalance := 0
  totalSent := 0
  totalReceived := 0
  balanceHist := []
  utxos := []
  invalidTx := ∅
  pendingTx := ∅
  spentOutputs := ∅
  usedAddrs := ∅

/- What the loop reads besides the transactions. -/
structure Reads (Hash Address : Type) where
  keys : WalletKeys Address
  allAddrs : Finset Address
  allTx : TxSet Hash
  blockHeight : Nat
  now : Nat

/-
  The amount of a coin.  Coins come from transactions of the
  wallet, so they are always found in `allTx`.
-/
def Reads.amount
    (reads : Reads Hash Address)
    (utxo : BRUTXO Hash) : UInt64 :=
  match spentOutput reads.allTx utxo with
  | some output => output.amount
  | none => 0

/-
  The test for a transaction that is pending by itself: too
  large, a dust output, replaceable, or locked.
-/
def selfPending
    (blockHeight now : Nat)
    (tx : BRTransaction Hash) : Bool :=
  decide (TX_MAX_SIZE < tx.size) ||
    (tx.outputs.any fun output =>
      decide (output.amount.toNat < TX_MIN_OUTPUT_AMOUNT)) ||
    tx.inputs.any fun input =>
      decide (input.sequence.toNat < 2 ^ 32 - 2) ||
        (decide (input.sequence.toNat < 2 ^ 32 - 1) &&
          decide (tx.lockTime.toNat < TX_MAX_LOCK_HEIGHT) &&
          decide
            ((blockHeight + 1) % 2 ^ 32 <
              tx.lockTime.toNat)) ||
        (decide (input.sequence.toNat < 2 ^ 32 - 1) &&
          decide (now < tx.lockTime.toNat))

/- Add the outputs of a transaction to the coins. -/
def addOutputs
    (reads : Reads Hash Address)
    (hash : Hash) :
    Nat → List BRTxOutput → Pass Hash Address →
      Pass Hash Address
  | _, [], pass => pass
  | j, output :: rest, pass =>
      let pass :=
        match reads.keys.outputAddress output with
        | none => pass
        | some address =>
            let pass :=
              { pass with
                usedAddrs := insert address pass.usedAddrs }
            if address ∈ reads.allAddrs then
              { pass with
                utxos :=
                  pass.utxos ++ [⟨hash, UInt32.ofNat j⟩]
                balance := pass.balance + output.amount }
            else pass
      addOutputs reads hash (j + 1) rest pass

/-
  Check the entire UTXO set against the spent outputs, from
  its end; what is left, and the balance.
-/
def prune
    (reads : Reads Hash Address)
    (spentOutputs : Finset (BRUTXO Hash)) :
    List (BRUTXO Hash) → UInt64 →
      List (BRUTXO Hash) × UInt64
  | [], balance => ([], balance)
  | utxo :: rest, balance =>
      let (rest, balance) :=
        prune reads spentOutputs rest balance
      if utxo ∈ spentOutputs then
        (rest, balance - reads.amount utxo)
      else (utxo :: rest, balance)

/- One round of the loop of `_BRWalletUpdateBalance`. -/
def passTx
    (reads : Reads Hash Address)
    (pass : Pass Hash Address)
    (tx : BRTransaction Hash) : Pass Hash Address :=
  -- check if any inputs are invalid or already spent
  let isInvalid :=
    decide (tx.blockHeight = TX_UNCONFIRMED) &&
      tx.inputs.any fun input =>
        decide (input.utxo ∈ pass.spentOutputs) ||
          decide (input.txHash ∈ pass.invalidTx)
  if isInvalid then
    { pass with
      invalidTx := insert tx.txHash pass.invalidTx
      balanceHist := pass.balanceHist ++ [pass.balance] }
  else
    -- add inputs to spent output set
    let pass :=
      { pass with
        spentOutputs :=
          pass.spentOutputs ∪
            (tx.inputs.map BRTxInput.utxo).toFinset }
    -- check if tx is pending
    let isPending :=
      decide (tx.blockHeight = TX_UNCONFIRMED) &&
        (selfPending reads.blockHeight reads.now tx ||
          tx.inputs.any fun input =>
            decide (input.txHash ∈ pass.pendingTx))
    if isPending then
      { pass with
        pendingTx := insert tx.txHash pass.pendingTx
        balanceHist := pass.balanceHist ++ [pass.balance] }
    else
      let pass :=
        addOutputs reads tx.txHash 0 tx.outputs pass
      let (utxos, balance) :=
        prune reads pass.spentOutputs pass.utxos
          pass.balance
      { pass with
        utxos := utxos
        balance := balance
        totalReceived :=
          if pass.prevBalance < balance then
            pass.totalReceived + (balance - pass.prevBalance)
          else pass.totalReceived
        totalSent :=
          if balance < pass.prevBalance then
            pass.totalSent + (pass.prevBalance - balance)
          else pass.totalSent
        balanceHist := pass.balanceHist ++ [balance]
        prevBalance := balance }

/- The loop over the transactions in order. -/
def passAll
    (reads : Reads Hash Address)
    (txs : List (BRTransaction Hash)) :
    Pass Hash Address :=
  txs.foldl (passTx reads) Pass.start

/- What the loop reads in a wallet at a given time. -/
def reads
    (keys : WalletKeys Address)
    (wallet : BRWallet Hash Address)
    (now : Nat) : Reads Hash Address where
  keys := keys
  allAddrs := wallet.allAddrs
  allTx := wallet.allTx
  blockHeight := wallet.blockHeight
  now := now

/- The transactions that the wallet's list points to. -/
def listed
    (wallet : BRWallet Hash Address) :
    Option (List (BRTransaction Hash)) :=
  wallet.transactions.mapM wallet.allTx.get

/- Store the results of the loop in the wallet. -/
def setPass
    (wallet : BRWallet Hash Address)
    (pass : Pass Hash Address) : BRWallet Hash Address :=
  { wallet with
    balance := pass.balance
    totalSent := pass.totalSent
    totalReceived := pass.totalReceived
    balanceHist := pass.balanceHist
    utxos := pass.utxos
    invalidTx := pass.invalidTx
    pendingTx := pass.pendingTx
    spentOutputs := pass.spentOutputs
    usedAddrs := pass.usedAddrs }

/- `_BRWalletUpdateBalance` -/
def updateBalance
    (keys : WalletKeys Address)
    (wallet : BRWallet Hash Address)
    (now : Nat) : Option (BRWallet Hash Address) := do
  let txs ← wallet.listed
  some (wallet.setPass (passAll (wallet.reads keys now) txs))

------------------------------------------------------------
-- Addresses
------------------------------------------------------------

/-
  The generating loop of `BRWalletUnusedAddrs`: the index of
  the first unused address and the extended chain.
-/
def generateAddrs
    (derive : Nat → Option Address)
    (usedAddrs : Finset Address)
    (gapLimit : Nat) :
    Nat → Nat → List Address → Option (Nat × List Address)
  | 0, _, _ => none
  | rounds + 1, i, addrChain =>
      if addrChain.length < i + gapLimit then
        match derive addrChain.length with
        | none => some (i, addrChain)
        | some address =>
            let addrChain := addrChain ++ [address]
            generateAddrs derive usedAddrs gapLimit rounds
              (if address ∈ usedAddrs then addrChain.length
                else i)
              addrChain
      else some (i, addrChain)

/- The number of addresses up to the last used one. -/
def usedLength
    (usedAddrs : Finset Address)
    (addrChain : List Address) : Nat :=
  (addrChain.reverse.dropWhile fun address =>
    decide (address ∉ usedAddrs)).length

/- Store an extended chain and its addresses. -/
def setChain
    (keys : WalletKeys Address)
    (wallet : BRWallet Hash Address)
    (internal : Bool)
    (startCount : Nat)
    (addrChain : List Address) : BRWallet Hash Address :=
  let added := addrChain.drop startCount
  let moved := keys.moved internal startCount addrChain.length
  let wallet :=
    if internal then
      { wallet with internalChain := addrChain }
    else { wallet with externalChain := addrChain }
  -- was addrChain moved to a new memory location?
  if !moved then
    { wallet with
      allAddrs := wallet.allAddrs ∪ added.toFinset }
  else
    -- clear and rebuild allAddrs
    { wallet with
      allAddrs :=
        wallet.internalChain.toFinset ∪
          wallet.externalChain.toFinset }

/-
  `BRWalletUnusedAddrs` with the addresses that it writes.  A
  used address extends the search by the gap limit at most,
  which bounds the number of rounds.
-/
def unusedAddrs
    (keys : WalletKeys Address)
    (wallet : BRWallet Hash Address)
    (gapLimit : Nat)
    (internal : Bool) :
    Option (List Address × BRWallet Hash Address) := do
  let addrChain :=
    if internal then wallet.internalChain
    else wallet.externalChain
  let startCount := addrChain.length
  let (i, addrChain) ←
    generateAddrs (keys.derive internal) wallet.usedAddrs
      gapLimit
      ((wallet.usedAddrs.card + 1) * gapLimit + 1)
      (usedLength wallet.usedAddrs addrChain) addrChain
  let addrs :=
    if i + gapLimit ≤ addrChain.length then
      (addrChain.drop i).take gapLimit
    else []
  some
    (addrs, wallet.setChain keys internal startCount addrChain)

/- Generate addresses up to the gap limits of both chains. -/
def fillChains
    (keys : WalletKeys Address)
    (wallet : BRWallet Hash Address) :
    Option (BRWallet Hash Address) := do
  let (_, wallet) ←
    wallet.unusedAddrs keys SEQUENCE_GAP_LIMIT_EXTERNAL false
  let (_, wallet) ←
    wallet.unusedAddrs keys SEQUENCE_GAP_LIMIT_INTERNAL true
  some wallet

------------------------------------------------------------
-- Calls
------------------------------------------------------------

/- The wallet before any transaction is added. -/
def blank (feePerKb : UInt64) : BRWallet Hash Address where
  balance := 0
  totalSent := 0
  totalReceived := 0
  feePerKb := feePerKb
  balanceHist := []
  blockHeight := 0
  utxos := []
  transactions := []
  internalChain := []
  externalChain := []
  allTx := KeyedSet.empty
  invalidTx := ∅
  pendingTx := ∅
  spentOutputs := ∅
  usedAddrs := ∅
  allAddrs := ∅

/- Add one of the transactions that `BRWalletNew` is given. -/
def addInitial
    (keys : WalletKeys Address)
    (wallet : BRWallet Hash Address)
    (tx : BRTransaction Hash) :
    Option (BRWallet Hash Address) :=
  if !tx.isSigned || (wallet.allTx.get tx.txHash).isSome then
    some wallet
  else do
    let wallet ←
      { wallet with allTx := wallet.allTx.add tx }.insertTx
        keys tx
    some
      { wallet with
        usedAddrs :=
          wallet.usedAddrs ∪
            (tx.outputs.filterMap
              keys.outputAddress).toFinset }

/- `BRWalletNew`, with `none` for a result of `NULL` -/
def new
    (keys : WalletKeys Address)
    (transactions : List (BRTransaction Hash))
    (now : Nat) : Option (BRWallet Hash Address) := do
  let wallet ←
    transactions.foldlM (addInitial keys)
      (blank (UInt64.ofNat (TX_FEE_PER_KB * 10)))
  let wallet ← wallet.fillChains keys
  let wallet ← wallet.updateBalance keys now
  match transactions with
  | [] => some wallet
  | first :: _ =>
      if wallet.containsTx keys first then some wallet
      else none

/- `BRWalletRegisterTransaction` -/
def registerTransaction
    (keys : WalletKeys Address)
    (wallet : BRWallet Hash Address)
    (tx : BRTransaction Hash)
    (now : Nat) : Option (BRWallet Hash Address) :=
  if !tx.isSigned then some wallet
  else if (wallet.allTx.get tx.txHash).isSome then
    some wallet
  else if wallet.containsTx keys tx then do
    let wallet ←
      { wallet with allTx := wallet.allTx.add tx }.insertTx
        keys tx
    let wallet ← wallet.updateBalance keys now
    wallet.fillChains keys
  else if tx.blockHeight = TX_UNCONFIRMED then
    some { wallet with allTx := wallet.allTx.add tx }
  else some wallet

/-
  The transactions that the search of `BRWalletRemoveTransaction`
  finds, from the end of the list, over the list backwards.
-/
def dependents
    (wallet : BRWallet Hash Address)
    (tx : BRTransaction Hash) :
    List Hash → Option (List Hash)
  | [] => some []
  | hash :: before => do
      let t ← wallet.allTx.get hash
      if t.blockHeight < tx.blockHeight then some []
      else
        let rest ← dependents wallet tx before
        if t.txHash ≠ tx.txHash ∧
            (t.inputs.any fun input =>
              input.txHash = tx.txHash) then
          some (t.txHash :: rest)
        else some rest

/- Drop the last entry of a list that equals a hash. -/
def eraseLast
    (transactions : List Hash)
    (hash : Hash) : List Hash :=
  (transactions.reverse.erase hash).reverse

/-
  `BRWalletRemoveTransaction`, with a bound on its recursion.
  The notifications at its end change nothing.
-/
def removeR
    (keys : WalletKeys Address)
    (now : Nat) :
    Nat → BRWallet Hash Address → Hash →
      Option (BRWallet Hash Address)
  | 0, _, _ => none
  | bound + 1, wallet, txHash =>
      match wallet.allTx.get txHash with
      | none => some wallet
      | some tx => do
          let hashes ←
            wallet.dependents tx wallet.transactions.reverse
          if hashes = [] then
            updateBalance keys
              { wallet with
                transactions :=
                  eraseLast wallet.transactions txHash }
              now
          else
            let wallet ←
              hashes.reverse.foldlM
                (removeR keys now bound) wallet
            removeR keys now bound wallet txHash

/- `BRWalletRemoveTransaction` -/
def removeTransaction
    (keys : WalletKeys Address)
    (wallet : BRWallet Hash Address)
    (txHash : Hash)
    (now : Nat) : Option (BRWallet Hash Address) :=
  removeR keys now (wallet.transactions.length + 2) wallet
    txHash

/- One round of the loop of `BRWalletUpdateTransactions`. -/
def updateTx
    (keys : WalletKeys Address)
    (blockHeight timestamp : Nat)
    (state : BRWallet Hash Address × Bool)
    (txHash : Hash) :
    Option (BRWallet Hash Address × Bool) :=
  let (wallet, needsUpdate) := state
  match wallet.allTx.get txHash with
  | none => some state
  | some tx =>
      if tx.blockHeight = blockHeight ∧
          tx.timestamp = timestamp then some state
      else do
        let tx :=
          { tx with
            timestamp := timestamp
            blockHeight := blockHeight }
        let wallet :=
          { wallet with allTx := wallet.allTx.add tx }
        if wallet.containsTx keys tx then
          -- remove and re-insert tx to keep wallet sorted
          let wallet ←
            if tx.txHash ∈ wallet.transactions then
              insertTx keys
                { wallet with
                  transactions :=
                    eraseLast wallet.transactions tx.txHash }
                tx
            else some wallet
          some (wallet,
            needsUpdate ||
              decide (tx.txHash ∈ wallet.pendingTx) ||
              decide (tx.txHash ∈ wallet.invalidTx))
        else if blockHeight ≠ TX_UNCONFIRMED then
          -- remove and free confirmed non-wallet tx
          some
            ({ wallet with
                allTx := wallet.allTx.remove tx.txHash },
              needsUpdate)
        else some (wallet, needsUpdate)

/- `BRWalletUpdateTransactions` -/
def updateTransactions
    (keys : WalletKeys Address)
    (wallet : BRWallet Hash Address)
    (txHashes : List Hash)
    (blockHeight timestamp : Nat)
    (now : Nat) : Option (BRWallet Hash Address) := do
  let wallet :=
    { wallet with
      blockHeight := max wallet.blockHeight blockHeight }
  let (wallet, needsUpdate) ←
    txHashes.foldlM (updateTx keys blockHeight timestamp)
      (wallet, false)
  if needsUpdate then wallet.updateBalance keys now
  else some wallet

/- The transactions at the end of the list above a height. -/
def suffixAbove
    (wallet : BRWallet Hash Address)
    (blockHeight : Nat) :
    List Hash → Option (List Hash)
  | [] => some []
  | hash :: before => do
      let tx ← wallet.allTx.get hash
      if blockHeight < tx.blockHeight then
        let rest ← suffixAbove wallet blockHeight before
        some (hash :: rest)
      else some []

/- Mark a transaction of the wallet as unconfirmed. -/
def setUnconfirmed
    (allTx : TxSet Hash)
    (hash : Hash) : TxSet Hash :=
  match allTx.get hash with
  | some tx =>
      allTx.add { tx with blockHeight := TX_UNCONFIRMED }
  | none => allTx

/- `BRWalletSetTxUnconfirmedAfter` -/
def setTxUnconfirmedAfter
    (keys : WalletKeys Address)
    (wallet : BRWallet Hash Address)
    (blockHeight : Nat)
    (now : Nat) : Option (BRWallet Hash Address) := do
  let wallet := { wallet with blockHeight := blockHeight }
  let hashes ←
    wallet.suffixAbove blockHeight
      wallet.transactions.reverse
  let wallet :=
    { wallet with
      allTx := hashes.foldl setUnconfirmed wallet.allTx }
  if hashes = [] then some wallet
  else wallet.updateBalance keys now

------------------------------------------------------------
-- Sequences of Calls
------------------------------------------------------------

/- One call that changes a wallet, at a time of the clock. -/
inductive Action (Hash : Type) where
  | register (tx : BRTransaction Hash) (now : Nat)
  | remove (txHash : Hash) (now : Nat)
  | update
      (txHashes : List Hash)
      (blockHeight timestamp : Nat)
      (now : Nat)
  | setUnconfirmedAfter (blockHeight : Nat) (now : Nat)
  | unusedAddrs (gapLimit : Nat) (internal : Bool)

/- Run one call. -/
def step
    (keys : WalletKeys Address)
    (wallet : BRWallet Hash Address) :
    Action Hash → Option (BRWallet Hash Address)
  | .register tx now =>
      wallet.registerTransaction keys tx now
  | .remove txHash now =>
      wallet.removeTransaction keys txHash now
  | .update txHashes blockHeight timestamp now =>
      wallet.updateTransactions keys txHashes blockHeight
        timestamp now
  | .setUnconfirmedAfter blockHeight now =>
      wallet.setTxUnconfirmedAfter keys blockHeight now
  | .unusedAddrs gapLimit internal =>
      (wallet.unusedAddrs keys gapLimit internal).map Prod.snd

end BRWallet

end PlusWallet
