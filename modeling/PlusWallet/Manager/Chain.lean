import PlusWallet.Library.KeyedSet
import PlusWallet.MerkleBlock.Retarget
import PlusWallet.Peer.Headers

/-
  How `BRPeerManager.c` keeps the block chain.

  Blocks are in memory at addresses that are not used again,
  and the addresses of those that are freed are kept.  What
  the calls here do to the wallet and to peers, and what they
  pass to callbacks, are results of theirs.  Time limits, the
  false positive rate of the filter and log lines are left
  out, apart from what they read.

  A result of `none` stands for a run of the C code that reads
  through a pointer that is `NULL` or freed, fails an
  assertion, or does not end.

  Main declarations:
    * `BRChainParams`, `BlockChain`
    * `verifyBlock`
    * `placeOrphan`, `extendChain`, `replaceBlock`
    * `placeFork`
    * `peerRelayedBlock`
    * `chainRequest`, `new`, `rescan`
-/

namespace PlusWallet

/- `BRCheckPoint`, with the hash that a block of it has -/
structure BRCheckPoint (Hash : Type) where
  height : Nat
  hash : Hash
  timestamp : UInt32
  target : UInt32

/-
  `BRChainParams`; the difficulty is verified with what is
  found in a set of blocks.
-/
structure BRChainParams (Hash : Type) where
  checkpoints : List (BRCheckPoint Hash)
  verifyDifficulty :
    BRMerkleBlock Hash →
      (Hash → Option (BRMerkleBlock Hash)) → Bool

/- A block in memory. -/
structure BlockPtr (Hash : Type) where
  address : Nat
  block : BRMerkleBlock Hash
deriving DecidableEq

/- Blocks by their hash. -/
abbrev BlockSet (Hash : Type) :=
  KeyedSet fun ptr : BlockPtr Hash => ptr.block.blockHash

/- Blocks by the hash of the block before. -/
abbrev OrphanSet (Hash : Type) :=
  KeyedSet fun ptr : BlockPtr Hash => ptr.block.prevBlock

/- Checkpoints by their height. -/
abbrev CheckpointSet (Hash : Type) :=
  KeyedSet fun block : BRMerkleBlock Hash => block.height

/- The fields of `BRPeerManagerStruct` about the chain. -/
structure BlockChain (Hash : Type) where
  earliestKeyTime : UInt32
  hasFilter : Bool
  blocks : BlockSet Hash
  orphans : OrphanSet Hash
  checkpoints : CheckpointSet Hash
  lastBlock : BlockPtr Hash
  lastOrphan : Option (BlockPtr Hash)
  estimatedHeight : Nat
  nextAddress : Nat
  freed : List Nat

/- What is called while a block is taken. -/
inductive ChainCall (Hash : Type) where
  | updateTransactions
      (txHashes : List Hash)
      (blockHeight : Nat)
      (timestamp : UInt32)
  | setTxUnconfirmedAfter (blockHeight : Nat)
  | loadMempools
  | misbehavin
  | sendGetblocks (locators : List Hash)
  | saveBlocks (replace : Bool) (blocks : List (BlockPtr Hash))
  | txStatusUpdate

/- What comes with a block: its peer and the time. -/
structure Relay where
  isDownloadPeer : Bool
  lastBlock : Nat
  now : Nat

/-
  A block that has found its place, or `none` once it is
  freed, and how many blocks are to be saved.
-/
structure Placed (Hash : Type) where
  chain : BlockChain Hash
  calls : List (ChainCall Hash)
  block : Option (BlockPtr Hash)
  saveCount : Nat

namespace BlockChain

variable {Hash : Type}

------------------------------------------------------------
-- Memory
------------------------------------------------------------

/- Read a block through a pointer. -/
def read
    (chain : BlockChain Hash)
    (ptr : BlockPtr Hash) : Option (BRMerkleBlock Hash) :=
  if ptr.address ∈ chain.freed then none else some ptr.block

/- `BRMerkleBlockFree` -/
def free
    (chain : BlockChain Hash)
    (ptr : BlockPtr Hash) : BlockChain Hash :=
  { chain with freed := ptr.address :: chain.freed }

/- A block that is freed at once. -/
def ignore
    (chain : BlockChain Hash)
    (block : BlockPtr Hash)
    (calls : List (ChainCall Hash)) : Placed Hash where
  chain := chain.free block
  calls := calls
  block := none
  saveCount := 0

/- The next address for a block. -/
def allocate
    (chain : BlockChain Hash)
    (block : BRMerkleBlock Hash) :
    BlockChain Hash × BlockPtr Hash :=
  ({ chain with nextAddress := chain.nextAddress + 1 },
    { address := chain.nextAddress
      block := block })

variable [DecidableEq Hash]

/- The block before, as a set has it. -/
def previous
    (blocks : BlockSet Hash)
    (ptr : BlockPtr Hash) : Option (BlockPtr Hash) :=
  blocks.get ptr.block.prevBlock

/- A walk over a number of blocks to the one it ends at. -/
def ancestor
    (blocks : BlockSet Hash) :
    Nat → BlockPtr Hash → Option (BlockPtr Hash)
  | 0, b => some b
  | steps + 1, b =>
      (previous blocks b).bind (ancestor blocks steps)

/- What a set of blocks has at a hash. -/
def lookup
    (blocks : BlockSet Hash)
    (hash : Hash) : Option (BRMerkleBlock Hash) :=
  (blocks.get hash).map BlockPtr.block

------------------------------------------------------------
-- Locators
------------------------------------------------------------

/-
  The walk of `_BRPeerManagerBlockLocators`, with a bound on
  its rounds: 10 most recent block hashes, decending, then
  doubling the step back each time
-/
def locatorsFrom
    (blocks : BlockSet Hash) :
    Nat → Nat → Nat → Option (BlockPtr Hash) →
      Option (List Hash)
  | 0, _, _, _ => none
  | _, _, _, none => some []
  | rounds + 1, step, i, some block =>
      if block.block.height = 0 then some []
      else do
        let step := if 10 ≤ i + 1 then step * 2 else step
        let rest ←
          locatorsFrom blocks rounds step (i + 1)
            (ancestor blocks step block)
        some (block.block.blockHash :: rest)

/- `_BRPeerManagerBlockLocators`, with the genesis block last -/
def blockLocators
    (params : BRChainParams Hash)
    (chain : BlockChain Hash) : Option (List Hash) := do
  let _ ← chain.read chain.lastBlock
  let genesis ← params.checkpoints.head?
  let hashes ←
    locatorsFrom chain.blocks (chain.blocks.records.length + 2)
      1 0 (some chain.lastBlock)
  some (hashes ++ [genesis.hash])

------------------------------------------------------------
-- Verification
------------------------------------------------------------

/- The loop that frees up some memory. -/
def freeBefore :
    Nat → BlockChain Hash → Hash → Option (BlockChain Hash)
  | 0, _, _ => none
  | rounds + 1, chain, prevBlock =>
      match chain.blocks.get prevBlock with
      | none => some chain
      | some b =>
          if b.block.height % BLOCK_DIFFICULTY_INTERVAL ≠ 0 then
            freeBefore rounds
              { chain.free b with
                blocks := chain.blocks.remove b.block.blockHash }
              b.block.prevBlock
          else freeBefore rounds chain b.block.prevBlock

/-
  At a difficulty transition, what is behind the previous one
  is freed, if that is there.
-/
def passTransition
    (chain : BlockChain Hash)
    (block : BlockPtr Hash) :
    Option (BlockChain Hash × Bool) :=
  if block.block.height % BLOCK_DIFFICULTY_INTERVAL = 0 then
    match
        ancestor chain.blocks BLOCK_DIFFICULTY_INTERVAL block
        with
    | none =>
        -- missing previous difficulty transition
        some (chain, false)
    | some b =>
        (freeBefore (chain.blocks.records.length + 1) chain
          b.block.prevBlock).map fun chain => (chain, true)
  else some (chain, true)

/- Whether no checkpoint of its height differs from a block. -/
def meetsCheckpoint
    (chain : BlockChain Hash)
    (block : BRMerkleBlock Hash) : Bool :=
  match chain.checkpoints.get block.height with
  | none => true
  | some checkpoint => block.blockHash = checkpoint.blockHash

/- `_BRPeerManagerVerifyBlock`, for a `prev` that is there -/
def verifyBlock
    (params : BRChainParams Hash)
    (chain : BlockChain Hash)
    (block prev : BlockPtr Hash) :
    Option (BlockChain Hash × Bool) :=
  if block.block.prevBlock ≠ prev.block.blockHash ∨
      block.block.height ≠ prev.block.height + 1 then
    some (chain, false)
  else do
    let (chain, isPassed) ← chain.passTransition block
    some
      (chain,
        isPassed &&
          params.verifyDifficulty block.block
            (lookup chain.blocks) &&
          chain.meetsCheckpoint block.block)

------------------------------------------------------------
-- Orphans
------------------------------------------------------------

/- A block whose predecessor is not in the chain. -/
def placeOrphan
    (params : BRChainParams Hash)
    (relay : Relay)
    (chain : BlockChain Hash)
    (block : BlockPtr Hash) : Option (Placed Hash) := do
  let lastBlock ← chain.read chain.lastBlock
  if (block.block.timestamp + WEEK).toNat < relay.now then
    -- ignore orphans older than one week ago
    some (chain.ignore block [])
  else
    -- unless we already did with the previous block, or we're
    -- still syncing
    let isAsked ←
      if relay.lastBlock ≤ lastBlock.height then
        match chain.lastOrphan with
        | none => some true
        | some orphan => do
            let lastOrphan ← chain.read orphan
            some
              (lastOrphan.blockHash ≠ block.block.prevBlock)
      else some false
    let calls ←
      if isAsked then
        (chain.blockLocators params).map fun locators =>
          [ChainCall.sendGetblocks locators]
      else some []
    some
      { chain :=
          { chain with
            orphans := chain.orphans.add block
            lastOrphan := some block }
        calls := calls
        block := some block
        saveCount := 0 }

/- special case, new block mined durring rescan -/
def markOrphan
    (chain : BlockChain Hash)
    (block : BlockPtr Hash) : Placed Hash where
  chain :=
    { chain with
      orphans := chain.orphans.add block
      lastOrphan := some block }
  calls := []
  block := some block
  saveCount := 0

------------------------------------------------------------
-- The Main Chain
------------------------------------------------------------

/- The update of the transactions of a block, if it has any. -/
def updateCall
    (txHashes : List Hash)
    (blockHeight : Nat)
    (timestamp : UInt32) : List (ChainCall Hash) :=
  if txHashes = [] then []
  else [.updateTransactions txHashes blockHeight timestamp]

/- The blocks to save once the chain download is complete. -/
def completeCount (blockHeight : Nat) : Nat :=
  blockHeight % BLOCK_DIFFICULTY_INTERVAL +
    BLOCK_DIFFICULTY_INTERVAL + 1

/- new block extends main chain -/
def extendChain
    (chain : BlockChain Hash)
    (block : BlockPtr Hash)
    (txHashes : List Hash)
    (txTime : UInt32) : Placed Hash :=
  let height := block.block.height
  let isComplete := height = chain.estimatedHeight
  { chain :=
      { chain with
        blocks := chain.blocks.add block
        lastBlock := block }
    calls :=
      updateCall txHashes height txTime ++
        if isComplete then [.loadMempools] else []
    block := some block
    saveCount :=
      if isComplete then completeCount height
      else if height % BLOCK_DIFFICULTY_INTERVAL = 0 then 1
      else 0 }

/- Walk down to a height, with a bound on the rounds. -/
def walkDown
    (blocks : BlockSet Hash)
    (height : Nat) :
    Nat → Option (BlockPtr Hash) →
      Option (Option (BlockPtr Hash))
  | 0, _ => none
  | _, none => some none
  | rounds + 1, some b =>
      if height < b.block.height then
        walkDown blocks height rounds (previous blocks b)
      else some (some b)

/- The bound on a walk over the blocks of a chain. -/
def rounds (chain : BlockChain Hash) : Nat :=
  chain.blocks.records.length + 2

/-
  Put a block in the place of the one with its hash, which is
  freed.
-/
def exchange
    (chain : BlockChain Hash)
    (block : BlockPtr Hash) : BlockChain Hash :=
  let added :=
    { chain with blocks := chain.blocks.add block }
  match chain.blocks.get block.block.blockHash with
  | none => added
  | some b =>
      if b.address = block.address then added
      else
        let isOrphan :=
          (chain.orphans.get b.block.prevBlock).any fun other =>
            other.address = b.address
        let isLast :=
          chain.lastOrphan.any fun other =>
            other.address = b.address
        { added.free b with
          orphans :=
            if isOrphan then
              chain.orphans.remove b.block.prevBlock
            else chain.orphans
          lastOrphan :=
            if isLast then none else chain.lastOrphan }

/- we already have the block (or at least the header) -/
def replaceBlock
    (chain : BlockChain Hash)
    (block : BlockPtr Hash)
    (txHashes : List Hash)
    (txTime : UInt32) : Option (Placed Hash) := do
  let last ← chain.read chain.lastBlock
  let found ←
    walkDown chain.blocks block.block.height chain.rounds
      (some chain.lastBlock)
  -- is block in main chain?
  let b ← found
  let isMain := b.block.blockHash = block.block.blockHash
  let next :=
    if isMain ∧ block.block.height = last.height then
      { chain with lastBlock := block }
    else chain
  some
    { chain := next.exchange block
      calls :=
        if isMain then
          updateCall txHashes block.block.height txTime
        else []
      block := some block
      saveCount := 0 }

------------------------------------------------------------
-- Forks
------------------------------------------------------------

/- walk back to where the fork joins the main chain -/
def joinPoint
    (blocks : BlockSet Hash) :
    Nat → Option (BlockPtr Hash) → Option (BlockPtr Hash) →
      Option (Option (BlockPtr Hash) × Option (BlockPtr Hash))
  | 0, _, _ => none
  | rounds + 1, some b, some b2 =>
      if b.block.blockHash = b2.block.blockHash then
        some (some b, some b2)
      else
        match previous blocks b with
        | none => joinPoint blocks rounds none (some b2)
        | some b =>
            joinPoint blocks rounds (some b)
              (if b.block.height < b2.block.height then
                previous blocks b2
              else some b2)
  | _, b, b2 => some (b, b2)

/- set transaction heights for new main chain -/
def confirmFork
    (blocks : BlockSet Hash)
    (joinHeight : Nat) :
    Nat → Option (BlockPtr Hash) →
      Option (List (ChainCall Hash))
  | 0, _ => none
  | _, none => some []
  | rounds + 1, some b =>
      if joinHeight < b.block.height then do
        let txHashes ← b.block.matchedHashes
        let before := previous blocks b
        let timestamp :=
          match before with
          | none => b.block.timestamp
          | some other =>
              b.block.timestamp / 2 + other.block.timestamp / 2
        let calls ←
          confirmFork blocks joinHeight rounds before
        some
          (updateCall txHashes b.block.height timestamp ++
            calls)
      else some []

/- The fork of a block is longer than the main chain now. -/
def reorganize
    (chain : BlockChain Hash)
    (block : BlockPtr Hash) : Option (Placed Hash) := do
  let (b, b2) ←
    joinPoint chain.blocks chain.rounds (some block)
      (some chain.lastBlock)
  let join ← b
  -- mark tx after the join point as unconfirmed
  let confirmed ←
    match b2 with
    | none => some []
    | some b2 =>
        confirmFork chain.blocks b2.block.height chain.rounds
          (some block)
  let isComplete := block.block.height = chain.estimatedHeight
  some
    { chain := { chain with lastBlock := block }
      calls :=
        .setTxUnconfirmedAfter join.block.height ::
          confirmed ++ if isComplete then [.loadMempools] else []
      block := some block
      saveCount :=
        if isComplete then completeCount block.block.height
        else 0 }

/- new block is on a fork -/
def placeFork
    (chain : BlockChain Hash)
    (block : BlockPtr Hash) : Option (Placed Hash) := do
  let last ← chain.read chain.lastBlock
  let chain :=
    { chain with blocks := chain.blocks.add block }
  if last.height < block.block.height then
    -- fork is now longer than main chain
    chain.reorganize block
  else
    some
      { chain := chain
        calls := []
        block := some block
        saveCount := 0 }

------------------------------------------------------------
-- Relayed Blocks
------------------------------------------------------------

/-
  A header that is newer than one week before earliestKeyTime
  (it's a header if it has 0 totalTx)
-/
def isLateHeader
    (chain : BlockChain Hash)
    (block : BRMerkleBlock Hash) : Bool :=
  block.totalTx = 0 ∧
    chain.earliestKeyTime + 2 * 60 * 60 <
      block.timestamp + WEEK

/- The height of a block whose predecessor is known. -/
def setHeight
    (block : BlockPtr Hash)
    (prev : Option (BlockPtr Hash)) : BlockPtr Hash :=
  match prev with
  | none => block
  | some prev =>
      { block with block.height := prev.block.height + 1 }

/- A valid block whose predecessor is in the chain. -/
def placeValid
    (params : BRChainParams Hash)
    (relay : Relay)
    (chain : BlockChain Hash)
    (block : BlockPtr Hash)
    (txHashes : List Hash)
    (txTime : UInt32) : Option (Placed Hash) := do
  let last ← chain.read chain.lastBlock
  if block.block.prevBlock = last.blockHash then
    some (chain.extendChain block txHashes txTime)
  else if
      (chain.blocks.get block.block.blockHash).isSome then
    chain.replaceBlock block txHashes txTime
  else if last.height < relay.lastBlock ∧
      last.height + 1 < block.block.height then
    some (chain.markOrphan block)
  else do
    let checkpoint ← params.checkpoints.getLast?
    if block.block.height ≤ checkpoint.height then
      -- fork older than most recent checkpoint
      some (chain.ignore block [])
    else chain.placeFork block

/- The branches of `_peerRelayedBlock`. -/
def place
    (params : BRChainParams Hash)
    (relay : Relay)
    (chain : BlockChain Hash)
    (block : BlockPtr Hash)
    (txHashes : List Hash) : Option (Placed Hash) := do
  let prev := previous chain.blocks block
  let block := setHeight block prev
  -- for the false positive rate of the filter
  let _ ←
    if relay.isDownloadPeer ∧ block.block.totalTx ≠ 0 then
      (chain.read chain.lastBlock).map fun _ => ()
    else some ()
  if chain.isLateHeader block.block then
    some (chain.ignore block [])
  else if chain.hasFilter = false then
    -- ingore potentially incomplete blocks
    let _ ←
      if relay.isDownloadPeer then
        (chain.read chain.lastBlock).map fun _ => ()
      else some ()
    some (chain.ignore block [])
  else
    match prev with
    | none => chain.placeOrphan params relay block
    | some prev => do
        let (chain, isValid) ←
          chain.verifyBlock params block prev
        if isValid then
          chain.placeValid params relay block txHashes
            (block.block.timestamp / 2 +
              prev.block.timestamp / 2)
        else some (chain.ignore block [.misbehavin])

/- The block that is placed, if its height is known. -/
def known
    (placed : Placed Hash) : Option (BlockPtr Hash) :=
  placed.block.filter fun block =>
    block.block.height ≠ BLOCK_UNKNOWN_HEIGHT

/- check if the next block was received as an orphan -/
def takeNext
    (placed : Placed Hash) :
    BlockChain Hash × Option (BlockPtr Hash) :=
  let chain := placed.chain
  match known placed with
  | none => (chain, none)
  | some block =>
      ({ chain with
          estimatedHeight :=
            max chain.estimatedHeight block.block.height
          orphans := chain.orphans.remove block.block.blockHash },
        chain.orphans.get block.block.blockHash)

/- The loop that collects the blocks to be saved. -/
def collectSaved
    (blocks : BlockSet Hash) :
    Nat → Option (BlockPtr Hash) →
      Option (List (BlockPtr Hash))
  | 0, _ => some []
  | _, none => some []
  | count + 1, some b =>
      -- verify all blocks to be saved are in the chain
      if b.block.height = BLOCK_UNKNOWN_HEIGHT then none
      else
        (collectSaved blocks count (previous blocks b)).map
          (b :: ·)

/-
  make sure the set of blocks to be saved starts at a
  difficulty interval
-/
def trimSaved
    (saveBlocks : List (BlockPtr Hash)) :
    Option (List (BlockPtr Hash)) :=
  let i := saveBlocks.length
  let j :=
    match saveBlocks.getLast? with
    | none => 0
    | some b => b.block.height % BLOCK_DIFFICULTY_INTERVAL
  let kept :=
    if 0 < j then
      saveBlocks.take
        (if BLOCK_DIFFICULTY_INTERVAL - j < i then
          i - (BLOCK_DIFFICULTY_INTERVAL - j)
        else 0)
    else saveBlocks
  if kept.getLast?.all fun b =>
      b.block.height % BLOCK_DIFFICULTY_INTERVAL = 0 then
    some kept
  else none

/- What is called behind the lock, for a placed block. -/
def reports
    (placed : Placed Hash)
    (relay : Relay) : Option (List (ChainCall Hash)) := do
  let collected ←
    collectSaved placed.chain.blocks placed.saveCount
      placed.block
  let saved ← trimSaved collected
  let saves :=
    if saved = [] then []
    else [ChainCall.saveBlocks (decide (1 < saved.length)) saved]
  let status :=
    -- notify that transaction confirmations may have changed
    if (known placed).any fun block =>
        relay.lastBlock ≤ block.block.height then
      [ChainCall.txStatusUpdate]
    else []
  some (saves ++ status)

/-
  `_peerRelayedBlock`, with a bound on its recursion over
  orphans
-/
def takeBlock
    (params : BRChainParams Hash)
    (relay : Relay) :
    Nat → BlockChain Hash → BlockPtr Hash →
      Option (BlockChain Hash × List (ChainCall Hash))
  | 0, _, _ => none
  | bound + 1, chain, block => do
      let txHashes ← block.block.matchedHashes
      let placed ← chain.place params relay block txHashes
      let reported ← reports placed relay
      let calls := placed.calls ++ reported
      let (chain, next) := takeNext placed
      match next with
      | none => some (chain, calls)
      | some next => do
          let (chain, more) ←
            takeBlock params relay bound chain next
          some (chain, calls ++ more)

/- `_peerRelayedBlock`, of a block that was just parsed -/
def peerRelayedBlock
    (params : BRChainParams Hash)
    (relay : Relay)
    (chain : BlockChain Hash)
    (block : BRMerkleBlock Hash) :
    Option (BlockChain Hash × List (ChainCall Hash)) :=
  let (chain, ptr) := chain.allocate block
  takeBlock params relay (chain.orphans.records.length + 2)
    chain ptr

------------------------------------------------------------
-- Requests
------------------------------------------------------------

/-
  The request of `_peerConnected` to a download peer that has
  more blocks: just block headers up to a week before
  earliestKeyTime, and then merkleblocks after that
-/
def chainRequest
    (params : BRChainParams Hash)
    (chain : BlockChain Hash) : Option (Request Hash) := do
  let last ← chain.read chain.lastBlock
  let locators ← chain.blockLocators params
  some
    (if chain.earliestKeyTime ≤ last.timestamp + WEEK then
      .getblocks locators
    else .getheaders locators)

------------------------------------------------------------
-- Where a Chain Starts
------------------------------------------------------------

/- The block of a checkpoint. -/
def checkpointBlock
    [Zero Hash]
    (checkpoint : BRCheckPoint Hash) : BRMerkleBlock Hash where
  blockHash := checkpoint.hash
  version := 0
  prevBlock := 0
  merkleRoot := 0
  timestamp := checkpoint.timestamp
  target := checkpoint.target
  nonce := 0
  totalTx := 0
  hashes := []
  hashesCount := 0
  flags := []
  flagsLen := 0
  height := checkpoint.height

/- Whether a block is more than a week older than the keys. -/
def isWeekOlder
    (chain : BlockChain Hash)
    (timestamp : UInt32) : Bool :=
  timestamp + WEEK < chain.earliestKeyTime

/- A step of the loop over the checkpoints, after the first. -/
def addCheckpoint
    [Zero Hash]
    (chain : BlockChain Hash)
    (checkpoint : BRCheckPoint Hash) : BlockChain Hash :=
  let block := checkpointBlock checkpoint
  let (chain, ptr) := chain.allocate block
  { chain with
    checkpoints := chain.checkpoints.add block
    blocks := chain.blocks.add ptr
    lastBlock :=
      if chain.isWeekOlder block.timestamp then ptr
      else chain.lastBlock }

/- The chain with the first checkpoint. -/
def startAt
    [Zero Hash]
    (earliestKeyTime : UInt32)
    (checkpoint : BRCheckPoint Hash) : BlockChain Hash :=
  let block := checkpointBlock checkpoint
  let ptr := { address := 0, block := block }
  { earliestKeyTime := earliestKeyTime
    hasFilter := false
    blocks := KeyedSet.empty.add ptr
    orphans := KeyedSet.empty
    checkpoints := KeyedSet.empty.add block
    lastBlock := ptr
    lastOrphan := none
    estimatedHeight := 0
    nextAddress := 1
    freed := [] }

/-
  The loop over the saved blocks, with the last transition
  block that it finds
-/
def addSaved :
    BlockChain Hash → Option (BlockPtr Hash) →
      List (BRMerkleBlock Hash) →
        Option (BlockChain Hash × Option (BlockPtr Hash))
  | chain, found, [] => some (chain, found)
  | chain, found, block :: blocks =>
      -- height must be saved/restored along with the block
      if block.height = BLOCK_UNKNOWN_HEIGHT then none
      else
        let (chain, ptr) := chain.allocate block
        let isLater :=
          found.all fun other =>
            other.block.height < block.height
        addSaved { chain with orphans := chain.orphans.add ptr }
          (if block.height % BLOCK_DIFFICULTY_INTERVAL = 0 ∧
              isLater then
            some ptr
          else found)
          blocks

/- The loop that links the saved blocks to a chain. -/
def linkSaved :
    Nat → BlockChain Hash → Option (BlockPtr Hash) →
      Option (BlockChain Hash)
  | 0, _, _ => none
  | _, chain, none => some chain
  | rounds + 1, chain, some block =>
      let orphans := chain.orphans.remove block.block.prevBlock
      linkSaved rounds
        { chain with
          blocks := chain.blocks.add block
          lastBlock := block
          orphans := orphans }
        (orphans.get block.block.blockHash)

/- `BRPeerManagerNew` -/
def new
    [Zero Hash]
    (params : BRChainParams Hash)
    (earliestKeyTime : UInt32)
    (blocks : List (BRMerkleBlock Hash)) :
    Option (BlockChain Hash) := do
  match params.checkpoints with
  | [] => none
  | first :: rest => do
      let chain :=
        rest.foldl addCheckpoint
          (startAt earliestKeyTime first)
      let (chain, found) ← chain.addSaved none blocks
      linkSaved (blocks.length + 2) chain found

/- `BRPeerManagerRescan`, of a manager that is connected -/
def rescan
    (params : BRChainParams Hash)
    (chain : BlockChain Hash) : BlockChain Hash :=
  -- start the chain download from the most recent checkpoint
  -- that's at least a week older than earliestKeyTime
  let start :=
    (params.checkpoints.reverse.find? fun checkpoint =>
      chain.isWeekOlder checkpoint.timestamp).or
      params.checkpoints.head?
  match start.bind fun checkpoint =>
      chain.blocks.get checkpoint.hash with
  | none => chain
  | some newLastBlock =>
      { chain with lastBlock := newLastBlock }

end BlockChain

end PlusWallet
