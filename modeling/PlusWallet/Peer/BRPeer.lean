import PlusWallet.Library.Run
import PlusWallet.Library.Faults
import PlusWallet.MerkleBlock.Parse

/-
  How `BRPeer.c` takes the messages of one connection.

  The callbacks that the manager sets are all there.  What is
  sent, timers, and the fields that no function here reads are
  left out.  The set of known hashes holds those of its array.
  A handler that reads outside its message, or outside the
  arrays of a block, ends in a fault.

  Main declarations:
    * `BRPeerContext`, `Call`, `Fault`
    * `acceptInvMessage`, `acceptTxMessage`
    * `acceptMerkleblockMessage`, `acceptHeadersMessage`
    * `acceptMessage`
    * `Event`, `History`, `step`
-/

namespace PlusWallet

open Bytes

def MAX_MSG_LENGTH : Nat := 0x02000000

def MAX_GETDATA_HASHES : Nat := 50000

/- peers earlier than this protocol version not supported -/
def MIN_PROTO_VERSION : UInt32 := 70002

/- `inv_type`, with one value for all other numbers. -/
inductive InvType where
  | undefined
  | tx
  | block
  | filteredBlock
deriving DecidableEq

def InvType.ofUInt32 (type : UInt32) : InvType :=
  if type = 1 then .tx
  else if type = 2 then .block
  else if type = 3 then .filteredBlock
  else .undefined

/- Where a handler reads what is not there. -/
inductive Fault where
  | payload
  | arrays
deriving DecidableEq

/- `BRPeer` -/
structure BRPeer where
  address : List UInt8
  port : Nat
  services : Nat
  timestamp : UInt64
deriving DecidableEq

/- `BRPeerContext`; a callback is there or it is `NULL`. -/
structure BRPeerContext where
  needsFilterUpdate : Bool
  useragent : List UInt8
  version : UInt32
  lastblock : UInt32
  earliestKeyTime : UInt32
  currentBlockHeight : UInt32
  sentGetaddr : Bool
  sentFilter : Bool
  sentGetdata : Bool
  sentMempool : Bool
  sentGetblocks : Bool
  lastBlockHash : UInt256
  currentBlock : Option (BRMerkleBlock UInt256)
  currentBlockTxHashes : List UInt256
  knownBlockHashes : List UInt256
  knownTxHashes : List UInt256
  mempoolCallback : Bool
deriving DecidableEq

/- The callbacks that tell the manager what a peer sent. -/
inductive Call where
  | relayedPeers (peers : List BRPeer)
  | relayedTx (tx : BRTransaction UInt256)
  | hasTx (txHash : UInt256)
  | rejectedTx (txHash : UInt256) (code : UInt8)
  | relayedBlock (block : BRMerkleBlock UInt256)
  | notfound (txHashes blockHashes : List UInt256)
  | requestedTx (txHash : UInt256)
deriving DecidableEq

namespace BRPeerContext

/- `BRPeerNew` -/
def new : BRPeerContext where
  needsFilterUpdate := false
  useragent := []
  version := 0
  lastblock := 0
  earliestKeyTime := 0
  currentBlockHeight := 0
  sentGetaddr := false
  sentFilter := false
  sentGetdata := false
  sentMempool := false
  sentGetblocks := false
  lastBlockHash := 0
  currentBlock := none
  currentBlockTxHashes := []
  knownBlockHashes := []
  knownTxHashes := []
  mempoolCallback := false

------------------------------------------------------------
-- Known Hashes
------------------------------------------------------------

/- `_BRPeerAddKnownTxHashes` -/
def addKnownTxHashes
    (peer : BRPeerContext)
    (txHashes : List UInt256) : BRPeerContext :=
  { peer with
    knownTxHashes :=
      txHashes.foldl
        (fun known txHash =>
          if txHash ∈ known then known else known ++ [txHash])
        peer.knownTxHashes }

/- `BRPeerSendGetdata` -/
def sendGetdata
    (peer : BRPeerContext)
    (txHashes blockHashes : List UInt256) : BRPeerContext :=
  let count := txHashes.length + blockHashes.length
  if 0 < count ∧ count ≤ MAX_GETDATA_HASHES then
    { peer with sentGetdata := true }
  else peer

/-
  The loop that forgets the first third of the block hashes
  while there are too many.  Each round drops one at least.
-/
def trimKnown : Nat → List UInt256 → List UInt256
  | 0, hashes => hashes
  | rounds + 1, hashes =>
      if MAX_GETDATA_HASHES < hashes.length then
        trimKnown rounds (hashes.drop (hashes.length / 3))
      else hashes

------------------------------------------------------------
-- Reads
------------------------------------------------------------

/- What a message makes of a peer, and whether it is accepted. -/
abbrev Accepted := BRPeerContext × List Call × Bool

/- A read of the message. -/
def payload {Value : Type} :
    Option Value → Except Fault Value
  | none => .error .payload
  | some value => .ok value

/- An access to the arrays of a block. -/
def arrays {Value : Type} :
    Option Value → Except Fault Value
  | none => .error .arrays
  | some value => .ok value

/- A count of items and the offset behind it. -/
def itemCount (msg : List UInt8) : Nat × Nat := varInt msg

/- Whether a message is too short for its items. -/
def isMalformed (msg : List UInt8) (size : Nat) : Bool :=
  let (count, off) := itemCount msg
  decide
    (off = 0 ∨ msg.length < addSize off (mulSize count size))

------------------------------------------------------------
-- Versions and Addresses
------------------------------------------------------------

/- `_BRPeerAcceptVersionMessage` -/
def acceptVersionMessage
    (peer : BRPeerContext)
    (msg : List UInt8) : Except Fault Accepted := do
  if msg.length < 85 then .ok (peer, [], false)
  else
    let version ← payload (getUInt32LE msg 0)
    -- services, timestamp, addresses and nonce
    let _ ← payload (slice msg 4 76)
    let peer := { peer with version := version }
    let (strLen, len) := varInt (msg.drop 80)
    let off := addSize 80 len
    if msg.length < addSize (addSize off strLen) 4 then
      .ok (peer, [], false)
    else if version < MIN_PROTO_VERSION then
      .ok (peer, [], false)
    else
      let useragent ← payload (slice msg off strLen)
      let lastblock ←
        payload (getUInt32LE msg (addSize off strLen))
      .ok
        ({ peer with
            useragent := useragent
            lastblock := lastblock },
          [], true)

/- One round of the loop over addresses. -/
def readPeer
    (msg : List UInt8)
    (off : Nat) : Except Fault BRPeer := do
  let timestamp ← payload (getUInt32LE msg off)
  let services ← payload (slice msg (off + 4) 8)
  let address ← payload (slice msg (off + 12) 16)
  let port ← payload (slice msg (off + 28) 2)
  .ok
    { address := address
      port := ofBigEndian port
      services := ofLittleEndian services
      timestamp := timestamp.toUInt64 }

def readPeers
    (msg : List UInt8) :
    Nat → Nat → Except Fault (List BRPeer)
  | 0, _ => .ok []
  | count + 1, off => do
      let peer ← readPeer msg off
      let peers ← readPeers msg count (off + 30)
      .ok (peer :: peers)

/- `_BRPeerIsIPv4` -/
def isIPv4 (peer : BRPeer) : Bool :=
  peer.address.take 12 = List.replicate 10 0 ++ [0xff, 0xff]

/- The time stamp of an address that was relayed. -/
def relayedTime (timestamp now : UInt64) : UInt64 :=
  -- more than 10 min in the future or unknown
  let timestamp :=
    if now + 10 * 60 < timestamp ∨ timestamp = 0 then
      now - 5 * 24 * 60 * 60
    else timestamp
  timestamp - 2 * 60 * 60

/- `_BRPeerAcceptAddrMessage` -/
def acceptAddrMessage
    (peer : BRPeerContext)
    (msg : List UInt8)
    (now : UInt64) : Except Fault Accepted := do
  let (count, off) := itemCount msg
  if isMalformed msg 30 then .ok (peer, [], false)
  else if 1000 < count then .ok (peer, [], true)
  else if peer.sentGetaddr then
    let items ← readPeers msg count off
    let peers :=
      (items.filter fun item =>
        -- skip peers that don't carry full blocks
        item.services.testBit 0 && isIPv4 item).map
          fun item =>
            { item with
              timestamp := relayedTime item.timestamp now }
    .ok
      (peer, if peers = [] then [] else [.relayedPeers peers],
        true)
  else .ok (peer, [], true)

------------------------------------------------------------
-- Messages with Items
------------------------------------------------------------

/- The items of an inventory. -/
def readItems
    (msg : List UInt8) :
    Nat → Nat → Except Fault (List (InvType × UInt256))
  | 0, _ => .ok []
  | count + 1, off => do
      let type ← payload (getUInt32LE msg off)
      let hash ← payload (getUInt256 msg (off + 4))
      let items ← readItems msg count (off + 36)
      .ok ((InvType.ofUInt32 type, hash) :: items)

/- The items of a message that is not dropped for its length. -/
def inventory
    (msg : List UInt8) :
    Except Fault (List (InvType × UInt256)) :=
  let (count, off) := itemCount msg
  readItems msg count off

/- The hashes of the items of a type. -/
def hashesOf
    (type : InvType)
    (items : List (InvType × UInt256)) : List UInt256 :=
  (items.filter fun item => item.1 = type).map Prod.snd

/- The peer and the calls behind an inventory that is taken. -/
def takeInventory
    (peer : BRPeerContext)
    (transactions blocks : List UInt256) :
    BRPeerContext × List Call :=
  let blocks :=
    if peer.sentFilter = false ∧ peer.sentGetblocks = false
      then [] else blocks
  let blocks :=
    if blocks = [peer.lastBlockHash] then [] else blocks
  let lastBlockHash :=
    match blocks with
    | [block] => block
    | _ => peer.lastBlockHash
  let known := peer.knownBlockHashes ++ blocks
  let blockHashes :=
    if peer.needsFilterUpdate then [] else blocks
  let txHashes :=
    transactions.filter fun hash =>
      hash ∉ peer.knownTxHashes
  let next :=
    ({ peer with
        lastBlockHash := lastBlockHash
        knownBlockHashes := trimKnown known.length known
          }.addKnownTxHashes txHashes).sendGetdata
      txHashes blockHashes
  ({ next with
      mempoolCallback :=
        next.mempoolCallback && transactions.isEmpty },
    (transactions.filter fun hash =>
      hash ∈ peer.knownTxHashes).map Call.hasTx)

/- `_BRPeerAcceptInvMessage` -/
def acceptInvMessage
    (peer : BRPeerContext)
    (msg : List UInt8) : Except Fault Accepted := do
  if isMalformed msg 36 then .ok (peer, [], false)
  else if MAX_GETDATA_HASHES < (itemCount msg).1 then
    .ok (peer, [], true)
  else
    let items ← inventory msg
    let transactions := hashesOf .tx items
    let blocks := hashesOf .block items
    if 0 < transactions.length ∧ peer.sentFilter = false ∧
        peer.sentMempool = false ∧
        peer.sentGetblocks = false then
      -- got inv message before loading a filter
      .ok (peer, [], false)
    else if 10000 < transactions.length then
      .ok (peer, [], false)
    else if 0 < peer.currentBlockHeight ∧
        2 < blocks.length ∧ blocks.length < 500 ∧
        peer.currentBlockHeight.toNat +
            peer.knownBlockHashes.length + blocks.length <
          peer.lastblock.toNat then
      -- fewer block hashes than expected
      .ok (peer, [], false)
    else
      let (peer, calls) :=
        peer.takeInventory transactions blocks
      .ok (peer, calls, true)

/- `_BRPeerAcceptGetdataMessage` -/
def acceptGetdataMessage
    (peer : BRPeerContext)
    (msg : List UInt8) : Except Fault Accepted := do
  if isMalformed msg 36 then .ok (peer, [], false)
  else if MAX_GETDATA_HASHES < (itemCount msg).1 then
    .ok (peer, [], true)
  else
    let items ← inventory msg
    .ok
      (peer, (hashesOf .tx items).map Call.requestedTx, true)

/- `_BRPeerAcceptNotfoundMessage` -/
def acceptNotfoundMessage
    (peer : BRPeerContext)
    (msg : List UInt8) : Except Fault Accepted := do
  if isMalformed msg 36 then .ok (peer, [], false)
  else if MAX_GETDATA_HASHES < (itemCount msg).1 then
    .ok (peer, [], true)
  else
    let items ← inventory msg
    let blockItems :=
      items.filter fun item =>
        item.1 = .block ∨ item.1 = .filteredBlock
    .ok
      (peer,
        [.notfound (hashesOf .tx items)
          (blockItems.map Prod.snd)],
        true)

------------------------------------------------------------
-- Transactions and Blocks
------------------------------------------------------------

/- A transaction that comes while a block is collected. -/
def collectTx
    (peer : BRPeerContext)
    (tx : BRTransaction UInt256) :
    BRPeerContext × List Call :=
  match peer.currentBlock with
  | none => (peer, [.relayedTx tx])
  | some block =>
      -- we're collecting tx messages for a merkleblock
      let awaited :=
        (peer.currentBlockTxHashes.reverse.erase
          tx.txHash).reverse
      if awaited = [] then
        -- we received the entire block
        ({ peer with
            currentBlock := none
            currentBlockTxHashes := [] },
          [.relayedTx tx, .relayedBlock block])
      else
        ({ peer with currentBlockTxHashes := awaited },
          [.relayedTx tx])

/- `_BRPeerAcceptTxMessage` -/
def acceptTxMessage
    (sha256_2 : List UInt8 → UInt256)
    (peer : BRPeerContext)
    (msg : List UInt8) : Except Fault Accepted := do
  let parsed ← payload (BRTransaction.parse sha256_2 msg)
  match parsed with
  | none => .ok (peer, [], false)
  | some tx =>
      if peer.sentFilter = false ∧ peer.sentGetdata = false then
        -- got tx message before loading filter
        .ok (peer, [], false)
      else
        let (peer, calls) := peer.collectTx tx
        .ok (peer, calls, true)

/- A block that comes with some matched hashes. -/
def collectBlock
    (peer : BRPeerContext)
    (block : BRMerkleBlock UInt256)
    (hashes : List UInt256) : BRPeerContext × List Call :=
  let awaited :=
    peer.currentBlockTxHashes ++
      hashes.reverse.filter fun hash =>
        hash ∉ peer.knownTxHashes
  if awaited = [] then (peer, [.relayedBlock block])
  else
    -- wait til we get all tx messages
    ({ peer with
        currentBlock := some block
        currentBlockTxHashes := awaited },
      [])

/- `_BRPeerAcceptMerkleblockMessage` -/
def acceptMerkleblockMessage
    (sha256_2 : List UInt8 → UInt256)
    (peer : BRPeerContext)
    (msg : List UInt8)
    (now : UInt64) : Except Fault Accepted := do
  let parsed ← payload (BRMerkleBlock.parse sha256_2 msg)
  match parsed with
  | none => .ok (peer, [], false)
  | some block =>
      let isValid ←
        arrays (block.isValid sha256_2 now.toUInt32)
      if !isValid then .ok (peer, [], false)
      else if peer.sentFilter = false ∧
          peer.sentGetdata = false then
        -- got merkleblock message before loading a filter
        .ok (peer, [], false)
      else
        let hashes ← arrays block.matchedHashes
        let (peer, calls) := peer.collectBlock block hashes
        .ok (peer, calls, true)

------------------------------------------------------------
-- Headers
------------------------------------------------------------

/- The time stamp of a header of a message, 0 behind the last. -/
def headerTime
    (msg : List UInt8)
    (count off index : Nat) : Except Fault UInt32 :=
  if index < count then
    payload
      (getUInt32LE msg
        (addSize (addSize off (mulSize 81 index)) 68))
  else .ok 0

/- A time stamp less than a week before the earliest key. -/
def isRecent
    (peer : BRPeerContext)
    (timestamp : UInt32) : Bool :=
  peer.earliestKeyTime ≤
    timestamp + 7 * 24 * 60 * 60 + BLOCK_MAX_TIME_DRIFT

/- The loop that looks for the first header that is recent. -/
def firstRecent
    (peer : BRPeerContext)
    (msg : List UInt8)
    (count off : Nat) : Nat → Nat → Except Fault Nat
  | 0, last => .ok last
  | rounds + 1, last => do
      let timestamp ← headerTime msg count off (last + 1)
      if 0 < timestamp ∧ peer.isRecent timestamp = false then
        firstRecent peer msg count off rounds (last + 1)
      else .ok (last + 1)

/- A header of a message. -/
def headerAt
    (msg : List UInt8)
    (off index : Nat) : Except Fault (List UInt8) :=
  payload (slice msg (addSize off (mulSize 81 index)) 80)

/- The reads for the locators of the next request. -/
def readLocators
    (peer : BRPeerContext)
    (msg : List UInt8)
    (count off : Nat)
    (timestamp : UInt32) : Except Fault Unit := do
  let _ ← headerAt msg off (count - 1)
  let _ ← headerAt msg off 0
  if 0 < timestamp ∧ peer.isRecent timestamp then
    -- request blocks for the remainder of the chain
    let last ← firstRecent peer msg count off count 0
    let _ ← headerAt msg off (last - 1)
    .ok ()
  else .ok ()

/-
  The loop over the headers of a message, while they are
  valid.  Of the 81 bytes of each the parser reads 80.
-/
def relayHeaders
    (sha256_2 : List UInt8 → UInt256)
    (msg : List UInt8)
    (off : Nat)
    (now : UInt64) :
    Nat → Nat → Except Fault (List Call × Bool)
  | 0, _ => .ok ([], true)
  | rounds + 1, index => do
      let header ← headerAt msg off index
      let parsed ← payload (BRMerkleBlock.parse sha256_2 header)
      let block ← arrays parsed
      let isValid ←
        arrays (block.isValid sha256_2 now.toUInt32)
      if !isValid then .ok ([], false)
      else
        let (calls, isAccepted) ←
          relayHeaders sha256_2 msg off now rounds (index + 1)
        .ok (.relayedBlock block :: calls, isAccepted)

/- `_BRPeerAcceptHeadersMessage` -/
def acceptHeadersMessage
    (sha256_2 : List UInt8 → UInt256)
    (peer : BRPeerContext)
    (msg : List UInt8)
    (now : UInt64) : Except Fault Accepted := do
  let (count, off) := itemCount msg
  if isMalformed msg 81 then .ok (peer, [], false)
  else
    -- of the last header, if there is one
    let timestamp ← headerTime msg count off (count - 1)
    if 2000 ≤ count ∨
        (0 < timestamp ∧ peer.isRecent timestamp) then
      let _ ← peer.readLocators msg count off timestamp
      let (calls, isAccepted) ←
        relayHeaders sha256_2 msg off now count 0
      .ok (peer, calls, isAccepted)
    else
      -- fewer headers than expected
      .ok (peer, [], false)

------------------------------------------------------------
-- Rejects
------------------------------------------------------------

/- `strncpy`: the bytes up to a zero byte, or as many as fit. -/
def readString
    (msg : List UInt8) :
    Nat → Nat → Except Fault (List UInt8)
  | 0, _ => .ok []
  | room + 1, off => do
      let byte ← payload msg[off]?
      if byte = 0 then .ok []
      else
        let bytes ← readString msg room (off + 1)
        .ok (byte :: bytes)

/- `MSG_TX`, the bytes of "tx" -/
def MSG_TX : List UInt8 := [0x74, 0x78]

/- The hash at the end of a reject message. -/
def rejectedHash
    (msg : List UInt8)
    (off hashLen : Nat) : Except Fault UInt256 :=
  if hashLen = 32 then payload (getUInt256 msg off)
  else .ok 0

/- `_BRPeerAcceptRejectMessage` -/
def acceptRejectMessage
    (peer : BRPeerContext)
    (msg : List UInt8) : Except Fault Accepted := do
  let (strLen, off) := varInt msg
  if msg.length < addSize (addSize off strLen) 1 then
    .ok (peer, [], false)
  else
    let type ← readString msg (min strLen 0xfff) off
    let off := addSize off strLen
    let code ← payload msg[off]?
    let off := addSize off 1
    let (strLen, len) := varInt (msg.drop off)
    let off := addSize off len
    let hashLen := if type = MSG_TX then 32 else 0
    if msg.length < addSize (addSize off strLen) hashLen then
      .ok (peer, [], false)
    else
      -- the reason
      let _ ← readString msg (min strLen 0xfff) off
      let off := addSize off strLen
      let txHash ← rejectedHash msg off hashLen
      .ok
        (peer,
          if txHash = 0 then [] else [.rejectedTx txHash code],
          true)

------------------------------------------------------------
-- Dispatch
------------------------------------------------------------

/-
  The types of messages.  `other` is any type whose handler
  changes no field that is read here; whether the handler
  accepts the message is given with it.
-/
inductive MessageType where
  | version
  | addr
  | inv
  | tx
  | headers
  | getdata
  | notfound
  | merkleblock
  | reject
  | other (isAccepted : Bool)
deriving DecidableEq

/- `_BRPeerAcceptMessage` -/
def acceptMessage
    (sha256_2 : List UInt8 → UInt256)
    (peer : BRPeerContext)
    (type : MessageType)
    (msg : List UInt8)
    (now : UInt64) : Except Fault Accepted :=
  if peer.currentBlock.isSome ∧ type ≠ .tx then
    -- incomplete merkleblock
    .ok
      ({ peer with
          currentBlock := none
          currentBlockTxHashes := [] },
        [], false)
  else
    match type with
    | .version => peer.acceptVersionMessage msg
    | .addr => peer.acceptAddrMessage msg now
    | .inv => peer.acceptInvMessage msg
    | .tx => peer.acceptTxMessage sha256_2 msg
    | .headers => peer.acceptHeadersMessage sha256_2 msg now
    | .getdata => peer.acceptGetdataMessage msg
    | .notfound => peer.acceptNotfoundMessage msg
    | .merkleblock =>
        peer.acceptMerkleblockMessage sha256_2 msg now
    | .reject => peer.acceptRejectMessage msg
    | .other isAccepted => .ok (peer, [], isAccepted)

------------------------------------------------------------
-- Calls of the Manager
------------------------------------------------------------

/- `BRPeerSendFilterload` -/
def sendFilterload (peer : BRPeerContext) : BRPeerContext :=
  { peer with
    sentFilter := true
    sentMempool := false }

/- Whether no mempool message was sent before. -/
def canSendMempool (peer : BRPeerContext) : Bool :=
  !peer.sentMempool && !peer.mempoolCallback

/- `BRPeerSendMempool` -/
def sendMempool
    (peer : BRPeerContext)
    (knownTxHashes : List UInt256)
    (completionCallback : Bool) : BRPeerContext :=
  if peer.canSendMempool then
    { peer.addKnownTxHashes knownTxHashes with
      sentMempool := true
      mempoolCallback := completionCallback }
  else { peer with sentMempool := true }

/- `BRPeerSendInv` -/
def sendInv
    (peer : BRPeerContext)
    (txHashes : List UInt256) : BRPeerContext :=
  peer.addKnownTxHashes txHashes

/-
  `BRPeerRerequestBlocks`: the block hashes from the last
  place of a hash on are kept and requested
-/
def rerequestBlocks
    (peer : BRPeerContext)
    (fromBlock : UInt256) : BRPeerContext :=
  let i :=
    peer.knownBlockHashes.length -
      peer.knownBlockHashes.reverse.idxOf fromBlock
  if 0 < i then
    let kept := peer.knownBlockHashes.drop (i - 1)
    { peer with knownBlockHashes := kept }.sendGetdata [] kept
  else peer

/-
  What happens to a connection: a message is read, or the
  manager calls a function of the peer, or the wait for the
  response to a mempool message ends.
-/
inductive Event where
  | message
      (type : MessageType)
      (msg : List UInt8)
      (now : UInt64)
  | sendGetaddr
  | sendFilterload
  | sendMempool
      (knownTxHashes : List UInt256)
      (completionCallback : Bool)
  | sendInv (txHashes : List UInt256)
  | sendGetdata (txHashes blockHashes : List UInt256)
  | rerequestBlocks (fromBlock : UInt256)
  | setNeedsFilterUpdate (needsFilterUpdate : Bool)
  | setEarliestKeyTime (earliestKeyTime : UInt32)
  | setCurrentBlockHeight (currentBlockHeight : UInt32)
  | mempoolTimeout

------------------------------------------------------------
-- Histories
------------------------------------------------------------

/-
  What passes between the peer and the manager: a callback, or
  hashes of transactions that the manager has.
-/
inductive Exchange where
  | called (call : Call)
  | registered (txHashes : List UInt256)
deriving DecidableEq

/-
  A connection with all that has passed.  It is closed behind
  a message that was not accepted.
-/
structure History where
  peer : BRPeerContext
  isOpen : Bool
  exchanged : List Exchange
  announced : List UInt256
deriving DecidableEq

/- A new connection. -/
def History.start : History where
  peer := new
  isOpen := true
  exchanged := []
  announced := []

/- The transactions that the items of a message announce. -/
def announcedBy
    (type : MessageType)
    (msg : List UInt8) : List UInt256 :=
  if type = .inv then
    match inventory msg with
    | .ok items => hashesOf .tx items
    | .error _ => []
  else []

/- A call of the manager that passes no hashes. -/
def History.update
    (history : History)
    (peer : BRPeerContext) : History :=
  { history with peer := peer }

/- A call of the manager that makes hashes known. -/
def History.register
    (history : History)
    (peer : BRPeerContext)
    (txHashes : List UInt256) : History :=
  { history with
    peer := peer
    exchanged := history.exchanged ++ [.registered txHashes] }

/- One event on an open connection. -/
def step
    (sha256_2 : List UInt8 → UInt256)
    (history : History) :
    Event → Option History
  | .message type msg now =>
      if history.isOpen then do
        let (peer, calls, isAccepted) ←
          (history.peer.acceptMessage sha256_2 type msg
            now).toOption
        some
          { peer := peer
            isOpen := isAccepted
            exchanged :=
              history.exchanged ++ calls.map Exchange.called
            announced :=
              history.announced ++ announcedBy type msg }
      else none
  | .sendGetaddr =>
      some
        (history.update
          { history.peer with sentGetaddr := true })
  | .sendFilterload =>
      some (history.update history.peer.sendFilterload)
  | .sendMempool knownTxHashes completionCallback =>
      let peer :=
        history.peer.sendMempool knownTxHashes
          completionCallback
      if history.peer.canSendMempool then
        some (history.register peer knownTxHashes)
      else some (history.update peer)
  | .sendInv txHashes =>
      some
        (history.register (history.peer.sendInv txHashes)
          txHashes)
  | .sendGetdata txHashes blockHashes =>
      some
        (history.update
          (history.peer.sendGetdata txHashes blockHashes))
  | .rerequestBlocks fromBlock =>
      some
        (history.update
          (history.peer.rerequestBlocks fromBlock))
  | .setNeedsFilterUpdate needsFilterUpdate =>
      some
        (history.update
          { history.peer with
            needsFilterUpdate := needsFilterUpdate })
  | .setEarliestKeyTime earliestKeyTime =>
      some
        (history.update
          { history.peer with
            earliestKeyTime := earliestKeyTime })
  | .setCurrentBlockHeight currentBlockHeight =>
      some
        (history.update
          { history.peer with
            currentBlockHeight := currentBlockHeight })
  | .mempoolTimeout =>
      some
        (history.update
          { history.peer with mempoolCallback := false })

end BRPeerContext

end PlusWallet
