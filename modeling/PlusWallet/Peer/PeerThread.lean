import PlusWallet.Peer.BRPeer

/-
  `BRPeerSendMessage`, and how `_peerThreadRoutine` of
  `BRPeer.c` takes messages from its socket.

  What `read` and `send` do is given from outside, and so is
  `_BRPeerAcceptMessage`.  Time-outs and the answer to a ping
  that waits for the memory pool are left out.

  Main declarations:
    * `sendBuf`, `sendLoop`, `sendMessage`
    * `PeerThread`, `findMagic`, `onRead`
    * `Arrival`, `receive`
-/

namespace PlusWallet

open Bytes

namespace PeerThread

def HEADER_LENGTH : Nat := 24

------------------------------------------------------------
-- Sending
------------------------------------------------------------

/- What `send` returns. -/
inductive SendResult where
  | sent (n : Nat)
  | wouldBlock
  | failed
deriving DecidableEq

/- How the loop of `BRPeerSendMessage` ends. -/
inductive SendEnd where
  | sent
  | waiting
  | disconnected
deriving DecidableEq

/- `strncpy` of a string without zeros -/
def strncpy (type : List UInt8) (n : Nat) : List UInt8 :=
  type.take n ++ List.replicate (n - type.length) 0

/- `buf` of `BRPeerSendMessage` -/
def sendBuf
    (sha256_2 : List UInt8 → UInt256)
    (magicNumber : UInt32)
    (msg type : List UInt8) : List UInt8 :=
  littleEndian 4 magicNumber.toNat ++ strncpy type 12 ++
    littleEndian 4 (UInt32.ofNat msg.length).toNat ++
    (sha256_2 msg).toList.take 4 ++ msg

/-
  The loop that sends, and how it stands after some results;
  `send` takes no more than is left.
-/
def sendLoop :
    List UInt8 → List SendResult → List UInt8 × SendEnd
  | [], _ => ([], .sent)
  | _ :: _, [] => ([], .waiting)
  | byte :: left, .wouldBlock :: results =>
      sendLoop (byte :: left) results
  | _ :: _, .failed :: _ => ([], .disconnected)
  | byte :: left, .sent n :: results =>
      let (bytes, done) :=
        sendLoop ((byte :: left).drop n) results
      ((byte :: left).take n ++ bytes, done)

/- `BRPeerSendMessage`; too long a message is not sent. -/
def sendMessage
    (sha256_2 : List UInt8 → UInt256)
    (magicNumber : UInt32)
    (msg type : List UInt8)
    (results : List SendResult) : List UInt8 × SendEnd :=
  if MAX_MSG_LENGTH < msg.length then ([], .sent)
  else sendLoop (sendBuf sha256_2 magicNumber msg type) results

------------------------------------------------------------
-- Receiving
------------------------------------------------------------

/- `error` of the thread -/
inductive Errno where
  | connReset
  | proto
  | other (code : Nat)
deriving DecidableEq

/- What `read` returns. -/
inductive ReadResult where
  | bytes (chunk : List UInt8)
  | closed
  | wouldBlock
  | failed (code : Nat)
deriving DecidableEq

/- A message that is passed on, and the checksum it had -/
structure Delivery where
  type : List UInt8
  payload : List UInt8
  checksum : UInt32
deriving DecidableEq

/- Which of its two loops reads, and what it has read. -/
inductive Phase where
  | header (header : List UInt8)
  | payload (header payload : List UInt8)
deriving DecidableEq

end PeerThread

/-
  The thread between two reads.  `peer` is what the handlers of
  messages see, and `passed` are the messages so far.
-/
structure PeerThread (P : Type) where
  peer : P
  phase : PeerThread.Phase
  payloadLen : Nat
  error : Option PeerThread.Errno
  passed : List PeerThread.Delivery

/- What the thread knows of its peer. -/
structure PeerThread.Env (P : Type) where
  sha256_2 : List UInt8 → UInt256
  magicNumber : UInt32
  isOpen : P → Bool
  acceptMessage : P → List UInt8 → List UInt8 → P × Bool

namespace PeerThread

section Receiving

variable {P : Type} (env : Env P)

/- A number of four bytes in a header -/
def headerNumber (header : List UInt8) (off : Nat) : UInt32 :=
  UInt32.ofNat (ofLittleEndian ((header.drop off).take 4))

def headerType (header : List UInt8) : List UInt8 :=
  ((header.drop 4).take 12).takeWhile (· ≠ 0)

def msgLen (header : List UInt8) : Nat :=
  (headerNumber header 16).toNat

/- Consume one byte at a time until the magic number is there. -/
def findMagic (magicNumber : UInt32) :
    List UInt8 → List UInt8
  | [] => []
  | byte :: rest =>
      if 4 ≤ (byte :: rest).length ∧
          headerNumber (byte :: rest) 0 ≠ magicNumber then
        findMagic magicNumber rest
      else byte :: rest

/- How many bytes the next `read` asks for. -/
def request (thread : PeerThread P) : Nat :=
  match thread.phase with
  | .header header => HEADER_LENGTH - header.length
  | .payload header payload => msgLen header - payload.length

/- The payload is there: check it and pass the message on. -/
def payloadDone
    (thread : PeerThread P)
    (header payload : List UInt8) : PeerThread P :=
  let checksum := headerNumber header 20
  let hash := env.sha256_2 payload
  if headerNumber hash.toList 0 ≠ checksum then
    { thread with
      phase := .header []
      error := some .proto }
  else
    let (peer, isAccepted) :=
      env.acceptMessage thread.peer (headerType header) payload
    { thread with
      peer
      phase := .header []
      error := if isAccepted then none else some .proto
      passed :=
        thread.passed ++
          [⟨headerType header, payload, checksum⟩] }

/- The header is there: check it and make room for the payload. -/
def headerDone
    (thread : PeerThread P)
    (header : List UInt8) : PeerThread P :=
  if header.getD 15 0 ≠ 0 then
    -- the type is not terminated
    { thread with
      phase := .header []
      error := some .proto }
  else if MAX_MSG_LENGTH < msgLen header then
    { thread with
      phase := .header []
      error := some .proto }
  else
    let thread :=
      { thread with
        phase := .payload header []
        payloadLen := max thread.payloadLen (msgLen header) }
    if msgLen header = 0 then payloadDone env thread header []
    else thread

/- What a result of `read` does. -/
def onRead
    (thread : PeerThread P) : ReadResult → PeerThread P
  | .bytes chunk =>
      match thread.phase with
      | .header header =>
          let header :=
            findMagic env.magicNumber (header ++ chunk)
          if header.length < HEADER_LENGTH then
            { thread with phase := .header header }
          else headerDone env thread header
      | .payload header payload =>
          let payload := payload ++ chunk
          if payload.length < msgLen header then
            { thread with phase := .payload header payload }
          else payloadDone env thread header payload
  | .closed => { thread with error := some .connReset }
  | .wouldBlock => thread
  | .failed code =>
      { thread with error := some (.other code) }

/- Whether the loops go on. -/
def isRunning (thread : PeerThread P) : Bool :=
  env.isOpen thread.peer && thread.error.isNone

------------------------------------------------------------
-- Streams
------------------------------------------------------------

/-
  How a part of the stream comes in: so many bytes after the
  first one, or nothing yet.
-/
inductive Arrival where
  | bytes (more : Nat)
  | wouldBlock
deriving DecidableEq

/- One read of what is left of a stream -/
def arrive
    (thread : PeerThread P)
    (stream : List UInt8) :
    Arrival → PeerThread P × List UInt8
  | .wouldBlock => (onRead env thread .wouldBlock, stream)
  | .bytes more =>
      let n := min (more + 1) (request thread)
      if stream = [] then
        (onRead env thread .wouldBlock, stream)
      else
        (onRead env thread (.bytes (stream.take n)),
          stream.drop n)

/- Reads until the loops end, or until nothing more happens -/
def receive :
    PeerThread P → List UInt8 → List Arrival →
      PeerThread P × List UInt8
  | thread, stream, [] => (thread, stream)
  | thread, stream, arrival :: arrivals =>
      if isRunning env thread then
        let (thread, stream) := arrive env thread stream arrival
        receive thread stream arrivals
      else (thread, stream)

/- The thread when its socket has been opened -/
def start (peer : P) : PeerThread P where
  peer := peer
  phase := .header []
  payloadLen := 0x1000
  error := none
  passed := []

end Receiving

end PeerThread

end PlusWallet
