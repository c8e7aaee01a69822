import PlusWallet.Library.Bytes

/-
  How `BRWebSocket.swift` takes the bytes of one client.

  Calls of the client handler are kept in order in the field
  `received`, and what is to be sent is never taken out of
  the queue here.  Where Swift traps (an index outside an
  array, a length outside `Int`) there is no next state.

  Main declarations:
    * `SocketOpcode`, `SocketCloseEventCode`
    * `BRWebSocketImpl`
    * `sendMessage`, `close`, `handlePacket`
    * `parseMessage`, `handleReads`
-/

namespace PlusWallet

open Bytes

inductive SocketState where
  | headerb1
  | headerb2
  | lengthshort
  | lengthlong
  | mask
  | payload
deriving DecidableEq

inductive SocketOpcode where
  | stream
  | text
  | binary
  | close
  | ping
  | pong
deriving DecidableEq

def SocketOpcode.rawValue : SocketOpcode → UInt8
  | .stream => 0x0
  | .text => 0x1
  | .binary => 0x2
  | .close => 0x8
  | .ping => 0x9
  | .pong => 0xA

def SocketOpcode.ofRawValue
    (rawValue : UInt8) : Option SocketOpcode :=
  if rawValue = 0x0 then some .stream
  else if rawValue = 0x1 then some .text
  else if rawValue = 0x2 then some .binary
  else if rawValue = 0x8 then some .close
  else if rawValue = 0x9 then some .ping
  else if rawValue = 0xA then some .pong
  else none

theorem SocketOpcode.ofRawValue_rawValue
    (opcode : SocketOpcode) :
    ofRawValue opcode.rawValue = some opcode := by
  cases opcode <;> rfl

def MAXPAYLOAD : Nat := 33554432

inductive SocketCloseEventCode where
  | close_NORMAL
  | close_GOING_AWAY
  | close_PROTOCOL_ERROR
  | close_UNSUPPORTED
  | close_NO_STATUS
  | close_ABNORMAL
  | unsupportedData
  | policyViolation
  | close_TOO_LARGE
  | missingExtension
  | internalError
  | serviceRestart
  | tryAgainLater
  | tlsHandshake
deriving DecidableEq

namespace SocketCloseEventCode

def rawValue : SocketCloseEventCode → UInt16
  | .close_NORMAL => 1000
  | .close_GOING_AWAY => 1001
  | .close_PROTOCOL_ERROR => 1002
  | .close_UNSUPPORTED => 1003
  | .close_NO_STATUS => 1005
  | .close_ABNORMAL => 1004
  | .unsupportedData => 1006
  | .policyViolation => 1007
  | .close_TOO_LARGE => 1008
  | .missingExtension => 1009
  | .internalError => 1010
  | .serviceRestart => 1011
  | .tryAgainLater => 1012
  | .tlsHandshake => 1015

def all : List SocketCloseEventCode :=
  [.close_NORMAL, .close_GOING_AWAY, .close_PROTOCOL_ERROR,
    .close_UNSUPPORTED, .close_NO_STATUS, .close_ABNORMAL,
    .unsupportedData, .policyViolation, .close_TOO_LARGE,
    .missingExtension, .internalError, .serviceRestart,
    .tryAgainLater, .tlsHandshake]

def ofRawValue (rawValue : Nat) : Option SocketCloseEventCode :=
  all.find? fun code => code.rawValue.toNat = rawValue

end SocketCloseEventCode

/- What the client handler is told. -/
inductive Received where
  | text (text : String)
  | data (data : List UInt8)
deriving DecidableEq

/- `String(bytes:encoding:)` with UTF-8. -/
def stringOfBytes (bytes : List UInt8) : Option String :=
  String.fromUTF8? ⟨bytes.toArray⟩

/- `BRWebSocketImpl`, with the fields that parsing uses. -/
structure BRWebSocketImpl where
  state : SocketState
  fin : UInt8
  hasMask : Bool
  opcode : SocketOpcode
  closed : Bool
  index : Nat
  length : Nat
  lengtharray : List UInt8
  lengtharrayWritten : Nat
  data : List UInt8
  dataWritten : Nat
  maskarray : List UInt8
  maskarrayWritten : Nat
  fragStart : Bool
  fragType : SocketOpcode
  fragBuffer : List UInt8
  sendq : List (SocketOpcode × List UInt8)
  received : List Received
deriving DecidableEq

namespace BRWebSocketImpl

/- `init` -/
def new : BRWebSocketImpl where
  state := .headerb1
  fin := 0
  hasMask := false
  opcode := .stream
  closed := false
  index := 0
  length := 0
  lengtharray := []
  lengtharrayWritten := 0
  data := []
  dataWritten := 0
  maskarray := []
  maskarrayWritten := 0
  fragStart := false
  fragType := .binary
  fragBuffer := []
  sendq := []
  received := []

------------------------------------------------------------
-- Sending
------------------------------------------------------------

/- The bytes that `sendMessage` queues. -/
def messageBytes
    (fin : Bool)
    (opcode : SocketOpcode)
    (data : List UInt8) : List UInt8 :=
  let b1 := (if fin then 0 else 0x80) ||| opcode.rawValue
  let size :=
    if data.length ≤ 125 then
      [UInt8.ofNat data.length]
    else if data.length ≤ 65535 then
      126 :: bigEndian 2 data.length
    else
      127 :: bigEndian 8 data.length
  b1 :: size ++ data

/- `sendMessage` -/
def sendMessage
    (socket : BRWebSocketImpl)
    (fin : Bool)
    (opcode : SocketOpcode)
    (data : List UInt8) : BRWebSocketImpl :=
  { socket with
    sendq :=
      socket.sendq ++ [(opcode, messageBytes fin opcode data)] }

/- `close` -/
def close
    (socket : BRWebSocketImpl)
    (status : SocketCloseEventCode)
    (reason : List UInt8) : BRWebSocketImpl :=
  let socket :=
    if socket.closed then socket
    else
      socket.sendMessage false .close
        (bigEndian 2 status.rawValue.toNat ++ reason)
  { socket with closed := true }

------------------------------------------------------------
-- Packets
------------------------------------------------------------

/- The status and the reason that a close packet gives. -/
def closeReason
    (socket : BRWebSocketImpl) :
    SocketCloseEventCode × List UInt8 :=
  if 2 ≤ socket.dataWritten then
    let status :=
      (SocketCloseEventCode.ofRawValue
        (ofBigEndian (socket.data.take 2))).getD
          .close_PROTOCOL_ERROR
    let lr := socket.data.drop 2
    if 0 < lr.length then
      match stringOfBytes lr with
      | some rr => (status, rr.toUTF8.data.toList)
      | none =>
          (.close_PROTOCOL_ERROR,
            "bad UTF8 data".toUTF8.data.toList)
    else (status, [])
  else (.close_PROTOCOL_ERROR, [])

/- `socket(_:didReceiveText:)`, where the bytes are a text. -/
def receiveText
    (socket : BRWebSocketImpl)
    (bytes : List UInt8) : BRWebSocketImpl :=
  match stringOfBytes bytes with
  | some str =>
      { socket with received := socket.received ++ [.text str] }
  | none => socket

/- `handlePacket` -/
def handlePacket (socket : BRWebSocketImpl) : BRWebSocketImpl :=
  if (socket.opcode = .pong ∨ socket.opcode = .ping) ∧
      125 < socket.dataWritten then socket
  else if socket.opcode = .close then
    socket.close socket.closeReason.1 socket.closeReason.2
  else if socket.fin = 0 then
    if socket.opcode ≠ .stream then
      if socket.opcode = .ping ∨ socket.opcode = .pong then
        socket
      else
        { socket with
          fragType := socket.opcode
          fragStart := true
          fragBuffer := socket.fragBuffer ++ socket.data }
    else if !socket.fragStart then socket
    else
      { socket with
        fragBuffer := socket.fragBuffer ++ socket.data }
  else if socket.opcode = .stream then
    if !socket.fragStart then socket
    else
      let told :=
        if socket.fragType = .text then
          socket.receiveText socket.data
        else
          { socket with
            received :=
              socket.received ++ [.data socket.data] }
      { told with
        fragType := .binary
        fragStart := false
        fragBuffer := [] }
  else if socket.opcode = .ping then
    socket.sendMessage false .pong socket.data
  else if socket.opcode = .pong then socket
  else if socket.fragStart then socket
  else if socket.opcode = .text then
    socket.receiveText socket.data
  else socket

------------------------------------------------------------
-- Bytes
------------------------------------------------------------

/- An assignment to one place of an array. -/
def assign
    (array : List UInt8)
    (index : Nat)
    (byte : UInt8) : Option (List UInt8) :=
  if index < array.length then some (array.set index byte)
  else none

/- The packet is complete: the next byte begins another. -/
def packetDone (socket : BRWebSocketImpl) : BRWebSocketImpl :=
  { socket.handlePacket with
    data := []
    dataWritten := 0
    state := .headerb1 }

/- The payload comes next, if there is any. -/
def expectPayload (socket : BRWebSocketImpl) : BRWebSocketImpl :=
  if socket.length ≤ 0 then socket.packetDone
  else
    { socket with
      data := List.replicate socket.length 0
      dataWritten := 0
      state := .payload }

/- The length is known: the mask comes next, if there is one. -/
def expectMask (socket : BRWebSocketImpl) : BRWebSocketImpl :=
  if socket.hasMask then
    { socket with
      maskarray := List.replicate 4 0
      maskarrayWritten := 0
      state := .mask }
  else socket.expectPayload

/- A byte of a length of some width. -/
def parseLength
    (socket : BRWebSocketImpl)
    (width : Nat)
    (byte : UInt8) : Option BRWebSocketImpl :=
  let written := socket.lengtharrayWritten + 1
  let socket := { socket with lengtharrayWritten := written }
  if width < written then some socket
  else
    (assign socket.lengtharray (written - 1) byte).bind
      fun lengtharray =>
        let socket := { socket with lengtharray := lengtharray }
        if written = width then
          let ll := ofBigEndian lengtharray
          if 2 ^ 63 ≤ ll then none
          else some { socket with length := ll }.expectMask
        else some socket

/- The first byte of a header. -/
def parseHeaderb1
    (socket : BRWebSocketImpl)
    (byte : UInt8) : BRWebSocketImpl :=
  let socket := { socket with fin := byte &&& 0x80 }
  match SocketOpcode.ofRawValue (byte &&& 0x0F) with
  | none => socket
  | some opc =>
      { socket with
        opcode := opc
        state := .headerb2
        index := 0
        length := 0 }

/- The second byte of a header. -/
def parseHeaderb2
    (socket : BRWebSocketImpl)
    (byte : UInt8) : BRWebSocketImpl :=
  let mask := byte &&& 0x80
  let length := byte &&& 0x7F
  if socket.opcode = .ping then socket
  else
    let socket := { socket with hasMask := mask = 128 }
    if length ≤ 125 then
      { socket with length := length.toNat }.expectMask
    else if length = 126 then
      { socket with
        lengtharray := List.replicate 2 0
        lengtharrayWritten := 0
        state := .lengthshort }
    else if length = 127 then
      { socket with
        lengtharray := List.replicate 8 0
        lengtharrayWritten := 0
        state := .lengthlong }
    else socket

/- A byte of a key. -/
def parseMask
    (socket : BRWebSocketImpl)
    (byte : UInt8) : Option BRWebSocketImpl :=
  let written := socket.maskarrayWritten + 1
  let socket := { socket with maskarrayWritten := written }
  if 4 < socket.lengtharrayWritten then some socket
  else
    (assign socket.maskarray (written - 1) byte).bind
      fun maskarray =>
        let socket := { socket with maskarray := maskarray }
        if written = 4 then some socket.expectPayload
        else some socket

/- A byte of a payload. -/
def parsePayload
    (socket : BRWebSocketImpl)
    (byte : UInt8) : Option BRWebSocketImpl :=
  let written := socket.dataWritten + 1
  let socket := { socket with dataWritten := written }
  if MAXPAYLOAD ≤ written then some socket
  else
    let plain :=
      if socket.hasMask then
        (socket.maskarray[socket.index % 4]?).map
          fun mask => byte ^^^ mask
      else some byte
    plain.bind fun plain =>
      (assign socket.data (written - 1) plain).bind
        fun data =>
          let socket := { socket with data := data }
          if socket.index + 1 = socket.length then
            some socket.packetDone
          else some { socket with index := socket.index + 1 }

/- `parseMessage` -/
def parseMessage
    (socket : BRWebSocketImpl)
    (byte : UInt8) : Option BRWebSocketImpl :=
  match socket.state with
  | .headerb1 => some (socket.parseHeaderb1 byte)
  | .headerb2 => some (socket.parseHeaderb2 byte)
  | .lengthshort => socket.parseLength 2 byte
  | .lengthlong => socket.parseLength 8 byte
  | .mask => socket.parseMask byte
  | .payload => socket.parsePayload byte

/- `handleRead`, once for every byte that has arrived. -/
def handleRead
    (socket : BRWebSocketImpl)
    (bytes : List UInt8) : Option BRWebSocketImpl :=
  bytes.foldlM parseMessage socket

/- The bytes arrive in portions. -/
def handleReads
    (socket : BRWebSocketImpl)
    (reads : List (List UInt8)) : Option BRWebSocketImpl :=
  reads.foldlM handleRead socket

end BRWebSocketImpl

end PlusWallet
