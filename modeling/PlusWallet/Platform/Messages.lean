import PlusWallet.Library.Run
import PlusWallet.Platform.Frames

/-
  Which messages of a client reach the client handler.  Pings
  are never answered, a long masked frame is never left, a
  binary message in one frame is dropped, and of a message in
  fragments only the last one is delivered.

  Main declarations:
    * `ClientHistory`, `ClientHistory.send`
    * `Serves`, `Taken`
    * `Agrees`, `agrees_of_send`, `broken_of_send`
    * `parser_law`
-/

namespace PlusWallet

open Run

namespace BRWebSocketImpl

------------------------------------------------------------
-- What a Client Sends
------------------------------------------------------------

/-
  The bytes that a client has sent, the width of its last
  length with bytes of its own, the message it has begun, the
  messages it has completed, and its pings.
-/
structure ClientHistory where
  bytes : List UInt8
  width : Nat
  pending : Option (SocketOpcode × List UInt8)
  messages : List Received
  pings : List (List UInt8)
deriving DecidableEq

namespace ClientHistory

def new : ClientHistory where
  bytes := []
  width := 0
  pending := none
  messages := []
  pings := []

/- The last fragment is sent; a text message is UTF-8. -/
def complete
    (history : ClientHistory)
    (type : SocketOpcode)
    (whole : List UInt8) : Option ClientHistory :=
  let history := { history with pending := none }
  if type = .text then
    (stringOfBytes whole).map fun str =>
      { history with
        messages := history.messages ++ [.text str] }
  else
    some
      { history with
        messages := history.messages ++ [.data whole] }

/- A fragment of a message that has begun with some bytes. -/
def carry
    (history : ClientHistory)
    (type : SocketOpcode)
    (before : List UInt8)
    (frame : Frame) : Option ClientHistory :=
  if frame.fin then
    history.complete type (before ++ frame.payload)
  else
    some
      { history with
        pending := some (type, before ++ frame.payload) }

/- A frame, if the protocol allows it here. -/
def send
    (history : ClientHistory)
    (frame : Frame) : Option ClientHistory :=
  let history :=
    { history with
      bytes := history.bytes ++ frame.bytes
      width := frame.widthAfter history.width }
  let isControl : Prop :=
    frame.fin = true ∧ frame.payload.length ≤ 125
  match frame.opcode with
  | .text | .binary =>
      match history.pending with
      | none => history.carry frame.opcode [] frame
      | some _ => none
  | .stream =>
      match history.pending with
      | none => none
      | some (type, before) => history.carry type before frame
  | .close | .pong => if isControl then some history else none
  | .ping =>
      if isControl then
        some
          { history with
            pings := history.pings ++ [frame.payload] }
      else none

end ClientHistory

------------------------------------------------------------
-- What the Parser Owes
------------------------------------------------------------

/- The pongs that are queued. -/
def pongs
    (socket : BRWebSocketImpl) :
    List (SocketOpcode × List UInt8) :=
  socket.sendq.filter fun sent => sent.1 = .pong

/- The pong that answers a ping. -/
def answer
    (payload : List UInt8) : SocketOpcode × List UInt8 :=
  (.pong, 0x8A :: UInt8.ofNat payload.length :: payload)

/- Messages delivered, pings answered, and no fragments left. -/
structure Owes
    (socket : BRWebSocketImpl)
    (history : ClientHistory) : Prop where
  received : socket.received = history.messages
  pongs : socket.pongs = history.pings.map answer
  settled :
    history.pending = none →
      socket.state = .headerb1 ∧ socket.fragStart = false ∧
        socket.fragBuffer = []

/- However the bytes that were sent are divided into reads. -/
def Serves (history : ClientHistory) : Prop :=
  ∀ reads : List (List UInt8),
    reads.flatten = history.bytes →
      ∃ socket, new.handleReads reads = some socket ∧
        Owes socket history

theorem serves_iff
    (history : ClientHistory) :
    Serves history ↔
      ∃ socket, new.handleRead history.bytes = some socket ∧
        Owes socket history := by
  constructor
  · intro hServes
    have hWhole := hServes [history.bytes] (by simp)
    rwa [handleReads_eq, List.flatten_singleton] at hWhole
  · intro hWhole reads hReads
    rwa [handleReads_eq, hReads]

/- The frames that the parser takes as they were meant. -/
structure Taken
    (history : ClientHistory)
    (frame : Frame) : Prop where
  notPing : frame.opcode ≠ .ping
  shortMask :
    frame.key.isSome → frame.widthAfter history.width ≤ 4
  notBinary : frame.fin = true → frame.opcode ≠ .binary
  lastIsWhole :
    frame.fin = true → frame.opcode = .stream →
      ∀ type before,
        history.pending = some (type, before) → before = []

------------------------------------------------------------
-- Packets
------------------------------------------------------------

theorem handlePacket_close
    {socket : BRWebSocketImpl}
    (hOpcode : socket.opcode = .close) :
    socket.handlePacket =
      socket.close socket.closeReason.1
        socket.closeReason.2 := by
  unfold handlePacket
  simp [hOpcode]

theorem handlePacket_pong
    {socket : BRWebSocketImpl}
    (hOpcode : socket.opcode = .pong) :
    socket.handlePacket = socket := by
  unfold handlePacket
  simp [hOpcode]

theorem handlePacket_binary
    {socket : BRWebSocketImpl}
    (hOpcode : socket.opcode = .binary)
    (hFin : socket.fin ≠ 0) :
    socket.handlePacket = socket := by
  unfold handlePacket
  simp [hOpcode, hFin]

theorem handlePacket_text
    {socket : BRWebSocketImpl}
    (hOpcode : socket.opcode = .text)
    (hFin : socket.fin ≠ 0)
    (hStart : socket.fragStart = false) :
    socket.handlePacket = socket.receiveText socket.data := by
  unfold handlePacket
  simp [hOpcode, hFin, hStart]

theorem handlePacket_begin
    {socket : BRWebSocketImpl}
    (hOpcode : socket.opcode = .text ∨ socket.opcode = .binary)
    (hFin : socket.fin = 0) :
    socket.handlePacket =
      { socket with
        fragType := socket.opcode
        fragStart := true
        fragBuffer := socket.fragBuffer ++ socket.data } := by
  unfold handlePacket
  rcases hOpcode with hOpcode | hOpcode <;>
    simp [hOpcode, hFin]

theorem handlePacket_continue
    {socket : BRWebSocketImpl}
    (hOpcode : socket.opcode = .stream)
    (hFin : socket.fin = 0)
    (hStart : socket.fragStart = true) :
    socket.handlePacket =
      { socket with
        fragBuffer := socket.fragBuffer ++ socket.data } := by
  unfold handlePacket
  simp [hOpcode, hFin, hStart]

theorem handlePacket_end
    {socket : BRWebSocketImpl}
    (hOpcode : socket.opcode = .stream)
    (hFin : socket.fin ≠ 0)
    (hStart : socket.fragStart = true) :
    socket.handlePacket =
      { (if socket.fragType = .text then
            socket.receiveText socket.data
          else
            { socket with
              received :=
                socket.received ++ [.data socket.data] }) with
        fragType := .binary
        fragStart := false
        fragBuffer := [] } := by
  unfold handlePacket
  simp [hOpcode, hFin, hStart]

/- A text that decodes has the bytes that it came from. -/
theorem stringOfBytes_injective
    {bytes others : List UInt8}
    {str : String}
    (hBytes : stringOfBytes bytes = some str)
    (hOthers : stringOfBytes others = some str) :
    bytes = others := by
  unfold stringOfBytes String.fromUTF8? at hBytes hOthers
  split_ifs at hBytes hOthers
  cases hBytes
  cases hOthers
  rfl

theorem receiveText_of_some
    {socket : BRWebSocketImpl}
    {bytes : List UInt8}
    {str : String}
    (hText : stringOfBytes bytes = some str) :
    socket.receiveText bytes =
      { socket with
        received := socket.received ++ [.text str] } := by
  unfold receiveText
  rw [hText]

/- Of a text at most one string is delivered, and nothing else. -/
theorem receiveText_cases
    (socket : BRWebSocketImpl)
    (bytes : List UInt8) :
    (stringOfBytes bytes = none ∧
        socket.receiveText bytes = socket) ∨
      ∃ str, stringOfBytes bytes = some str ∧
        socket.receiveText bytes =
          { socket with
            received := socket.received ++ [.text str] } := by
  cases hText : stringOfBytes bytes with
  | none =>
      refine Or.inl ⟨rfl, ?_⟩
      unfold receiveText
      rw [hText]
  | some str =>
      exact Or.inr ⟨str, rfl, receiveText_of_some hText⟩

/- A close packet queues no pong. -/
theorem pongs_close
    (socket : BRWebSocketImpl)
    (status : SocketCloseEventCode)
    (reason : List UInt8) :
    (socket.close status reason).pongs = socket.pongs := by
  unfold close pongs
  dsimp only
  split_ifs
  · rfl
  · simp [sendMessage]

theorem close_keeps
    (socket : BRWebSocketImpl)
    (status : SocketCloseEventCode)
    (reason : List UInt8) :
    let closed := socket.close status reason
    closed.received = socket.received ∧
      closed.fragStart = socket.fragStart ∧
      closed.fragType = socket.fragType ∧
      closed.fragBuffer = socket.fragBuffer ∧
      closed.lengtharrayWritten =
        socket.lengtharrayWritten := by
  unfold close
  dsimp only
  split_ifs
  · exact ⟨rfl, rfl, rfl, rfl, rfl⟩
  · exact ⟨rfl, rfl, rfl, rfl, rfl⟩

------------------------------------------------------------
-- One Frame
------------------------------------------------------------

/- The parser holds the fragments of the message begun. -/
def Holds
    (socket : BRWebSocketImpl)
    (pending : Option (SocketOpcode × List UInt8)) : Prop :=
  match pending with
  | none => socket.fragStart = false ∧ socket.fragBuffer = []
  | some (type, before) =>
      socket.fragStart = true ∧ socket.fragType = type ∧
        socket.fragBuffer = before

/- The parser between two frames, all of them taken. -/
structure Agrees
    (socket : BRWebSocketImpl)
    (history : ClientHistory) : Prop where
  state : socket.state = .headerb1
  data : socket.data = []
  dataWritten : socket.dataWritten = 0
  width : socket.lengtharrayWritten = history.width
  received : socket.received = history.messages
  pongs : socket.pongs = history.pings.map answer
  fragments : socket.Holds history.pending

theorem Agrees.owes
    {socket : BRWebSocketImpl}
    {history : ClientHistory}
    (hAgrees : Agrees socket history) :
    Owes socket history where
  received := hAgrees.received
  pongs := hAgrees.pongs
  settled := by
    intro hPending
    have hHolds := hAgrees.fragments
    rw [hPending] at hHolds
    exact ⟨hAgrees.state, hHolds.1, hHolds.2⟩

/- What a packet must do for the parser to agree again. -/
theorem agrees_packetDone
    {loaded : BRWebSocketImpl}
    {next : ClientHistory}
    (hWidth :
      loaded.handlePacket.lengtharrayWritten = next.width)
    (hReceived : loaded.handlePacket.received = next.messages)
    (hPongs :
      loaded.handlePacket.pongs = next.pings.map answer)
    (hHolds : loaded.handlePacket.Holds next.pending) :
    Agrees loaded.packetDone next where
  state := rfl
  data := rfl
  dataWritten := rfl
  width := hWidth
  received := hReceived
  pongs := hPongs
  fragments := by
    cases hPending : next.pending with
    | none =>
        rw [hPending] at hHolds
        exact hHolds
    | some begun =>
        rw [hPending] at hHolds
        exact hHolds

/- A frame has been loaded; its packet is to be handled. -/
structure Ready
    (loaded : BRWebSocketImpl)
    (history : ClientHistory)
    (frame : Frame) : Prop where
  fin : loaded.fin = 0 ↔ frame.fin = false
  opcode : loaded.opcode = frame.opcode
  data : loaded.data = frame.payload
  width :
    loaded.lengtharrayWritten = frame.widthAfter history.width
  received : loaded.received = history.messages
  pongs : loaded.pongs = history.pings.map answer
  fragments : loaded.Holds history.pending

/- Fragments are held by the fields that hold them. -/
theorem Holds.congr
    {socket other : BRWebSocketImpl}
    {pending : Option (SocketOpcode × List UInt8)}
    (hHolds : socket.Holds pending)
    (hStart : other.fragStart = socket.fragStart)
    (hType : other.fragType = socket.fragType)
    (hBuffer : other.fragBuffer = socket.fragBuffer) :
    other.Holds pending := by
  cases pending with
  | none =>
      exact ⟨hStart.trans hHolds.1, hBuffer.trans hHolds.2⟩
  | some begun =>
      exact
        ⟨hStart.trans hHolds.1, hType.trans hHolds.2.1,
          hBuffer.trans hHolds.2.2⟩

theorem Agrees.ready
    {socket loaded : BRWebSocketImpl}
    {history : ClientHistory}
    {frame : Frame}
    (hAgrees : Agrees socket history)
    (hLoads : Loads socket frame loaded) :
    Ready loaded history frame where
  fin := by
    rw [hLoads.fin]
    cases frame.fin <;> decide
  opcode := hLoads.opcode
  data := hLoads.data
  width := by rw [hLoads.written, hAgrees.width]
  received := hLoads.received.trans hAgrees.received
  pongs := by
    unfold BRWebSocketImpl.pongs
    rw [hLoads.sendq]
    exact hAgrees.pongs
  fragments :=
    hAgrees.fragments.congr hLoads.fragStart hLoads.fragType
      hLoads.fragBuffer

/- Control packets say nothing to the client handler. -/
theorem Ready.control
    {loaded : BRWebSocketImpl}
    {history : ClientHistory}
    {frame : Frame}
    (hReady : Ready loaded history frame)
    (hOpcode : frame.opcode = .close ∨ frame.opcode = .pong) :
    Agrees loaded.packetDone
      { history with
        bytes := history.bytes ++ frame.bytes
        width := frame.widthAfter history.width } := by
  rcases hOpcode with hClose | hPong
  · have hCase :=
      handlePacket_close (hReady.opcode.trans hClose)
    rcases
        close_keeps loaded loaded.closeReason.1
          loaded.closeReason.2 with
      ⟨hSame, hStart, hType, hBuffer, hWritten⟩
    apply agrees_packetDone <;> rw [hCase]
    · exact hWritten.trans hReady.width
    · exact hSame.trans hReady.received
    · exact (pongs_close _ _ _).trans hReady.pongs
    · exact hReady.fragments.congr hStart hType hBuffer
  · have hCase := handlePacket_pong (hReady.opcode.trans hPong)
    apply agrees_packetDone <;> rw [hCase]
    · exact hReady.width
    · exact hReady.received
    · exact hReady.pongs
    · exact hReady.fragments

/- The packet of a message's last frame, delivered or not. -/
theorem Ready.complete
    {loaded : BRWebSocketImpl}
    {history next : ClientHistory}
    {frame : Frame}
    {type : SocketOpcode}
    {whole : List UInt8}
    (hReady : Ready loaded history frame)
    (hComplete :
      ({ history with
          bytes := history.bytes ++ frame.bytes
          width :=
            frame.widthAfter history.width } :
              ClientHistory).complete type whole = some next)
    (hWritten :
      loaded.handlePacket.lengtharrayWritten =
        loaded.lengtharrayWritten)
    (hQueue : loaded.handlePacket.sendq = loaded.sendq)
    (hNone : loaded.handlePacket.Holds none)
    (hText :
      type = .text → ∀ str, stringOfBytes whole = some str →
        loaded.handlePacket.received =
          loaded.received ++ [.text str])
    (hData :
      type ≠ .text →
        loaded.handlePacket.received =
          loaded.received ++ [.data whole]) :
    Agrees loaded.packetDone next := by
  have hPongs :
      loaded.handlePacket.pongs =
        history.pings.map answer := by
    unfold BRWebSocketImpl.pongs
    rw [hQueue]
    exact hReady.pongs
  unfold ClientHistory.complete at hComplete
  dsimp only at hComplete
  split_ifs at hComplete with hType
  · rw [Option.map_eq_some_iff] at hComplete
    rcases hComplete with ⟨str, hStr, rfl⟩
    apply agrees_packetDone
    · exact hWritten.trans hReady.width
    · rw [hText hType str hStr, hReady.received]
    · exact hPongs
    · exact hNone
  · cases hComplete
    apply agrees_packetDone
    · exact hWritten.trans hReady.width
    · rw [hData hType, hReady.received]
    · exact hPongs
    · exact hNone

/- The first frame of a message, if it is not a binary one. -/
theorem Ready.begin
    {loaded : BRWebSocketImpl}
    {history next : ClientHistory}
    {frame : Frame}
    (hReady : Ready loaded history frame)
    (hOpcode :
      frame.opcode = .text ∨ frame.opcode = .binary)
    (hNotBinary : frame.fin = true → frame.opcode ≠ .binary)
    (hPending : history.pending = none)
    (hCarry :
      ({ history with
          bytes := history.bytes ++ frame.bytes
          width :=
            frame.widthAfter history.width } :
              ClientHistory).carry frame.opcode [] frame =
        some next) :
    Agrees loaded.packetDone next := by
  have hHolds := hReady.fragments
  rw [hPending] at hHolds
  rcases hHolds with ⟨hStart, hBuffer⟩
  unfold ClientHistory.carry at hCarry
  split_ifs at hCarry with hFin
  · have hText : frame.opcode = .text :=
      hOpcode.resolve_right (hNotBinary hFin)
    have hLast : loaded.fin ≠ 0 := by
      rw [Ne, hReady.fin, hFin]
      decide
    have hCase :=
      handlePacket_text (hReady.opcode.trans hText) hLast hStart
    rw [hReady.data] at hCase
    rw [List.nil_append] at hCarry
    rcases receiveText_cases loaded frame.payload with
      ⟨hNone, hSame⟩ | ⟨str, hStr, hSame⟩
    · unfold ClientHistory.complete at hCarry
      rw [if_pos hText, hNone] at hCarry
      cases hCarry
    · apply hReady.complete hCarry <;> rw [hCase, hSame]
      · exact ⟨hStart, hBuffer⟩
      · intro _ other hOther
        rw [hStr] at hOther
        cases hOther
        rfl
      · intro hNot
        exact absurd hText hNot
  · cases hCarry
    have hFirst : loaded.fin = 0 := by
      rw [hReady.fin]
      simpa using hFin
    have hCase :=
      handlePacket_begin
        (by rw [hReady.opcode]; exact hOpcode) hFirst
    apply agrees_packetDone <;> rw [hCase]
    · exact hReady.width
    · exact hReady.received
    · exact hReady.pongs
    · refine ⟨rfl, hReady.opcode, ?_⟩
      dsimp only
      rw [hBuffer, hReady.data]

/- A later frame, where the last one carries the whole. -/
theorem Ready.continue
    {loaded : BRWebSocketImpl}
    {history next : ClientHistory}
    {frame : Frame}
    {type : SocketOpcode}
    {before : List UInt8}
    (hReady : Ready loaded history frame)
    (hOpcode : frame.opcode = .stream)
    (hPending : history.pending = some (type, before))
    (hWhole : frame.fin = true → before = [])
    (hCarry :
      ({ history with
          bytes := history.bytes ++ frame.bytes
          width :=
            frame.widthAfter history.width } :
              ClientHistory).carry type before frame =
        some next) :
    Agrees loaded.packetDone next := by
  have hHolds := hReady.fragments
  rw [hPending] at hHolds
  rcases hHolds with ⟨hStart, hType, hBuffer⟩
  have hStream := hReady.opcode.trans hOpcode
  unfold ClientHistory.carry at hCarry
  split_ifs at hCarry with hFin
  · have hLast : loaded.fin ≠ 0 := by
      rw [Ne, hReady.fin, hFin]
      decide
    have hCase := handlePacket_end hStream hLast hStart
    rw [hReady.data, hType] at hCase
    rw [hWhole hFin, List.nil_append] at hCarry
    by_cases hIsText : type = .text
    · rw [if_pos hIsText] at hCase
      rcases receiveText_cases loaded frame.payload with
        ⟨hNone, hSame⟩ | ⟨str, hStr, hSame⟩
      · unfold ClientHistory.complete at hCarry
        rw [if_pos hIsText, hNone] at hCarry
        cases hCarry
      · apply hReady.complete hCarry <;> rw [hCase, hSame]
        · exact ⟨rfl, rfl⟩
        · intro _ other hOther
          rw [hStr] at hOther
          cases hOther
          rfl
        · intro hNot
          exact absurd hIsText hNot
    · rw [if_neg hIsText] at hCase
      apply hReady.complete hCarry <;> rw [hCase]
      · exact ⟨rfl, rfl⟩
      · intro hIs
        exact absurd hIs hIsText
      · intro _
        rfl
  · cases hCarry
    have hFirst : loaded.fin = 0 := by
      rw [hReady.fin]
      simpa using hFin
    have hCase := handlePacket_continue hStream hFirst hStart
    apply agrees_packetDone <;> rw [hCase]
    · exact hReady.width
    · exact hReady.received
    · exact hReady.pongs
    · refine ⟨hStart, hType, ?_⟩
      dsimp only
      rw [hBuffer, hReady.data]

/- A packet that is taken leaves the parser in agreement. -/
theorem agrees_packet
    {loaded : BRWebSocketImpl}
    {history next : ClientHistory}
    {frame : Frame}
    (hReady : Ready loaded history frame)
    (hTaken : Taken history frame)
    (hSend : history.send frame = some next) :
    Agrees loaded.packetDone next := by
  unfold ClientHistory.send at hSend
  dsimp only at hSend
  cases hOpcode : frame.opcode with
  | close =>
      rw [hOpcode] at hSend
      dsimp only at hSend
      split_ifs at hSend
      cases hSend
      exact hReady.control (Or.inl hOpcode)
  | pong =>
      rw [hOpcode] at hSend
      dsimp only at hSend
      split_ifs at hSend
      cases hSend
      exact hReady.control (Or.inr hOpcode)
  | ping => exact absurd hOpcode hTaken.notPing
  | text =>
      cases hPending : history.pending with
      | none =>
          simp only [hOpcode, hPending] at hSend
          apply
            hReady.begin (Or.inl hOpcode) hTaken.notBinary
              hPending
          rw [hOpcode, hPending]
          exact hSend
      | some begun =>
          simp [hOpcode, hPending] at hSend
  | binary =>
      cases hPending : history.pending with
      | none =>
          simp only [hOpcode, hPending] at hSend
          apply
            hReady.begin (Or.inr hOpcode) hTaken.notBinary
              hPending
          rw [hOpcode, hPending]
          exact hSend
      | some begun =>
          simp [hOpcode, hPending] at hSend
  | stream =>
      cases hPending : history.pending with
      | none => simp [hOpcode, hPending] at hSend
      | some begun =>
          simp only [hOpcode, hPending] at hSend
          apply hReady.continue hOpcode hPending
          · intro hFin
            exact
              hTaken.lastIsWhole hFin hOpcode _ _ hPending
          · rw [hPending]
            exact hSend

------------------------------------------------------------
-- Runs
------------------------------------------------------------

/- A last frame that is not taken is not delivered as meant. -/
theorem Ready.broken
    {loaded : BRWebSocketImpl}
    {history next : ClientHistory}
    {frame : Frame}
    (hReady : Ready loaded history frame)
    (hFin : frame.fin = true)
    (hBroken :
      frame.opcode = .binary ∨
        frame.opcode = .stream ∧
          ∃ type before, history.pending = some (type, before) ∧
            before ≠ [])
    (hSend : history.send frame = some next) :
    loaded.packetDone.received ≠ next.messages := by
  have hLast : loaded.fin ≠ 0 := by
    rw [Ne, hReady.fin, hFin]
    decide
  change loaded.handlePacket.received ≠ next.messages
  unfold ClientHistory.send at hSend
  dsimp only at hSend
  rcases hBroken with
    hBinary | ⟨hStream, type, before, hPending, hSome⟩
  · have hCase :=
      handlePacket_binary (hReady.opcode.trans hBinary) hLast
    cases hPending : history.pending with
    | some begun => simp [hBinary, hPending] at hSend
    | none =>
        simp only [hBinary, hPending, ClientHistory.carry,
          hFin, if_true, ClientHistory.complete,
          reduceCtorEq, if_false, Option.some.injEq] at hSend
        rw [hCase, hReady.received, ← hSend]
        simp
  · have hHolds := hReady.fragments
    rw [hPending] at hHolds
    rcases hHolds with ⟨hStart, hType, -⟩
    have hCase :=
      handlePacket_end (hReady.opcode.trans hStream) hLast
        hStart
    have hLonger : frame.payload ≠ before ++ frame.payload := by
      intro hSame
      apply hSome
      exact List.self_eq_append_left.mp hSame
    rw [hReady.data, hType] at hCase
    simp only [hStream, hPending, ClientHistory.carry, hFin,
      if_true] at hSend
    unfold ClientHistory.complete at hSend
    by_cases hIsText : type = .text
    · rw [if_pos hIsText, Option.map_eq_some_iff] at hSend
      rcases hSend with ⟨str, hStr, rfl⟩
      rw [if_pos hIsText] at hCase
      rcases receiveText_cases loaded frame.payload with
        ⟨-, hSame⟩ | ⟨other, hOther, hSame⟩
      · rw [hCase, hSame, hReady.received]
        simp
      · rw [hCase, hSame, hReady.received]
        intro hEqual
        have hStrings : other = str := by simpa using hEqual
        rw [hStrings] at hOther
        exact hLonger (stringOfBytes_injective hOther hStr)
    · rw [if_neg hIsText, Option.some.injEq] at hSend
      rw [if_neg hIsText] at hCase
      rw [hCase, hReady.received, ← hSend]
      intro hEqual
      apply hLonger
      simpa using hEqual

theorem bytes_of_complete
    {history next : ClientHistory}
    {type : SocketOpcode}
    {whole : List UInt8}
    (hComplete : history.complete type whole = some next) :
    next.bytes = history.bytes := by
  unfold ClientHistory.complete at hComplete
  dsimp only at hComplete
  split_ifs at hComplete
  · rw [Option.map_eq_some_iff] at hComplete
    rcases hComplete with ⟨_, -, rfl⟩
    rfl
  · cases hComplete
    rfl

theorem bytes_of_carry
    {history next : ClientHistory}
    {type : SocketOpcode}
    {before : List UInt8}
    {frame : Frame}
    (hCarry : history.carry type before frame = some next) :
    next.bytes = history.bytes := by
  unfold ClientHistory.carry at hCarry
  split_ifs at hCarry
  · exact bytes_of_complete hCarry
  · cases hCarry
    rfl

/- Every frame is sent byte by byte, after those before it. -/
theorem bytes_of_send
    {history next : ClientHistory}
    {frame : Frame}
    (hSend : history.send frame = some next) :
    next.bytes = history.bytes ++ frame.bytes := by
  unfold ClientHistory.send at hSend
  dsimp only at hSend
  split at hSend
  · split at hSend
    · exact bytes_of_carry hSend
    · cases hSend
  · split at hSend
    · exact bytes_of_carry hSend
    · cases hSend
  · split at hSend
    · cases hSend
    · exact bytes_of_carry hSend
  · split_ifs at hSend
    cases hSend
    rfl
  · split_ifs at hSend
    cases hSend
    rfl
  · split_ifs at hSend
    cases hSend
    rfl

/- All frames so far were taken. -/
def Kept (history : ClientHistory) : Prop :=
  ∃ socket, new.handleRead history.bytes = some socket ∧
    Agrees socket history

/- The parser will not leave the frame it is in. -/
def Lost (history : ClientHistory) : Prop :=
  ∃ socket, new.handleRead history.bytes = some socket ∧
    socket.Stuck

theorem kept_of_send
    {history next : ClientHistory}
    {frame : Frame}
    (hKept : Kept history)
    (hTaken : Taken history frame)
    (hSend : history.send frame = some next) :
    Kept next := by
  rcases hKept with ⟨socket, hRead, hAgrees⟩
  rcases
      handleRead_frame socket frame hAgrees.state hAgrees.data
        hAgrees.dataWritten hTaken.notPing
        (by rw [hAgrees.width]; exact hTaken.shortMask) with
    ⟨loaded, hFrame, hLoads⟩
  refine ⟨loaded.packetDone, ?_, ?_⟩
  · rw [bytes_of_send hSend, handleRead_append, hRead]
    exact hFrame
  · exact agrees_packet (hAgrees.ready hLoads) hTaken hSend

theorem lost_of_send
    {history next : ClientHistory}
    {frame : Frame}
    (hLost : Lost history)
    (hSend : history.send frame = some next) :
    Lost next := by
  rcases hLost with ⟨socket, hRead, hStuck⟩
  rcases stuck_handleRead hStuck frame.bytes with
    ⟨after, hFrame, hStill⟩
  refine ⟨after, ?_, hStill⟩
  rw [bytes_of_send hSend, handleRead_append, hRead]
  exact hFrame

/- A frame that is not taken shows at once, or at the end. -/
theorem broken_of_send
    {history next : ClientHistory}
    {frame : Frame}
    (hKept : Kept history)
    (hNot : ¬ Taken history frame)
    (hSend : history.send frame = some next) :
    ¬ Serves next ∨ Lost next := by
  rcases hKept with ⟨socket, hRead, hAgrees⟩
  by_cases hStuck :
      frame.opcode = .ping ∨
        (frame.key.isSome ∧
          4 < frame.widthAfter socket.lengtharrayWritten)
  · rcases stuck_frame socket frame hAgrees.state hStuck with
      ⟨after, hFrame, hStill⟩
    refine Or.inr ⟨after, ?_, hStill⟩
    rw [bytes_of_send hSend, handleRead_append, hRead]
    exact hFrame
  · rw [not_or, not_and, not_lt] at hStuck
    rcases
        handleRead_frame socket frame hAgrees.state hAgrees.data
          hAgrees.dataWritten hStuck.1 hStuck.2 with
      ⟨loaded, hFrame, hLoads⟩
    have hReady := hAgrees.ready hLoads
    have hBroken :
        frame.fin = true ∧
          (frame.opcode = .binary ∨
            frame.opcode = .stream ∧
              ∃ type before,
                history.pending = some (type, before) ∧
                  before ≠ []) := by
      by_contra hNone
      apply hNot
      rw [not_and, not_or] at hNone
      refine ⟨hStuck.1, ?_, fun hFin => (hNone hFin).1, ?_⟩
      · rw [← hAgrees.width]
        exact hStuck.2
      · intro hFin hStream type before hPending
        by_contra hSome
        exact
          (hNone hFin).2
            ⟨hStream, type, before, hPending, hSome⟩
    left
    intro hServes
    rw [serves_iff, bytes_of_send hSend, handleRead_append,
      hRead, Option.bind_some, hFrame] at hServes
    rcases hServes with ⟨other, hOther, hOwes⟩
    cases hOther
    exact
      hReady.broken hBroken.1 hBroken.2 hSend hOwes.received

/- Where the parser is stuck no message has been completed. -/
theorem not_serves_of_lost
    {history : ClientHistory}
    (hLost : Lost history)
    (hPending : history.pending = none) :
    ¬ Serves history := by
  rcases hLost with ⟨socket, hRead, hStuck⟩
  rw [serves_iff, hRead]
  rintro ⟨other, hOther, hOwes⟩
  cases hOther
  have hState := (hOwes.settled hPending).1
  rcases hStuck with ⟨hThere, -⟩ | ⟨hThere, -⟩
  · rw [hThere] at hState
    cases hState
  · rw [hThere] at hState
    cases hState

/-
  After every frame of a sequence of messages the client
  handler has been told the messages so far, exactly where
  every frame is one that the parser takes.
-/
theorem parser_law
    {frames : List Frame}
    {final : ClientHistory}
    (hSent :
      run ClientHistory.send ClientHistory.new frames =
        some final)
    (hComplete : final.pending = none) :
    Throughout ClientHistory.send Serves ClientHistory.new
        frames ↔
      Meets ClientHistory.send Taken ClientHistory.new
        frames := by
  refine
    @throughout_iff_meets_of_lost _ _ _ _ _ Kept Lost
      ?_ ?_ ?_ ?_ _ _ ?_ _ hSent ?_
  · rintro history ⟨socket, hRead, hAgrees⟩
    exact (serves_iff history).mpr ⟨socket, hRead, hAgrees.owes⟩
  · intro history frame next
    exact kept_of_send
  · intro history frame next
    exact broken_of_send
  · intro history frame next
    exact lost_of_send
  · exact
      ⟨new, rfl, rfl, rfl, rfl, rfl, rfl, rfl, rfl, rfl⟩
  · intro hLost
    exact not_serves_of_lost hLost hComplete

/- A frame with one byte of ASCII, masked. -/
def letterFrame
    (fin : Bool)
    (opcode : SocketOpcode)
    (letter : UInt8) : Frame where
  fin := fin
  opcode := opcode
  key := some #v[1, 2, 3, 4]
  form := .header
  payload := [letter]
  fits := show 1 ≤ 125 by decide
  bounded := show 1 < 33554432 by decide

theorem parser_law_letter :
    let frames := [letterFrame true .text 104]
    Throughout ClientHistory.send Serves ClientHistory.new
        frames ↔
      Meets ClientHistory.send Taken ClientHistory.new
        frames := by
  have hSome :
      (run ClientHistory.send ClientHistory.new
        [letterFrame true .text 104]).map
          (fun history => history.pending) = some none := by
    decide +kernel
  rw [Option.map_eq_some_iff] at hSome
  rcases hSome with ⟨final, hFinal, hNone⟩
  exact parser_law hFinal hNone

/- Of a text in two fragments the second one is delivered. -/
theorem fragments_not_served :
    ¬ ∀ frames final,
      run ClientHistory.send ClientHistory.new frames =
          some final →
        final.pending = none →
          Throughout ClientHistory.send Serves
            ClientHistory.new frames := by
  intro hAll
  have hSent :
      (run ClientHistory.send ClientHistory.new
        [letterFrame false .text 104,
          letterFrame true .stream 105]).map
            (fun history =>
              (history.pending, history.messages,
                (new.handleRead history.bytes).map
                  fun socket => socket.received)) =
        some (none, [.text "hi"], some [.text "i"]) := by
    decide +kernel
  rw [Option.map_eq_some_iff] at hSent
  rcases hSent with ⟨final, hFinal, hEnd⟩
  rw [Prod.mk.injEq, Prod.mk.injEq] at hEnd
  rcases hEnd with ⟨hNone, hMessages, hReceived⟩
  have hServes := (hAll _ _ hFinal hNone).last hFinal
  rw [serves_iff] at hServes
  rcases hServes with ⟨socket, hRead, hOwes⟩
  rw [hRead, Option.map_some, Option.some.injEq,
    hOwes.received, hMessages] at hReceived
  exact absurd hReceived (by decide)

end BRWebSocketImpl

end PlusWallet
