import PlusWallet.Library.Run
import PlusWallet.Platform.BRWebSocket

/-
  How `BRWebSocketServer` writes what its sockets have queued:
  the stream of a socket is that of its frames, unless a full
  buffer is reported, which closes the connection.

  Main declarations:
    * `readFrame`, `readFrame_bytes`
    * `Report`, `sendBuffer`, `sent_of_not_thrown`
    * `BRWebSocketServer`, `step`
    * `KeepsStream`, `Sound`, `keepsStream_iff`
-/

namespace PlusWallet

namespace WebSocketSending

open Bytes Run

------------------------------------------------------------
-- Frames on the Wire
------------------------------------------------------------

/- What a frame says, as in RFC 6455. -/
structure WireFrame where
  final : Bool
  opcode : Nat
  payload : List UInt8
deriving DecidableEq

/-
  The length behind the second byte of a header, written in the
  shortest of its three ways.
-/
def readLength
    (code : Nat)
    (bytes : List UInt8) : Option (Nat × List UInt8) :=
  if code ≤ 125 then some (code, bytes)
  else if code = 126 then
    let length := ofBigEndian (bytes.take 2)
    if bytes.length < 2 ∨ length ≤ 125 then none
    else some (length, bytes.drop 2)
  else
    let length := ofBigEndian (bytes.take 8)
    if bytes.length < 8 ∨ length ≤ 65535 ∨ 2 ^ 63 ≤ length then
      none
    else some (length, bytes.drop 8)

/- The first frame of a stream, without a mask, and the rest. -/
def readFrame :
    List UInt8 → Option (WireFrame × List UInt8)
  | b1 :: b2 :: bytes =>
      if b1.toNat / 16 % 8 ≠ 0 ∨ 128 ≤ b2.toNat then none
      else
        (readLength b2.toNat bytes).bind
          fun (length, bytes) =>
            if bytes.length < length then none
            else
              some
                (⟨128 ≤ b1.toNat, b1.toNat % 16,
                    bytes.take length⟩,
                  bytes.drop length)
  | _ => none

/- The arguments of `sendMessage`; an array counts in `Int`. -/
structure Message where
  fin : Bool
  opcode : SocketOpcode
  data : List UInt8
  length_lt : data.length < 2 ^ 63

/- What `sendMessage` makes of its arguments. -/
def Message.bytes (message : Message) : List UInt8 :=
  BRWebSocketImpl.messageBytes message.fin message.opcode
    message.data

/- The final frame is the one sent with `fin` false. -/
def Message.wire (message : Message) : WireFrame :=
  ⟨!message.fin, message.opcode.rawValue.toNat, message.data⟩

/- The first byte, as `sendMessage` puts it together. -/
theorem readFrame_of_readLength
    (fin : Bool)
    (opcode : SocketOpcode)
    {b2 : UInt8}
    {bytes data rest : List UInt8}
    (hMask : b2.toNat < 128)
    (hLength :
      readLength b2.toNat bytes =
        some (data.length, data ++ rest)) :
    readFrame
        (((if fin then 0 else 0x80) ||| opcode.rawValue) ::
          b2 :: bytes) =
      some (⟨!fin, opcode.rawValue.toNat, data⟩, rest) := by
  have hReserved :
      ((if fin then (0 : UInt8) else 0x80) |||
          opcode.rawValue).toNat / 16 % 8 = 0 := by
    cases fin <;> cases opcode <;> rfl
  have hFinal :
      decide
          (128 ≤ ((if fin then (0 : UInt8) else 0x80) |||
            opcode.rawValue).toNat) = !fin := by
    cases fin <;> cases opcode <;> rfl
  have hOpcode :
      ((if fin then (0 : UInt8) else 0x80) |||
          opcode.rawValue).toNat % 16 =
        opcode.rawValue.toNat := by
    cases fin <;> cases opcode <;> rfl
  have hEnough : ¬ (data ++ rest).length < data.length := by
    rw [List.length_append]
    omega
  generalize ((if fin then (0 : UInt8) else 0x80) |||
    opcode.rawValue) = b1 at hReserved hFinal hOpcode ⊢
  have hPlain : ¬ (b1.toNat / 16 % 8 ≠ 0 ∨ 128 ≤ b2.toNat) := by
    omega
  change (if _ then _ else _) = _
  rw [if_neg hPlain, hLength, Option.bind_some, hFinal, hOpcode]
  dsimp only
  rw [if_neg hEnough, List.take_left, List.drop_left]

/- A length that stands in bytes of its own. -/
theorem take_bigEndian
    (width number : Nat)
    (bytes : List UInt8) :
    (bigEndian width number ++ bytes).take width =
        bigEndian width number ∧
      (bigEndian width number ++ bytes).drop width = bytes := by
  have hLength := length_bigEndian width number
  exact ⟨List.take_left' hLength, List.drop_left' hLength⟩

theorem readLength_short
    {length : Nat}
    (hLength : 125 < length ∧ length ≤ 65535)
    (bytes : List UInt8) :
    readLength 126 (bigEndian 2 length ++ bytes) =
      some (length, bytes) := by
  have hNumber : ofBigEndian (bigEndian 2 length) = length :=
    ofBigEndian_bigEndian 2 (by omega)
  unfold readLength
  rw [if_neg (by decide), if_pos rfl]
  dsimp only
  rw [(take_bigEndian 2 length bytes).1,
    (take_bigEndian 2 length bytes).2, hNumber, if_neg]
  rw [List.length_append, length_bigEndian]
  omega

theorem readLength_long
    {length : Nat}
    (hLength : 65535 < length ∧ length < 2 ^ 63)
    (bytes : List UInt8) :
    readLength 127 (bigEndian 8 length ++ bytes) =
      some (length, bytes) := by
  have hNumber : ofBigEndian (bigEndian 8 length) = length :=
    ofBigEndian_bigEndian 8 (by omega)
  unfold readLength
  rw [if_neg (by decide), if_neg (by decide)]
  dsimp only
  rw [(take_bigEndian 8 length bytes).1,
    (take_bigEndian 8 length bytes).2, hNumber, if_neg]
  rw [List.length_append, length_bigEndian]
  omega

/- Every length of payload gives a frame that reads back. -/
theorem readFrame_bytes (message : Message) (rest : List UInt8) :
    readFrame (message.bytes ++ rest) =
      some (message.wire, rest) := by
  rcases message with ⟨fin, opcode, data, hLength⟩
  unfold Message.bytes BRWebSocketImpl.messageBytes Message.wire
  dsimp only
  by_cases hHeader : data.length ≤ 125
  · have hByte :
        (UInt8.ofNat data.length).toNat = data.length := by
      rw [UInt8.toNat_ofNat']
      omega
    have hMask : (UInt8.ofNat data.length).toNat < 128 := by
      omega
    rw [if_pos hHeader]
    refine readFrame_of_readLength fin opcode hMask ?_
    rw [hByte, readLength, if_pos hHeader]
    rfl
  · rw [if_neg hHeader]
    by_cases hShort : data.length ≤ 65535
    · rw [if_pos hShort, List.cons_append, List.cons_append,
        List.cons_append, List.cons_append,
        List.append_assoc]
      refine readFrame_of_readLength fin opcode (by decide) ?_
      exact
        readLength_short ⟨by omega, hShort⟩ (data ++ rest)
    · rw [if_neg hShort, List.cons_append, List.cons_append,
        List.cons_append, List.cons_append,
        List.append_assoc]
      refine readFrame_of_readLength fin opcode (by decide) ?_
      exact readLength_long ⟨by omega, hLength⟩ (data ++ rest)

------------------------------------------------------------
-- One Buffer
------------------------------------------------------------

/-
  What a socket answers to `send`: it takes some of the bytes,
  or its buffer is full.
-/
inductive Report where
  | accepted (count : Nat) (positive : 0 < count)
  | full

/- The result of `send`; the reason for -1 goes to `errno`. -/
def Report.result : Report → Int
  | .accepted count _ => count
  | .full => -1

/- `EWOULDBLOCK` -/
def EWOULDBLOCK : Int := 35

/- `EAGAIN` -/
def EAGAIN : Int := 35

/- How `sendBuffer` ends, and how much is sent by then. -/
structure Sending where
  sent : Nat
  thrown : Bool
deriving DecidableEq

/-
  The loop of `sendBuffer`, over what the socket reports.  Where
  it would take more than it is given, or the reports are not
  as many as the calls, there is no such run.
-/
def sendLoop (count : Nat) : Nat → List Report → Option Sending
  | sent, [] =>
      if sent < count then none else some ⟨sent, false⟩
  | sent, report :: reports =>
      let s := report.result
      if count ≤ sent then none
      else if s ≤ 0 then
        if reports.isEmpty then
          let serr := s
          some ⟨sent, !(serr = EWOULDBLOCK || serr = EAGAIN)⟩
        else none
      else if count < sent + s.toNat then none
      else sendLoop count (sent + s.toNat) reports

/- `sendBuffer` -/
def sendBuffer
    (buffer : List UInt8)
    (reports : List Report) : Option Sending :=
  sendLoop buffer.length 0 reports

/- Without a full buffer the loop sends everything. -/
theorem sendLoop_of_accepted
    {count sent : Nat}
    {reports : List Report}
    (hSent : sent ≤ count)
    (hAccepted : Report.full ∉ reports)
    {sending : Sending}
    (hLoop : sendLoop count sent reports = some sending) :
    sending = ⟨count, false⟩ := by
  induction reports generalizing sent with
  | nil =>
      unfold sendLoop at hLoop
      split_ifs at hLoop with hLess
      rw [← Option.some.inj hLoop,
        Nat.le_antisymm hSent (Nat.le_of_not_lt hLess)]
  | cons report reports ih =>
      rw [List.mem_cons, not_or] at hAccepted
      rcases hAccepted with ⟨hHead, hTail⟩
      cases report with
      | full => exact absurd rfl hHead
      | accepted more hPositive =>
          unfold sendLoop Report.result at hLoop
          dsimp only at hLoop
          rw [Int.toNat_natCast] at hLoop
          split_ifs at hLoop
          · omega
          · exact ih (by omega) hTail hLoop

/- A full buffer is taken for an error. -/
theorem sendLoop_of_full
    {count sent : Nat}
    {reports : List Report}
    (hFull : Report.full ∈ reports)
    {sending : Sending}
    (hLoop : sendLoop count sent reports = some sending) :
    sending.thrown = true ∧ sending.sent < count := by
  induction reports generalizing sent with
  | nil => cases hFull
  | cons report reports ih =>
      cases report with
      | full =>
          unfold sendLoop Report.result at hLoop
          dsimp only at hLoop
          split_ifs at hLoop with hEnd
          · rw [← Option.some.inj hLoop]
            exact ⟨rfl, Nat.lt_of_not_le hEnd⟩
          · omega
      | accepted more hPositive =>
          unfold sendLoop Report.result at hLoop
          dsimp only at hLoop
          rw [Int.toNat_natCast] at hLoop
          split_ifs at hLoop
          · omega
          · exact
              ih
                (List.mem_of_ne_of_mem (by simp) hFull)
                hLoop

/- A call that returns has sent all that it was given. -/
theorem sent_of_not_thrown
    {buffer : List UInt8}
    {reports : List Report}
    {sending : Sending}
    (hSend : sendBuffer buffer reports = some sending)
    (hThrown : sending.thrown = false) :
    sending.sent = buffer.length := by
  by_cases hFull : Report.full ∈ reports
  · rw [(sendLoop_of_full hFull hSend).1] at hThrown
    cases hThrown
  · rw [sendLoop_of_accepted (Nat.zero_le _) hFull hSend]

------------------------------------------------------------
-- The Server
------------------------------------------------------------

section

variable {Fd : Type} [DecidableEq Fd]

/-
  `BRWebSocketServer` with its sockets; those of `served` are in
  its dictionary.  `written` are the bytes on each connection,
  and `queued` the messages given to `sendMessage`, which the
  code does not keep.  A `break` ends the round.
-/
structure BRWebSocketServer (Fd : Type) where
  sockets : Fd → BRWebSocketImpl
  served : Fd → Bool
  roundOver : Bool
  written : Fd → List UInt8
  queued : Fd → List Message

/- Every socket was added, and none has anything to send. -/
def BRWebSocketServer.init : BRWebSocketServer Fd where
  sockets := fun _ => .new
  served := fun _ => true
  roundOver := false
  written := fun _ => []
  queued := fun _ => []

inductive Action (Fd : Type) where
  | sendMessage (fd : Fd) (message : Message)
  | select
  | write (fd : Fd) (reports : List Report)

/- `sendMessage` on the socket of a descriptor -/
def sendMessage
    (server : BRWebSocketServer Fd)
    (fd : Fd)
    (message : Message) : BRWebSocketServer Fd :=
  { server with
    sockets :=
      Function.update server.sockets fd
        ((server.sockets fd).sendMessage message.fin
          message.opcode message.data)
    queued :=
      Function.update server.queued fd
        (server.queued fd ++ [message]) }

/- `sockets.removeValue(forKey: fd)` -/
def removeValue
    (server : BRWebSocketServer Fd)
    (fd : Fd) : BRWebSocketServer Fd :=
  { server with served := Function.update server.served fd false }

/- The socket has sent so much of the entry it has taken out. -/
def putOut
    (server : BRWebSocketServer Fd)
    (fd : Fd)
    (sendq : List (SocketOpcode × List UInt8))
    (bytes : List UInt8) : BRWebSocketServer Fd :=
  { server with
    sockets :=
      Function.update server.sockets fd
        { server.sockets fd with sendq := sendq }
    written :=
      Function.update server.written fd
        (server.written fd ++ bytes) }

/-
  One writer of a round.  The select names sockets that have
  something to send.
-/
def write
    (server : BRWebSocketServer Fd)
    (fd : Fd)
    (reports : List Report) : Option (BRWebSocketServer Fd) :=
  if server.roundOver then none
  else if server.served fd then
    match (server.sockets fd).sendq with
    | [] => none
    | (opcode, payload) :: sendq =>
        (sendBuffer payload reports).bind fun sending =>
          let server :=
            putOut server fd sendq (payload.take sending.sent)
          if sending.thrown then some (removeValue server fd)
          else if sending.sent ≠ payload.length then
            if sending.sent = 0 then none
            else
              let remaining := payload.drop (sending.sent - 1)
              some
                { putOut server fd
                    ((opcode, remaining) :: sendq) [] with
                  roundOver := true }
          else if opcode = .close then
            some (removeValue server fd)
          else some server
  else if reports.isEmpty then some server
  else none

/- Messages come at any time, also within a round. -/
def step
    (server : BRWebSocketServer Fd) :
    Action Fd → Option (BRWebSocketServer Fd)
  | .sendMessage fd message =>
      some (sendMessage server fd message)
  | .select => some { server with roundOver := false }
  | .write fd reports => write server fd reports

/- No socket reports a full buffer. -/
def Accepts : BRWebSocketServer Fd → Action Fd → Prop
  | _, .write _ reports => Report.full ∉ reports
  | _, _ => True

/- The frames of some messages, one behind the other. -/
def stream (messages : List Message) : List UInt8 :=
  (messages.map Message.bytes).flatten

/-
  What is written and what is still queued are the frames of
  the messages, which the client can read; and a connection is
  only closed behind a close frame.
-/
structure KeepsStream (server : BRWebSocketServer Fd) :
    Prop where
  whole :
    ∀ fd,
      server.written fd ++
          ((server.sockets fd).sendq.map Prod.snd).flatten =
        stream (server.queued fd)
  readable :
    ∀ fd, ∀ message ∈ server.queued fd, ∀ rest,
      readFrame (message.bytes ++ rest) =
        some (message.wire, rest)
  kept :
    ∀ fd, server.served fd = false →
      ∃ front message,
        front ++ [message] <+: server.queued fd ∧
          message.opcode = .close ∧
            server.written fd = stream (front ++ [message])

------------------------------------------------------------
-- Runs
------------------------------------------------------------

/-
  Some messages are sent and the others queued; behind a close
  frame nothing is sent.
-/
def Sound (server : BRWebSocketServer Fd) : Prop :=
  ∀ fd, ∃ sent pending,
    server.queued fd = sent ++ pending ∧
      (server.sockets fd).sendq =
        pending.map (fun message =>
          (message.opcode, message.bytes)) ∧
      server.written fd = stream sent ∧
      (server.served fd = false →
        ∃ front message,
          sent = front ++ [message] ∧
            message.opcode = .close)

theorem stream_append (messages other : List Message) :
    stream (messages ++ other) =
      stream messages ++ stream other := by
  rw [stream, List.map_append, List.flatten_append]
  rfl

omit [DecidableEq Fd] in
theorem keepsStream_of_sound
    (server : BRWebSocketServer Fd)
    (hSound : Sound server) :
    KeepsStream server where
  whole := by
    intro fd
    rcases hSound fd with
      ⟨sent, pending, hQueued, hSendq, hWritten, -⟩
    rw [hQueued, hSendq, hWritten, stream_append,
      List.map_map]
    rfl
  readable := fun _ message _ rest => readFrame_bytes message rest
  kept := by
    intro fd hServed
    rcases hSound fd with
      ⟨sent, pending, hQueued, -, hWritten, hClosed⟩
    rcases hClosed hServed with ⟨front, message, hSent, hClose⟩
    refine ⟨front, message, ?_, hClose, ?_⟩
    · rw [hQueued, ← hSent]
      exact List.prefix_append sent pending
    · rw [hWritten, hSent]

omit [DecidableEq Fd] in
theorem sound_init : Sound (.init : BRWebSocketServer Fd) :=
  fun _ => ⟨[], [], rfl, rfl, rfl, fun hServed => by cases hServed⟩

theorem sound_sendMessage
    {server : BRWebSocketServer Fd}
    (hSound : Sound server)
    (fd : Fd)
    (message : Message) :
    Sound (sendMessage server fd message) := by
  intro other
  rcases hSound other with
    ⟨sent, pending, hQueued, hSendq, hWritten, hClosed⟩
  by_cases hFd : other = fd
  · subst hFd
    refine ⟨sent, pending ++ [message], ?_, ?_, hWritten, hClosed⟩
    · simp only [sendMessage, Function.update_self, hQueued,
        List.append_assoc]
    · simp only [sendMessage, Function.update_self,
        BRWebSocketImpl.sendMessage, hSendq, List.map_append]
      rfl
  · refine ⟨sent, pending, ?_, ?_, hWritten, hClosed⟩
    · simp only [sendMessage, Function.update_of_ne hFd,
        hQueued]
    · simp only [sendMessage, Function.update_of_ne hFd,
        hSendq]

/- The first entry of a queue goes out as a whole. -/
theorem sound_putOut
    {server : BRWebSocketServer Fd}
    (hSound : Sound server)
    {fd : Fd}
    {opcode : SocketOpcode}
    {payload : List UInt8}
    {sendq : List (SocketOpcode × List UInt8)}
    (hServed : server.served fd = true)
    (hSendq :
      (server.sockets fd).sendq = (opcode, payload) :: sendq) :
    Sound (putOut server fd sendq payload) ∧
      (opcode = .close →
        Sound (removeValue (putOut server fd sendq payload)
          fd)) := by
  rcases hSound fd with
    ⟨sent, pending, hQueued, hPending, hWritten, -⟩
  rw [hSendq] at hPending
  rcases pending with _ | ⟨message, pending⟩
  · cases hPending
  · rw [List.map_cons, List.cons.injEq,
      Prod.mk.injEq] at hPending
    rcases hPending with ⟨⟨rfl, rfl⟩, hRest⟩
    have hOut :
        server.written fd ++ message.bytes =
          stream (sent ++ [message]) := by
      rw [hWritten, stream_append]
      exact congrArg (stream sent ++ ·)
        (List.append_nil _).symm
    have hSplit :
        server.queued fd = (sent ++ [message]) ++ pending := by
      rw [hQueued, List.append_assoc, List.singleton_append]
    constructor
    · intro other
      by_cases hFd : other = fd
      · subst hFd
        refine ⟨sent ++ [message], pending, hSplit, ?_, ?_, ?_⟩
        · simp only [putOut, Function.update_self, hRest]
        · simp only [putOut, Function.update_self, hOut]
        · intro hNot
          exact absurd (hServed.symm.trans hNot) (by decide)
      · simp only [putOut, Function.update_of_ne hFd]
        exact hSound other
    · intro hClose other
      by_cases hFd : other = fd
      · subst hFd
        refine ⟨sent ++ [message], pending, hSplit, ?_, ?_, ?_⟩
        · simp only [removeValue, putOut, Function.update_self,
            hRest]
        · simp only [removeValue, putOut, Function.update_self,
            hOut]
        · exact fun _ => ⟨sent, message, rfl, hClose⟩
      · simp only [removeValue, putOut,
          Function.update_of_ne hFd]
        exact hSound other

theorem sound_step
    (server : BRWebSocketServer Fd)
    (action : Action Fd)
    (next : BRWebSocketServer Fd)
    (hSound : Sound server)
    (hAccepts : Accepts server action)
    (hStep : step server action = some next) :
    Sound next := by
  cases action with
  | sendMessage fd message =>
      rw [← Option.some.inj hStep]
      exact sound_sendMessage hSound fd message
  | select =>
      rw [← Option.some.inj hStep]
      exact hSound
  | write fd reports =>
      unfold step write at hStep
      dsimp only at hStep
      split_ifs at hStep with hOver hServed hEmpty
      · split at hStep
        · cases hStep
        · rename_i opcode payload sendq hSendq
          rcases Option.bind_eq_some_iff.mp hStep with
            ⟨sending, hSend, hNext⟩
          have hAll :=
            sendLoop_of_accepted (Nat.zero_le _) hAccepts hSend
          subst hAll
          have hKept := sound_putOut hSound hServed hSendq
          dsimp only at hNext
          rw [if_neg Bool.false_ne_true, if_neg (by simp),
            List.take_length] at hNext
          split_ifs at hNext with hClose
          · rw [← Option.some.inj hNext]
            exact hKept.2 hClose
          · rw [← Option.some.inj hNext]
            exact hKept.1
      · rw [← Option.some.inj hStep]
        exact hSound

/- A full buffer costs the rest of a frame. -/
theorem not_keepsStream_of_full
    (server : BRWebSocketServer Fd)
    (action : Action Fd)
    (next : BRWebSocketServer Fd)
    (hSound : Sound server)
    (hAccepts : ¬ Accepts server action)
    (hStep : step server action = some next) :
    ¬ KeepsStream next := by
  cases action with
  | sendMessage fd message => exact absurd trivial hAccepts
  | select => exact absurd trivial hAccepts
  | write fd reports =>
      have hFull : Report.full ∈ reports :=
        not_not.mp hAccepts
      unfold step write at hStep
      dsimp only at hStep
      split_ifs at hStep with hOver hServed hEmpty
      · split at hStep
        · cases hStep
        · rename_i opcode payload sendq hSendq
          rcases Option.bind_eq_some_iff.mp hStep with
            ⟨sending, hSend, hNext⟩
          rcases sendLoop_of_full hFull hSend with
            ⟨hThrown, hShort⟩
          rw [if_pos hThrown] at hNext
          intro hKeeps
          have hBefore :=
            (keepsStream_of_sound server hSound).whole fd
          have hAfter := hKeeps.whole fd
          rw [← Option.some.inj hNext] at hAfter
          simp only [removeValue, putOut,
            Function.update_self] at hAfter
          rw [hSendq] at hBefore
          have hLengths :=
            congrArg List.length (hAfter.trans hBefore.symm)
          simp only [List.length_append, List.length_take,
            List.map_cons, List.flatten_cons] at hLengths
          omega
      · rw [List.isEmpty_iff.mp hEmpty] at hFull
        cases hFull

/-
  A run keeps the streams of all its sockets if and only if no
  full buffer is reported in it.
-/
theorem keepsStream_iff
    {actions : List (Action Fd)}
    {final : BRWebSocketServer Fd}
    (hRun : run step .init actions = some final) :
    Throughout step KeepsStream .init actions ↔
      Meets step Accepts .init actions :=
  @throughout_iff_meets_of_lost _ _ step Accepts KeepsStream
    Sound (fun _ => False) keepsStream_of_sound sound_step
    (fun server action next hSound hAccepts hStep =>
      Or.inl
        (not_keepsStream_of_full server action next hSound
          hAccepts hStep))
    (fun _ _ _ hLost _ => hLost) _ _ sound_init _ hRun
    False.elim

end

/- Three bytes that go out in two portions. -/
def pingMessage : Message :=
  ⟨false, .ping, [7], by decide⟩

def portions : List (Action Nat) :=
  [.sendMessage 4 pingMessage, .select,
    .write 4
      [.accepted 1 (by decide), .accepted 2 (by decide)]]

theorem keepsStream_iff_portions :
    Throughout step KeepsStream .init portions := by
  apply (keepsStream_iff rfl).mpr
  refine ⟨trivial, ?_⟩
  rintro _ ⟨⟩
  refine ⟨trivial, ?_⟩
  rintro _ ⟨⟩
  refine ⟨?_, fun _ _ => trivial⟩
  intro hFull
  rcases List.mem_cons.mp hFull with hFirst | hFull
  · cases hFirst
  · cases List.mem_singleton.mp hFull

/- One byte goes out, and then the buffer is full. -/
def fullRun : List (Action Nat) :=
  [.sendMessage 4 pingMessage, .select,
    .write 4 [.accepted 1 (by decide), .full]]

theorem not_keepsStream :
    ¬ ∀ actions : List (Action Nat),
      Throughout step KeepsStream .init actions := by
  intro hAll
  have hWhole := ((hAll fullRun).last rfl).whole 4
  exact absurd hWhole (by decide)

end WebSocketSending

end PlusWallet
