import PlusWallet.Platform.BRWebSocket

/-
  One frame of a client, byte by byte: the parser loads the
  packet that was sent, unless it waits for ever in the
  header of a ping or at the key of a mask.

  Main declarations:
    * `Frame`, `Frame.bytes`
    * `Loads`, `handleRead_frame`
    * `Stuck`, `stuck_handleRead`, `stuck_frame`
-/

namespace PlusWallet

open Bytes

------------------------------------------------------------
-- Frames
------------------------------------------------------------

/- The three ways to write the length of a payload. -/
inductive LengthForm where
  | header
  | short
  | long
deriving DecidableEq

/- The bytes of the length behind the header. -/
def LengthForm.width : LengthForm → Nat
  | .header => 0
  | .short => 2
  | .long => 8

def LengthForm.Fits (form : LengthForm) (length : Nat) : Prop :=
  match form with
  | .header => length ≤ 125
  | .short => length < 2 ^ 16
  | .long => length < 2 ^ 63

/- What stands in the header for a length. -/
def LengthForm.code (form : LengthForm) (length : Nat) : Nat :=
  match form with
  | .header => length
  | .short => 126
  | .long => 127

/- A frame of a client, masked with a key or not masked. -/
structure Frame where
  fin : Bool
  opcode : SocketOpcode
  key : Option (Vector UInt8 4)
  form : LengthForm
  payload : List UInt8
  fits : form.Fits payload.length
  bounded : payload.length < MAXPAYLOAD

/- A byte of a payload, with its byte of the key if any. -/
def maskByte
    (key : Option (Vector UInt8 4))
    (index : Nat)
    (byte : UInt8) : UInt8 :=
  match key with
  | none => byte
  | some key => byte ^^^ key[index % 4]

/- The bytes of a payload, from some place on. -/
def maskedFrom
    (key : Option (Vector UInt8 4)) :
    Nat → List UInt8 → List UInt8
  | _, [] => []
  | index, byte :: bytes =>
      maskByte key index byte ::
        maskedFrom key (index + 1) bytes

namespace Frame

def firstByte (frame : Frame) : UInt8 :=
  (if frame.fin then 0x80 else 0) ||| frame.opcode.rawValue

def secondByte (frame : Frame) : UInt8 :=
  (if frame.key.isSome then 0x80 else 0) |||
    UInt8.ofNat (frame.form.code frame.payload.length)

def lengthBytes (frame : Frame) : List UInt8 :=
  bigEndian frame.form.width frame.payload.length

def keyBytes (frame : Frame) : List UInt8 :=
  match frame.key with
  | none => []
  | some key => key.toList

/- The frame as the client writes it. -/
def bytes (frame : Frame) : List UInt8 :=
  frame.firstByte :: frame.secondByte ::
    (frame.lengthBytes ++ frame.keyBytes ++
      maskedFrom frame.key 0 frame.payload)

/- The width of the last length that had bytes of its own. -/
def widthAfter (frame : Frame) (width : Nat) : Nat :=
  if frame.form = .header then width else frame.form.width

------------------------------------------------------------
-- Bits of a Header
------------------------------------------------------------

theorem fin_firstByte (frame : Frame) :
    frame.firstByte &&& 0x80 =
      if frame.fin then 0x80 else 0 := by
  unfold firstByte
  cases frame.fin <;> cases frame.opcode <;> decide

theorem opcode_firstByte (frame : Frame) :
    SocketOpcode.ofRawValue (frame.firstByte &&& 0x0F) =
      some frame.opcode := by
  unfold firstByte
  cases frame.fin <;> cases frame.opcode <;> decide

theorem code_lt
    (frame : Frame) :
    frame.form.code frame.payload.length < 128 := by
  have hFits := frame.fits
  unfold LengthForm.Fits at hFits
  unfold LengthForm.code
  cases hForm : frame.form with
  | header =>
      simp only [hForm] at hFits ⊢
      omega
  | short => exact show 126 < 128 by decide
  | long => exact show 127 < 128 by decide

theorem flag_or_and
    (flag : Bool) :
    ∀ code < 128,
      ((if flag then 0x80 else 0) ||| UInt8.ofNat code) &&&
          0x80 = (if flag then 0x80 else 0) ∧
        ((if flag then 0x80 else 0) ||| UInt8.ofNat code) &&&
          0x7F = UInt8.ofNat code := by
  cases flag <;> decide +kernel

theorem mask_secondByte (frame : Frame) :
    decide (frame.secondByte &&& 0x80 = 128) =
      frame.key.isSome := by
  unfold secondByte
  rw [(flag_or_and _ _ frame.code_lt).1]
  cases frame.key.isSome <;> decide

theorem length_secondByte (frame : Frame) :
    frame.secondByte &&& 0x7F =
      UInt8.ofNat (frame.form.code frame.payload.length) := by
  unfold secondByte
  exact (flag_or_and _ _ frame.code_lt).2

end Frame

namespace BRWebSocketImpl

------------------------------------------------------------
-- Reading
------------------------------------------------------------

@[simp]
theorem handleRead_nil
    (socket : BRWebSocketImpl) :
    socket.handleRead [] = some socket := rfl

@[simp]
theorem handleRead_cons
    (socket : BRWebSocketImpl)
    (byte : UInt8)
    (bytes : List UInt8) :
    socket.handleRead (byte :: bytes) =
      (socket.parseMessage byte).bind fun next =>
        next.handleRead bytes := rfl

theorem parseMessage_of_state
    {socket : BRWebSocketImpl}
    {state : SocketState}
    {byte : UInt8} :
    socket.state = state →
      socket.parseMessage byte =
        match state with
        | .headerb1 => some (socket.parseHeaderb1 byte)
        | .headerb2 => some (socket.parseHeaderb2 byte)
        | .lengthshort => socket.parseLength 2 byte
        | .lengthlong => socket.parseLength 8 byte
        | .mask => socket.parseMask byte
        | .payload => socket.parsePayload byte := by
  intro hState
  unfold parseMessage
  cases state <;> rw [hState]

theorem handleRead_append
    (socket : BRWebSocketImpl)
    (bytes others : List UInt8) :
    socket.handleRead (bytes ++ others) =
      (socket.handleRead bytes).bind fun next =>
        next.handleRead others :=
  List.foldlM_append

/- How the bytes are divided does not matter. -/
theorem handleReads_eq
    (socket : BRWebSocketImpl)
    (reads : List (List UInt8)) :
    socket.handleReads reads =
      socket.handleRead reads.flatten := by
  induction reads generalizing socket with
  | nil => rfl
  | cons read reads ih =>
      rw [List.flatten_cons, handleRead_append]
      exact congrArg _ (funext ih)

/- The next free place of an array is written. -/
theorem assign_append
    (done zeros : List UInt8)
    (zero byte : UInt8) :
    assign (done ++ zero :: zeros) done.length byte =
      some (done ++ byte :: zeros) := by
  unfold assign
  rw [if_pos (by simp), List.set_append_right _ _ le_rfl]
  simp

------------------------------------------------------------
-- Lengths
------------------------------------------------------------

theorem parseLength_append
    (socket : BRWebSocketImpl)
    (done zeros : List UInt8)
    (zero byte : UInt8)
    (hArray : socket.lengtharray = done ++ zero :: zeros)
    (hWritten : socket.lengtharrayWritten = done.length) :
    socket.parseLength (done.length + 1 + zeros.length) byte =
      let next :=
        { socket with
          lengtharray := done ++ byte :: zeros
          lengtharrayWritten := done.length + 1 }
      if zeros = [] then
        if 2 ^ 63 ≤ ofBigEndian next.lengtharray then none
        else
          some
            { next with
              length :=
                ofBigEndian next.lengtharray }.expectMask
      else some next := by
  unfold parseLength
  dsimp only
  rw [hWritten, hArray, if_neg (by omega),
    Nat.add_sub_cancel, assign_append, Option.bind_some]
  by_cases hLast : zeros = []
  · rw [if_pos hLast, if_pos (by simp [hLast])]
  · have hRest := List.length_pos_iff.mpr hLast
    rw [if_neg hLast, if_neg (by omega)]

/- The bytes of a length, from some place on. -/
theorem handleRead_length
    (state : SocketState)
    (width : Nat)
    (hParse :
      ∀ (socket : BRWebSocketImpl) (byte : UInt8),
        socket.state = state →
          socket.parseMessage byte =
            socket.parseLength width byte)
    (rest : List UInt8)
    (hRest : rest ≠ []) :
    ∀ (socket : BRWebSocketImpl) (done : List UInt8),
      socket.state = state →
      socket.lengtharray =
        done ++ List.replicate rest.length 0 →
      socket.lengtharrayWritten = done.length →
      width = done.length + rest.length →
      ofBigEndian (done ++ rest) < 2 ^ 63 →
      socket.handleRead rest =
        some
          { socket with
            lengtharray := done ++ rest
            lengtharrayWritten := width
            length := ofBigEndian (done ++ rest) }.expectMask
            := by
  induction rest with
  | nil => exact absurd rfl hRest
  | cons byte rest ih =>
      intro socket done hState hArray hWritten hWidth hFits
      rw [List.length_cons] at hWidth
      rw [List.length_cons, List.replicate_succ] at hArray
      have hStep :=
        parseLength_append socket done _ 0 byte hArray hWritten
      rw [List.length_replicate, Nat.add_assoc,
        Nat.add_comm 1, ← hWidth] at hStep
      rw [handleRead_cons, hParse socket byte hState, hStep]
      dsimp only
      cases rest with
      | nil =>
          rw [List.length_nil, List.replicate_zero, if_pos rfl,
            if_neg (Nat.not_le_of_lt hFits)]
          simp only [Option.bind_some, handleRead_nil]
          rw [hWidth, List.length_nil]
      | cons other rest =>
          rw [if_neg (by simp), Option.bind_some,
            ih (List.cons_ne_nil _ _) _ (done ++ [byte])]
          · simp
          · exact hState
          · simp
          · simp
          · simp only [List.length_append, List.length_cons,
              List.length_nil] at hWidth ⊢
            omega
          · simpa using hFits

------------------------------------------------------------
-- Keys and Payloads
------------------------------------------------------------

/- The bytes of a key, from some place on. -/
theorem handleRead_key
    (rest : List UInt8)
    (hRest : rest ≠ []) :
    ∀ (socket : BRWebSocketImpl) (done : List UInt8),
      socket.state = .mask →
      socket.lengtharrayWritten ≤ 4 →
      socket.maskarray =
        done ++ List.replicate rest.length 0 →
      socket.maskarrayWritten = done.length →
      done.length + rest.length = 4 →
      socket.handleRead rest =
        some
          { socket with
            maskarray := done ++ rest
            maskarrayWritten := 4 }.expectPayload := by
  induction rest with
  | nil => exact absurd rfl hRest
  | cons byte rest ih =>
      intro socket done hState hLength hArray hWritten hSize
      rw [List.length_cons] at hSize
      rw [List.length_cons, List.replicate_succ] at hArray
      rw [handleRead_cons, parseMessage_of_state hState]
      unfold parseMask
      dsimp only
      rw [if_neg (Nat.not_lt_of_le hLength), hWritten, hArray,
        Nat.add_sub_cancel, assign_append, Option.bind_some]
      cases rest with
      | nil =>
          rw [List.length_nil] at hSize
          rw [if_pos (by omega)]
          simp [show done.length + 1 = 4 by omega]
      | cons other rest =>
          rw [List.length_cons] at hSize
          rw [if_neg (by omega), Option.bind_some,
            ih (List.cons_ne_nil _ _) _ (done ++ [byte])]
          · simp
          · exact hState
          · exact hLength
          · simp
          · simp
          · simp only [List.length_append, List.length_cons,
              List.length_nil]
            omega

/- The parser knows the key that the client used. -/
def Knows
    (socket : BRWebSocketImpl)
    (key : Option (Vector UInt8 4)) : Prop :=
  match key with
  | none => socket.hasMask = false
  | some key =>
      socket.hasMask = true ∧ socket.maskarray = key.toList

/- With the key the parser gets the byte that was meant. -/
theorem Knows.plain
    {socket : BRWebSocketImpl}
    {key : Option (Vector UInt8 4)}
    (hKnows : socket.Knows key)
    (index : Nat)
    (byte : UInt8) :
    (if socket.hasMask then
      (socket.maskarray[index % 4]?).map
        fun mask => maskByte key index byte ^^^ mask
      else some (maskByte key index byte)) = some byte := by
  cases key with
  | none =>
      have hPlain : socket.hasMask = false := hKnows
      rw [hPlain]
      rfl
  | some key =>
      rcases hKnows with ⟨hMask, hArray⟩
      have hIndex : index % 4 < 4 := Nat.mod_lt _ (by decide)
      have hByte :
          key.toList[index % 4]? = some key[index % 4] := by
        simp [hIndex]
      rw [if_pos hMask, hArray, hByte, Option.map_some]
      simp [maskByte]

/- The bytes of a payload, from some place on. -/
theorem handleRead_payload
    (key : Option (Vector UInt8 4))
    (rest : List UInt8)
    (hRest : rest ≠ []) :
    ∀ (socket : BRWebSocketImpl) (done : List UInt8),
      socket.state = .payload →
      socket.Knows key →
      socket.data = done ++ List.replicate rest.length 0 →
      socket.dataWritten = done.length →
      socket.index = done.length →
      socket.length = done.length + rest.length →
      socket.length < MAXPAYLOAD →
      socket.handleRead (maskedFrom key done.length rest) =
        some
          { socket with
            data := done ++ rest
            dataWritten := socket.length
            index := socket.length - 1 }.packetDone := by
  induction rest with
  | nil => exact absurd rfl hRest
  | cons byte rest ih =>
      intro socket done hState hKnows hArray hWritten hIndex
        hLength hBounded
      rw [List.length_cons] at hLength
      rw [List.length_cons, List.replicate_succ] at hArray
      have hPlain := hKnows.plain done.length byte
      rw [maskedFrom, handleRead_cons,
        parseMessage_of_state hState]
      unfold parsePayload
      dsimp only
      rw [if_neg (by omega), hIndex, hPlain, Option.bind_some,
        hWritten, hArray, Nat.add_sub_cancel, assign_append,
        Option.bind_some]
      cases rest with
      | nil =>
          rw [List.length_nil] at hLength
          rw [if_pos (by omega)]
          simp [hLength, maskedFrom]
      | cons other rest =>
          rw [List.length_cons] at hLength
          have hNext := ih (List.cons_ne_nil _ _)
            { socket with
              data := done ++ byte ::
                List.replicate (rest.length + 1) 0
              dataWritten := done.length + 1
              index := done.length + 1 } (done ++ [byte])
            hState hKnows (by simp) (by simp) (by simp)
            (by
              simp only [List.length_append, List.length_cons,
                List.length_nil]
              omega)
            hBounded
          rw [if_neg (by omega), Option.bind_some]
          simpa using hNext

------------------------------------------------------------
-- Headers
------------------------------------------------------------

/- The parser after the first byte of a frame. -/
def begun
    (socket : BRWebSocketImpl)
    (frame : Frame) : BRWebSocketImpl :=
  { socket with
    fin := if frame.fin then 0x80 else 0
    opcode := frame.opcode
    state := .headerb2
    index := 0
    length := 0 }

theorem parseMessage_firstByte
    {socket : BRWebSocketImpl}
    (hState : socket.state = .headerb1)
    (frame : Frame) :
    socket.parseMessage frame.firstByte =
      some (socket.begun frame) := by
  rw [parseMessage_of_state hState]
  unfold parseHeaderb1
  dsimp only
  rw [frame.opcode_firstByte, frame.fin_firstByte]
  rfl

/- The parser when it knows the length of a frame. -/
def measured
    (socket : BRWebSocketImpl)
    (frame : Frame) : BRWebSocketImpl :=
  let socket :=
    { socket.begun frame with
      hasMask := frame.key.isSome
      length := frame.payload.length }
  match frame.form with
  | .header => socket
  | .short =>
      { socket with
        state := .lengthshort
        lengtharray := frame.lengthBytes
        lengtharrayWritten := 2 }
  | .long =>
      { socket with
        state := .lengthlong
        lengtharray := frame.lengthBytes
        lengtharrayWritten := 8 }

/- The length that the bytes behind the header give. -/
theorem ofBigEndian_lengthBytes
    (frame : Frame)
    (hForm : frame.form ≠ .header) :
    ofBigEndian frame.lengthBytes = frame.payload.length := by
  have hFits := frame.fits
  unfold LengthForm.Fits at hFits
  unfold Frame.lengthBytes
  apply ofBigEndian_bigEndian
  cases hCase : frame.form with
  | header => exact absurd hCase hForm
  | short =>
      simp only [hCase] at hFits
      exact hFits
  | long =>
      simp only [hCase] at hFits
      exact hFits.trans (by decide)

/- The second byte of a frame and the bytes of its length. -/
theorem handleRead_measured
    {socket : BRWebSocketImpl}
    (frame : Frame)
    (hPing : frame.opcode ≠ .ping) :
    (socket.begun frame).handleRead
        (frame.secondByte :: frame.lengthBytes) =
      some (socket.measured frame).expectMask := by
  have hBounded := frame.bounded
  have hCode := frame.length_secondByte
  have hFits := frame.fits
  unfold MAXPAYLOAD at hBounded
  rw [handleRead_cons,
    parseMessage_of_state
      (show (socket.begun frame).state = .headerb2 from rfl)]
  unfold parseHeaderb2
  dsimp only
  rw [if_neg (show (socket.begun frame).opcode ≠ .ping
    from hPing), frame.mask_secondByte]
  unfold measured
  cases hForm : frame.form with
  | header =>
      simp only [LengthForm.Fits, hForm] at hFits
      rw [hForm, LengthForm.code] at hCode
      have hSmall :
          (UInt8.ofNat frame.payload.length).toNat =
            frame.payload.length := by
        rw [UInt8.toNat_ofNat']
        omega
      have hNoBytes : frame.lengthBytes = [] := by
        unfold Frame.lengthBytes
        rw [hForm]
        rfl
      have hLess :
          UInt8.ofNat frame.payload.length ≤ 125 := by
        rw [UInt8.le_iff_toNat_le, hSmall]
        exact hFits
      rw [hCode, if_pos hLess, hSmall, hNoBytes]
      rfl
  | short =>
      have hOf := ofBigEndian_lengthBytes frame (by simp [hForm])
      have hLength : frame.lengthBytes.length = 2 := by
        unfold Frame.lengthBytes
        rw [hForm]
        rfl
      rw [hForm, LengthForm.code] at hCode
      rw [hCode, if_neg (by decide), if_pos (by decide),
        Option.bind_some,
        handleRead_length .lengthshort 2
          (fun _ _ hState => parseMessage_of_state hState)
          frame.lengthBytes
          (List.ne_nil_of_length_pos (by omega)) _ [] rfl
          (by rw [hLength]; rfl) rfl
          (by rw [hLength]; rfl)
          (by rw [List.nil_append, hOf]; omega),
        List.nil_append, hOf]
  | long =>
      have hOf := ofBigEndian_lengthBytes frame (by simp [hForm])
      have hLength : frame.lengthBytes.length = 8 := by
        unfold Frame.lengthBytes
        rw [hForm]
        rfl
      rw [hForm, LengthForm.code] at hCode
      rw [hCode, if_neg (by decide), if_neg (by decide),
        if_pos (by decide), Option.bind_some,
        handleRead_length .lengthlong 8
          (fun _ _ hState => parseMessage_of_state hState)
          frame.lengthBytes
          (List.ne_nil_of_length_pos (by omega)) _ [] rfl
          (by rw [hLength]; rfl) rfl
          (by rw [hLength]; rfl)
          (by rw [List.nil_append, hOf]; omega),
        List.nil_append, hOf]

------------------------------------------------------------
-- Whole Frames
------------------------------------------------------------

/- The parser at the end of a frame holds the packet. -/
structure Loads
    (socket : BRWebSocketImpl)
    (frame : Frame)
    (loaded : BRWebSocketImpl) : Prop where
  fin : loaded.fin = if frame.fin then 0x80 else 0
  opcode : loaded.opcode = frame.opcode
  data : loaded.data = frame.payload
  dataWritten : loaded.dataWritten = frame.payload.length
  written :
    loaded.lengtharrayWritten =
      frame.widthAfter socket.lengtharrayWritten
  fragStart : loaded.fragStart = socket.fragStart
  fragType : loaded.fragType = socket.fragType
  fragBuffer : loaded.fragBuffer = socket.fragBuffer
  sendq : loaded.sendq = socket.sendq
  received : loaded.received = socket.received

/- The payload of a frame, when the key is known. -/
theorem handleRead_expectPayload
    (loaded : BRWebSocketImpl)
    (key : Option (Vector UInt8 4))
    (payload : List UInt8)
    (hKnows : loaded.Knows key)
    (hLength : loaded.length = payload.length)
    (hBounded : payload.length < MAXPAYLOAD)
    (hIndex : loaded.index = 0)
    (hData : loaded.data = [])
    (hWritten : loaded.dataWritten = 0) :
    ∃ index state,
      loaded.expectPayload.handleRead
          (maskedFrom key 0 payload) =
        some
          { loaded with
            data := payload
            dataWritten := payload.length
            index := index
            state := state }.packetDone := by
  unfold expectPayload
  cases payload with
  | nil =>
      refine ⟨loaded.index, loaded.state, ?_⟩
      have hSame :
          { loaded with
            data := []
            dataWritten := ([] : List UInt8).length
            index := loaded.index
            state := loaded.state } = loaded := by
        rw [List.length_nil, ← hData, ← hWritten]
      rw [if_pos (show loaded.length ≤ 0 from hLength.le),
        maskedFrom, handleRead_nil, hSame]
  | cons byte payload =>
      have hSome : ¬ loaded.length ≤ 0 := by
        rw [hLength, List.length_cons]
        omega
      have hRead :=
        handleRead_payload key (byte :: payload)
          (List.cons_ne_nil _ _)
          { loaded with
            data := List.replicate loaded.length 0
            dataWritten := 0
            state := .payload } [] rfl
          (by cases key <;> exact hKnows)
          (by rw [hLength]; rfl) rfl hIndex
          (by rw [hLength]; simp) (hLength ▸ hBounded)
      refine ⟨loaded.length - 1, .payload, ?_⟩
      rw [List.length_nil, List.nil_append] at hRead
      rw [if_neg hSome, hRead]
      dsimp only
      rw [hLength]

/- What the header and the length of a frame set. -/
theorem measured_eq
    (socket : BRWebSocketImpl)
    (frame : Frame) :
    ∃ state lengtharray,
      socket.measured frame =
        { socket.begun frame with
          hasMask := frame.key.isSome
          length := frame.payload.length
          state := state
          lengtharray := lengtharray
          lengtharrayWritten :=
            frame.widthAfter socket.lengtharrayWritten } := by
  unfold measured Frame.widthAfter
  cases frame.form with
  | header => exact ⟨_, _, rfl⟩
  | short => exact ⟨_, _, rfl⟩
  | long => exact ⟨_, _, rfl⟩

/- The header, the length and the key, up to the payload. -/
theorem handleRead_header
    (socket : BRWebSocketImpl)
    (frame : Frame)
    (hState : socket.state = .headerb1)
    (hPing : frame.opcode ≠ .ping)
    (rest : List UInt8) :
    socket.handleRead
        (frame.firstByte :: frame.secondByte ::
          (frame.lengthBytes ++ rest)) =
      (socket.measured frame).expectMask.handleRead rest := by
  rw [handleRead_cons, parseMessage_firstByte hState,
    Option.bind_some, ← List.cons_append, handleRead_append,
    handleRead_measured frame hPing, Option.bind_some]

/- A frame is taken to its packet, unless it gets stuck. -/
theorem handleRead_frame
    (socket : BRWebSocketImpl)
    (frame : Frame)
    (hState : socket.state = .headerb1)
    (hData : socket.data = [])
    (hDataWritten : socket.dataWritten = 0)
    (hPing : frame.opcode ≠ .ping)
    (hMask :
      frame.key.isSome →
        frame.widthAfter socket.lengtharrayWritten ≤ 4) :
    ∃ loaded,
      socket.handleRead frame.bytes = some loaded.packetDone ∧
        Loads socket frame loaded := by
  unfold Frame.bytes
  rw [List.append_assoc,
    handleRead_header socket frame hState hPing]
  rcases socket.measured_eq frame with
    ⟨state, lengtharray, hMeasured⟩
  rw [hMeasured]
  unfold expectMask Frame.keyBytes
  dsimp only
  cases hKey : frame.key with
  | none =>
      rcases
          handleRead_expectPayload
            { socket.begun frame with
              hasMask := false
              length := frame.payload.length
              state := state
              lengtharray := lengtharray
              lengtharrayWritten :=
                frame.widthAfter socket.lengtharrayWritten }
            none frame.payload rfl rfl frame.bounded rfl hData
            hDataWritten with
        ⟨index, final, hRead⟩
      refine ⟨_, hRead, ?_⟩
      exact ⟨rfl, rfl, rfl, rfl, rfl, rfl, rfl, rfl, rfl, rfl⟩
  | some key =>
      have hWidth := hMask (by rw [hKey]; rfl)
      rw [if_pos Option.isSome_some, handleRead_append,
        handleRead_key key.toList (by simp) _ [] rfl hWidth
          (by simp) rfl (by simp), Option.bind_some]
      rcases
          handleRead_expectPayload
            { socket.begun frame with
              hasMask := true
              length := frame.payload.length
              state := .mask
              lengtharray := lengtharray
              lengtharrayWritten :=
                frame.widthAfter socket.lengtharrayWritten
              maskarray := key.toList
              maskarrayWritten := 4 }
            (some key) frame.payload ⟨rfl, rfl⟩ rfl
            frame.bounded rfl hData hDataWritten with
        ⟨index, final, hRead⟩
      refine ⟨_, hRead, ?_⟩
      exact ⟨rfl, rfl, rfl, rfl, rfl, rfl, rfl, rfl, rfl, rfl⟩

------------------------------------------------------------
-- Waiting for Ever
------------------------------------------------------------

/- No byte takes the parser out of its state. -/
def Stuck (socket : BRWebSocketImpl) : Prop :=
  (socket.state = .headerb2 ∧ socket.opcode = .ping) ∨
    (socket.state = .mask ∧ 4 < socket.lengtharrayWritten)

theorem stuck_parseMessage
    {socket : BRWebSocketImpl}
    (hStuck : socket.Stuck)
    (byte : UInt8) :
    ∃ next,
      socket.parseMessage byte = some next ∧ next.Stuck := by
  rcases hStuck with ⟨hState, hPing⟩ | ⟨hState, hWidth⟩
  · rw [parseMessage_of_state hState]
    unfold parseHeaderb2
    dsimp only
    rw [if_pos hPing]
    exact ⟨socket, rfl, Or.inl ⟨hState, hPing⟩⟩
  · rw [parseMessage_of_state hState]
    unfold parseMask
    dsimp only
    rw [if_pos hWidth]
    exact ⟨_, rfl, Or.inr ⟨hState, hWidth⟩⟩

theorem stuck_handleRead
    {socket : BRWebSocketImpl}
    (hStuck : socket.Stuck)
    (bytes : List UInt8) :
    ∃ next,
      socket.handleRead bytes = some next ∧ next.Stuck := by
  induction bytes generalizing socket with
  | nil => exact ⟨socket, rfl, hStuck⟩
  | cons byte bytes ih =>
      rcases stuck_parseMessage hStuck byte with
        ⟨next, hNext, hStill⟩
      rw [handleRead_cons, hNext]
      exact ih hStill

/- A ping, and a key behind a long length, are not left. -/
theorem stuck_frame
    (socket : BRWebSocketImpl)
    (frame : Frame)
    (hState : socket.state = .headerb1)
    (hBad :
      frame.opcode = .ping ∨
        (frame.key.isSome ∧
          4 < frame.widthAfter socket.lengtharrayWritten)) :
    ∃ next,
      socket.handleRead frame.bytes = some next ∧
        next.Stuck := by
  unfold Frame.bytes
  by_cases hPing : frame.opcode = .ping
  · rw [handleRead_cons, parseMessage_firstByte hState,
      Option.bind_some]
    exact stuck_handleRead (Or.inl ⟨rfl, hPing⟩) _
  · rcases hBad with hPing' | ⟨hKey, hWidth⟩
    · exact absurd hPing' hPing
    · rw [List.append_assoc,
        handleRead_header socket frame hState hPing]
      apply stuck_handleRead
      rcases socket.measured_eq frame with
        ⟨state, lengtharray, hMeasured⟩
      rw [hMeasured]
      unfold expectMask
      dsimp only
      rw [if_pos hKey]
      exact Or.inr ⟨rfl, hWidth⟩

end BRWebSocketImpl

end PlusWallet
