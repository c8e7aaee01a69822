import PlusWallet.Address.BRBase58
import PlusWallet.Peer.PeerThread

/-
  The thread of a peer passes on what was sent, however the
  stream is cut.

  Main declarations:
    * `feed`, `onRead_eq_feed`, `receive_eq_feed`
    * `Written`, `wire`, `served`
    * `feed_written`
    * `receive_served`
-/

namespace PlusWallet

open Bytes

namespace PeerThread

------------------------------------------------------------
-- Sending
------------------------------------------------------------

/- A loop that has ended well has sent all of its buffer. -/
theorem sendLoop_sent
    {left : List UInt8}
    {results : List SendResult}
    (hSent : (sendLoop left results).2 = .sent) :
    (sendLoop left results).1 = left := by
  fun_induction sendLoop left results with
  | case1 => rfl
  | case2 => cases hSent
  | case3 byte left results ih => exact ih hSent
  | case4 => cases hSent
  | case5 byte left n results bytes done hRest ih =>
      rw [hRest] at ih
      dsimp only at ih hSent ⊢
      rw [ih hSent, List.take_append_drop]

/- No more than the buffer is sent, and from its start. -/
theorem sendLoop_prefix
    (left : List UInt8)
    (results : List SendResult) :
    (sendLoop left results).1 <+: left := by
  fun_induction sendLoop left results with
  | case1 => exact List.nil_prefix
  | case2 => exact List.nil_prefix
  | case3 byte left results ih => exact ih
  | case4 => exact List.nil_prefix
  | case5 byte left n results bytes done hRest ih =>
      rw [hRest] at ih
      have hAll := List.take_append_drop n (byte :: left)
      nth_rewrite 2 [← hAll]
      exact List.prefix_append_right_inj _ |>.mpr ih

------------------------------------------------------------
-- The Magic Number
------------------------------------------------------------

section Magic

variable {magicNumber : UInt32}

theorem headerNumber_append
    {header : List UInt8}
    {off : Nat}
    (rest : List UInt8)
    (hInside : off + 4 ≤ header.length) :
    headerNumber (header ++ rest) off =
      headerNumber header off := by
  unfold headerNumber
  rw [List.drop_append_of_le_length (by omega),
    List.take_append_of_le_length
      (by rw [List.length_drop]; omega)]

variable (magicNumber) in
theorem length_findMagic_le (bytes : List UInt8) :
    (findMagic magicNumber bytes).length ≤ bytes.length := by
  fun_induction findMagic magicNumber bytes with
  | case1 => exact le_rfl
  | case2 byte rest hDrop ih =>
      rw [List.length_cons]
      omega
  | case3 => exact le_rfl

/- What is found does not depend on where the reads end. -/
theorem findMagic_append (bytes rest : List UInt8) :
    findMagic magicNumber
        (findMagic magicNumber bytes ++ rest) =
      findMagic magicNumber (bytes ++ rest) := by
  fun_induction findMagic magicNumber bytes with
  | case1 => rfl
  | case2 byte bytes hDrop ih =>
      rw [ih, List.cons_append, findMagic, if_pos]
      refine ⟨?_, ?_⟩
      · have hLength := hDrop.1
        rw [List.length_cons] at hLength
        rw [List.length_cons, List.length_append]
        omega
      · rw [← List.cons_append,
          headerNumber_append _ (by omega)]
        exact hDrop.2
  | case3 => rfl

/- Bytes that do not start with the number are consumed. -/
theorem findMagic_skip
    {bytes rest : List UInt8}
    (hNone :
      ∀ i,
        i < bytes.length →
          i + 4 ≤ (bytes ++ rest).length ∧
            headerNumber ((bytes ++ rest).drop i) 0 ≠
              magicNumber) :
    findMagic magicNumber (bytes ++ rest) =
      findMagic magicNumber rest := by
  induction bytes with
  | nil => rfl
  | cons byte bytes ih =>
      have hFirst := hNone 0 (by simp)
      rw [List.drop_zero, Nat.zero_add, List.cons_append] at hFirst
      rw [List.cons_append, findMagic, if_pos hFirst]
      apply ih
      intro i hLt
      have hLater := hNone (i + 1) (by simpa using hLt)
      simp only [List.cons_append, List.length_cons,
        List.drop_succ_cons] at hLater
      exact ⟨by omega, hLater.2⟩

theorem findMagic_of_magic
    {bytes : List UInt8}
    (hMagic : headerNumber bytes 0 = magicNumber) :
    findMagic magicNumber bytes = bytes := by
  rcases bytes with _ | ⟨byte, rest⟩
  · rfl
  · rw [findMagic, if_neg fun hDrop => hDrop.2 hMagic]

/- Junk in front of a header is gone when the header is there. -/
theorem findMagic_junk
    {junk header bytes : List UInt8}
    (hClean :
      ∀ i,
        i < junk.length →
          headerNumber ((junk ++ header).drop i) 0 ≠
            magicNumber)
    (hPrefix : bytes <+: junk ++ header)
    (hLess : bytes.length < junk.length + HEADER_LENGTH) :
    (findMagic magicNumber bytes).length < HEADER_LENGTH := by
  have hLength := hPrefix.length_le
  rcases hPrefix with ⟨rest, hAll⟩
  set k := min junk.length (bytes.length - 3) with hk
  have hSplit := List.take_append_drop k bytes
  rw [← hSplit, findMagic_skip]
  · refine lt_of_le_of_lt (length_findMagic_le _ _) ?_
    rw [List.length_drop]
    unfold HEADER_LENGTH at hLess ⊢
    omega
  · intro i hLt
    rw [List.length_take] at hLt
    rw [hSplit]
    refine ⟨by omega, ?_⟩
    have hPlace := hClean i (by omega)
    rwa [← hAll, List.drop_append_of_le_length (by omega),
      headerNumber_append _
        (by rw [List.length_drop]; omega)] at hPlace

end Magic

------------------------------------------------------------
-- Byte by Byte
------------------------------------------------------------

section Feeding

variable {P : Type} (env : Env P)

/- The thread when the bytes come one at a time -/
def feed
    (thread : PeerThread P)
    (bytes : List UInt8) : PeerThread P :=
  bytes.foldl
    (fun thread byte =>
      if isRunning env thread then
        onRead env thread (.bytes [byte])
      else thread)
    thread

/- Both loops have something left to read. -/
def Reading (thread : PeerThread P) : Prop :=
  match thread.phase with
  | .header header => header.length < HEADER_LENGTH
  | .payload header payload => payload.length < msgLen header

variable {env}

theorem reading_start (peer : P) : Reading (start peer) :=
  (by decide : 0 < HEADER_LENGTH)

theorem payloadDone_reading
    (thread : PeerThread P)
    (header payload : List UInt8) :
    Reading (payloadDone env thread header payload) := by
  unfold payloadDone
  dsimp only
  split_ifs <;> exact (by decide : 0 < HEADER_LENGTH)

theorem headerDone_reading
    (thread : PeerThread P)
    (header : List UInt8) :
    Reading (headerDone env thread header) := by
  unfold headerDone
  dsimp only
  split_ifs with hType hLong hEmpty
  · exact (by decide : 0 < HEADER_LENGTH)
  · exact (by decide : 0 < HEADER_LENGTH)
  · exact payloadDone_reading _ _ _
  · exact Nat.pos_of_ne_zero hEmpty

variable (env) in
theorem onRead_reading
    {thread : PeerThread P}
    (chunk : List UInt8) :
    Reading (onRead env thread (.bytes chunk)) := by
  unfold onRead
  dsimp only
  split
  · split_ifs with hShort
    · exact hShort
    · exact headerDone_reading _ _
  · split_ifs with hShort
    · exact hShort
    · exact payloadDone_reading _ _ _

variable (env) in
/- A read is the same as two that share its bytes. -/
theorem onRead_split
    {thread : PeerThread P}
    {byte : UInt8}
    {rest : List UInt8}
    (hRest : rest ≠ [])
    (hFits : (byte :: rest).length ≤ request thread) :
    onRead env thread (.bytes (byte :: rest)) =
        onRead env (onRead env thread (.bytes [byte]))
          (.bytes rest) ∧
      (onRead env thread (.bytes [byte])).peer = thread.peer ∧
      (onRead env thread (.bytes [byte])).error =
        thread.error ∧
      rest.length ≤
        request (onRead env thread (.bytes [byte])) := by
  have hPositive := List.length_pos_of_ne_nil hRest
  rw [List.length_cons] at hFits
  rcases hPhase : thread.phase with header | ⟨header, payload⟩
  · have hLeft :
        rest.length + 1 ≤ HEADER_LENGTH - header.length := by
      simpa [request, hPhase] using hFits
    have hShort :
        (findMagic env.magicNumber
          (header ++ [byte])).length < HEADER_LENGTH - rest.length + 1 := by
      have hLe :=
        length_findMagic_le env.magicNumber (header ++ [byte])
      rw [List.length_append, List.length_singleton] at hLe
      omega
    have hFirst :
        onRead env thread (.bytes [byte]) =
          { thread with
            phase :=
              .header
                (findMagic env.magicNumber
                  (header ++ [byte])) } := by
      simp only [onRead, hPhase]
      rw [if_pos (by omega)]
    rw [hFirst]
    refine ⟨?_, rfl, rfl, ?_⟩
    · simp only [onRead, hPhase]
      rw [findMagic_append, List.append_assoc,
        List.singleton_append]
      rfl
    · simp only [request]
      omega
  · have hLeft :
        rest.length + 1 ≤ msgLen header - payload.length := by
      simpa [request, hPhase] using hFits
    have hFirst :
        onRead env thread (.bytes [byte]) =
          { thread with
            phase := .payload header (payload ++ [byte]) } := by
      simp only [onRead, hPhase]
      rw [if_pos]
      rw [List.length_append, List.length_singleton]
      omega
    rw [hFirst]
    refine ⟨?_, rfl, rfl, ?_⟩
    · simp only [onRead, hPhase]
      rw [List.append_assoc, List.singleton_append]
      rfl
    · simp only [request, List.length_append,
        List.length_singleton]
      omega

theorem feed_cons
    {thread : PeerThread P}
    (hRunning : isRunning env thread)
    (byte : UInt8)
    (rest : List UInt8) :
    feed env thread (byte :: rest) =
      feed env (onRead env thread (.bytes [byte])) rest := by
  unfold feed
  rw [List.foldl_cons, if_pos hRunning]

theorem feed_append
    (thread : PeerThread P)
    (bytes rest : List UInt8) :
    feed env thread (bytes ++ rest) =
      feed env (feed env thread bytes) rest :=
  List.foldl_append

/- A thread that has ended reads nothing. -/
theorem feed_ended
    {thread : PeerThread P}
    (hEnded : ¬isRunning env thread)
    (bytes : List UInt8) : feed env thread bytes = thread := by
  induction bytes with
  | nil => rfl
  | cons byte rest ih =>
      unfold feed at ih ⊢
      rw [List.foldl_cons, if_neg hEnded, ih]

/- A read of many bytes is as many reads of one byte. -/
theorem onRead_eq_feed
    {thread : PeerThread P}
    {chunk : List UInt8}
    (hRunning : isRunning env thread)
    (hSome : chunk ≠ [])
    (hFits : chunk.length ≤ request thread) :
    onRead env thread (.bytes chunk) =
      feed env thread chunk := by
  induction chunk generalizing thread with
  | nil => exact absurd rfl hSome
  | cons byte rest ih =>
      rw [feed_cons hRunning]
      by_cases hRest : rest = []
      · rw [hRest]
        rfl
      · rcases onRead_split env hRest hFits with
          ⟨hSplit, hPeer, hError, hLeft⟩
        rw [hSplit]
        refine ih ?_ hRest hLeft
        unfold isRunning at hRunning ⊢
        rwa [hPeer, hError]

theorem feed_reading
    {thread : PeerThread P}
    (hReading : Reading thread)
    (bytes : List UInt8) :
    Reading (feed env thread bytes) := by
  induction bytes generalizing thread with
  | nil => exact hReading
  | cons byte rest ih =>
      by_cases hRunning : isRunning env thread
      · rw [feed_cons hRunning]
        exact ih (onRead_reading env [byte])
      · rwa [feed_ended hRunning]

theorem request_pos
    {thread : PeerThread P}
    (hReading : Reading thread) : 0 < request thread := by
  unfold Reading at hReading
  unfold request
  rcases hPhase : thread.phase with header | ⟨header, payload⟩
    <;> rw [hPhase] at hReading
    <;> exact Nat.sub_pos_of_lt hReading

/- The arrivals that bring bytes -/
def arrivedCount (arrivals : List Arrival) : Nat :=
  arrivals.countP (· ≠ .wouldBlock)

variable (env) in
/-
  However the stream is cut, the thread is where its bytes
  lead it; and it ends, or reads with every arrival.
-/
theorem receive_eq_feed
    {thread : PeerThread P}
    (hReading : Reading thread)
    (stream : List UInt8)
    (arrivals : List Arrival) :
    ∃ consumed,
      consumed ++ (receive env thread stream arrivals).2 =
          stream ∧
        (receive env thread stream arrivals).1 =
          feed env thread consumed ∧
        (isRunning env
              (receive env thread stream arrivals).1 →
            (receive env thread stream arrivals).2 ≠ [] →
            arrivedCount arrivals ≤ consumed.length) := by
  induction arrivals generalizing thread stream with
  | nil =>
      exact ⟨[], rfl, rfl, fun _ _ => Nat.le_refl 0⟩
  | cons arrival arrivals ih =>
      unfold receive
      by_cases hRunning : isRunning env thread
      case neg =>
        rw [if_neg hRunning]
        exact ⟨[], rfl, rfl, fun h => absurd h hRunning⟩
      rw [if_pos hRunning]
      rcases arrival with more | _
      case wouldBlock =>
        rcases ih hReading stream with
          ⟨consumed, hAll, hFeed, hCount⟩
        exact ⟨consumed, hAll, hFeed, hCount⟩
      by_cases hEmpty : stream = []
      case pos =>
        rcases ih hReading [] with
          ⟨consumed, hAll, hFeed, -⟩
        unfold arrive
        dsimp only
        rw [if_pos hEmpty]
        subst hEmpty
        refine ⟨consumed, hAll, hFeed, fun _ hLeft => ?_⟩
        exact absurd (List.append_eq_nil_iff.mp hAll).2 hLeft
      unfold arrive
      dsimp only
      rw [if_neg hEmpty]
      set n := min (more + 1) (request thread) with hn
      have hRequest := request_pos hReading
      have hPositive : 0 < n := by omega
      have hStream := List.length_pos_of_ne_nil hEmpty
      have hSome : stream.take n ≠ [] := by
        apply List.ne_nil_of_length_pos
        rw [List.length_take]
        omega
      have hFits : (stream.take n).length ≤ request thread := by
        rw [List.length_take]
        omega
      have hRead := onRead_eq_feed hRunning hSome hFits
      rcases ih (onRead_reading env (stream.take n))
          (stream.drop n) with
        ⟨consumed, hAll, hFeed, hCount⟩
      refine ⟨stream.take n ++ consumed, ?_, ?_, ?_⟩
      · rw [List.append_assoc, hAll, List.take_append_drop]
      · rw [hFeed, hRead, feed_append]
      · intro hRuns hLeft
        have hLater := hCount hRuns hLeft
        have hOne :
            arrivedCount (.bytes more :: arrivals) =
              arrivedCount arrivals + 1 := by
          unfold arrivedCount
          rw [List.countP_cons_of_pos (by simp)]
        rw [hOne, List.length_append, List.length_take]
        omega

------------------------------------------------------------
-- Messages
------------------------------------------------------------

/- Messages that are passed on stay passed on. -/
theorem onRead_passed
    (thread : PeerThread P)
    (chunk : List UInt8) :
    thread.passed <+:
      (onRead env thread (.bytes chunk)).passed := by
  have hPayload :
      ∀ (thread : PeerThread P) header payload,
        thread.passed <+:
          (payloadDone env thread header payload).passed := by
    intro thread header payload
    unfold payloadDone
    dsimp only
    split
    · exact List.prefix_rfl
    · exact List.prefix_append _ _
  unfold onRead
  dsimp only
  split
  · split_ifs
    · exact List.prefix_rfl
    · unfold headerDone
      dsimp only
      split_ifs
      · exact List.prefix_rfl
      · exact List.prefix_rfl
      · refine List.IsPrefix.trans ?_ (hPayload _ _ _)
        exact List.prefix_rfl
      · exact List.prefix_rfl
  · split_ifs
    · exact List.prefix_rfl
    · exact hPayload _ _ _

theorem feed_passed
    (thread : PeerThread P)
    (bytes : List UInt8) :
    thread.passed <+: (feed env thread bytes).passed := by
  induction bytes generalizing thread with
  | nil => exact List.prefix_rfl
  | cons byte rest ih =>
      by_cases hRunning : isRunning env thread
      · rw [feed_cons hRunning]
        exact (onRead_passed thread [byte]).trans (ih _)
      · rw [feed_ended hRunning]

/- While the header comes, only the header changes. -/
theorem feed_header
    {thread : PeerThread P}
    {bytes : List UInt8}
    (hRunning : isRunning env thread)
    (hPhase : thread.phase = .header [])
    (hShort :
      ∀ start,
        start <+: bytes →
          (findMagic env.magicNumber start).length <
            HEADER_LENGTH) :
    feed env thread bytes =
      { thread with
        phase :=
          .header (findMagic env.magicNumber bytes) } := by
  induction bytes using List.reverseRecOn with
  | nil =>
      unfold feed
      rw [findMagic, ← hPhase]
      rfl
  | append_singleton bytes byte ih =>
      rw [feed_append,
        ih fun start hStart =>
          hShort start
            (hStart.trans (List.prefix_append _ _))]
      refine (feed_cons ?_ byte []).trans ?_
      · exact hRunning
      simp only [onRead]
      rw [findMagic_append,
        if_pos (hShort _ List.prefix_rfl)]
      rfl

/- The payload is collected, and then it is done. -/
theorem feed_payload
    {thread : PeerThread P}
    {header payload rest : List UInt8}
    (hRunning : isRunning env thread)
    (hPhase : thread.phase = .payload header payload)
    (hSome : rest ≠ [])
    (hLength : (payload ++ rest).length = msgLen header) :
    feed env thread rest =
      payloadDone env thread header (payload ++ rest) := by
  rw [← onRead_eq_feed hRunning hSome]
  · simp only [onRead, hPhase]
    rw [if_neg (by omega)]
  · rw [List.length_append] at hLength
    simp only [request, hPhase]
    omega

/- A message that is written, and how its bytes were sent -/
structure Written (env : Env P) where
  junk : List UInt8
  type : List UInt8
  payload : List UInt8
  results : List SendResult
  type_le : type.length ≤ 11
  type_nonzero : (0 : UInt8) ∉ type
  payload_le : payload.length ≤ MAX_MSG_LENGTH
  sent :
    (sendMessage env.sha256_2 env.magicNumber payload type
      results).2 = .sent
  clean :
    ∀ i,
      i < junk.length →
        headerNumber
            ((junk ++
              (sendMessage env.sha256_2 env.magicNumber payload
                type results).1).drop i) 0 ≠
          env.magicNumber

/- What stands on the wire for it. -/
def Written.bytes (message : Written env) : List UInt8 :=
  message.junk ++
    (sendMessage env.sha256_2 env.magicNumber message.payload
      message.type message.results).1

/- The first bytes of a hash as a number -/
def checksumOf (hash : UInt256) : UInt32 :=
  headerNumber hash.toList 0

/- What `_BRPeerAcceptMessage` gets of it. -/
def Written.delivery (message : Written env) : Delivery where
  type := message.type
  payload := message.payload
  checksum := checksumOf (env.sha256_2 message.payload)

/- The header in front of the payload -/
def Written.header (message : Written env) : List UInt8 :=
  littleEndian 4 env.magicNumber.toNat ++
    strncpy message.type 12 ++
    littleEndian 4
      (UInt32.ofNat message.payload.length).toNat ++
    (env.sha256_2 message.payload).toList.take 4

theorem length_strncpy
    {type : List UInt8}
    {n : Nat} : (strncpy type n).length = n := by
  unfold strncpy
  rw [List.length_append, List.length_take,
    List.length_replicate]
  omega

theorem Written.length_header (message : Written env) :
    message.header.length = HEADER_LENGTH := by
  unfold Written.header
  simp only [List.length_append, length_littleEndian,
    length_strncpy, List.length_take,
    List.Vector.toList_length]
  rfl

theorem Written.bytes_eq (message : Written env) :
    message.bytes =
      message.junk ++ message.header ++ message.payload := by
  have hSent := message.sent
  unfold Written.bytes sendMessage at *
  rw [if_neg (Nat.not_lt.mpr message.payload_le)] at hSent ⊢
  rw [sendLoop_sent hSent, List.append_assoc]
  rfl

/- Four bytes behind others are read as they are. -/
theorem headerNumber_at
    (before : List UInt8)
    {bytes : List UInt8}
    (after : List UInt8)
    {off : Nat}
    (hBefore : before.length = off)
    (hBytes : bytes.length = 4) :
    headerNumber (before ++ bytes ++ after) off =
      UInt32.ofNat (ofLittleEndian bytes) := by
  unfold headerNumber
  rw [List.append_assoc, ← hBefore, List.drop_left, ← hBytes,
    List.take_left]

theorem ofNat_littleEndian (number : UInt32) :
    UInt32.ofNat
        (ofLittleEndian (littleEndian 4 number.toNat)) =
      number := by
  rw [ofLittleEndian_littleEndian 4 number.toNat_lt,
    UInt32.ofNat_toNat]

theorem Written.magic (message : Written env) :
    headerNumber message.header 0 = env.magicNumber := by
  have hAt :=
    headerNumber_at []
      (strncpy message.type 12 ++
        (littleEndian 4
            (UInt32.ofNat message.payload.length).toNat ++
          (env.sha256_2 message.payload).toList.take 4))
      rfl (length_littleEndian 4 env.magicNumber.toNat)
  rw [ofNat_littleEndian] at hAt
  unfold Written.header
  rw [List.append_assoc, List.append_assoc]
  exact hAt

theorem Written.msgLen_header (message : Written env) :
    msgLen message.header = message.payload.length := by
  have hAt :=
    headerNumber_at
      (littleEndian 4 env.magicNumber.toNat ++
        strncpy message.type 12)
      ((env.sha256_2 message.payload).toList.take 4)
      (show _ = 16 by
        rw [List.length_append, length_littleEndian,
          length_strncpy])
      (length_littleEndian 4
        (UInt32.ofNat message.payload.length).toNat)
  have hLe := message.payload_le
  unfold MAX_MSG_LENGTH at hLe
  unfold msgLen Written.header
  rw [hAt, ofNat_littleEndian, UInt32.toNat_ofNat']
  exact Nat.mod_eq_of_lt (by omega)

theorem Written.checksum (message : Written env) :
    headerNumber message.header 20 =
      checksumOf (env.sha256_2 message.payload) := by
  have hLength :
      ((env.sha256_2 message.payload).toList.take 4).length =
        4 := by
    rw [List.length_take, List.Vector.toList_length]
    rfl
  have hAt :=
    headerNumber_at
      (littleEndian 4 env.magicNumber.toNat ++
        strncpy message.type 12 ++
        littleEndian 4
          (UInt32.ofNat message.payload.length).toNat)
      [] (show _ = 20 by
        rw [List.length_append, List.length_append,
          length_littleEndian, length_strncpy,
          length_littleEndian])
      hLength
  rw [List.append_nil] at hAt
  exact hAt

/- The type stands in twelve bytes behind the magic number. -/
theorem Written.type_bytes (message : Written env) :
    (message.header.drop 4).take 12 =
      strncpy message.type 12 := by
  unfold Written.header
  rw [List.append_assoc, List.append_assoc,
    List.drop_left' (length_littleEndian 4 _)]
  exact List.take_left' length_strncpy

theorem Written.terminated (message : Written env) :
    message.header.getD 15 0 = 0 := by
  have hType := message.type_bytes
  have hLength := message.length_header
  have hLe := message.type_le
  unfold HEADER_LENGTH at hLength
  have hPlace := congrArg (·.getD 11 0) hType
  unfold strncpy at hPlace
  rw [List.getD_append_right _ _ _ _
      (by rw [List.length_take]; omega)] at hPlace
  simp only [List.getD_eq_getElem?_getD, List.getElem?_take,
    List.getElem?_drop, List.getElem?_replicate] at hPlace ⊢
  simp only [Nat.reduceLT, if_true, Nat.reduceAdd] at hPlace
  rw [hPlace]
  split_ifs <;> rfl

theorem Written.headerType_header (message : Written env) :
    headerType message.header = message.type := by
  have hLe := message.type_le
  unfold headerType
  rw [message.type_bytes]
  unfold strncpy
  rw [List.take_of_length_le (by omega),
    List.takeWhile_append_of_pos]
  · rw [List.takeWhile_replicate]
    simp
  · intro byte hMem
    rw [decide_eq_true_iff]
    rintro rfl
    exact message.type_nonzero hMem

/- What the header of a written message leads to -/
theorem Written.headerDone_eq
    (message : Written env)
    (thread : PeerThread P) :
    headerDone env thread message.header =
      if message.payload.length = 0 then
        payloadDone env
          { thread with
            phase := .payload message.header []
            payloadLen :=
              max thread.payloadLen message.payload.length }
          message.header []
      else
        { thread with
          phase := .payload message.header []
          payloadLen :=
            max thread.payloadLen message.payload.length } := by
  unfold headerDone
  rw [if_neg (not_not_intro message.terminated),
    message.msgLen_header,
    if_neg (Nat.not_lt.mpr message.payload_le)]

/- The thread behind a message that was passed on -/
def after
    (thread : PeerThread P)
    (message : Written env) : PeerThread P :=
  let (peer, isAccepted) :=
    env.acceptMessage thread.peer message.type message.payload
  { thread with
    peer
    phase := .header []
    payloadLen := max thread.payloadLen message.payload.length
    error := if isAccepted then none else some .proto
    passed := thread.passed ++ [message.delivery] }

theorem Written.payloadDone_eq
    (message : Written env)
    (thread : PeerThread P)
    (phase : Phase) :
    payloadDone env
        { thread with
          phase
          payloadLen :=
            max thread.payloadLen message.payload.length }
        message.header message.payload =
      after thread message := by
  unfold payloadDone
  dsimp only
  rw [message.checksum, message.headerType_header]
  exact if_neg (not_not_intro rfl)

/- Junk and a message make the thread pass the message on. -/
theorem feed_written
    {thread : PeerThread P}
    (message : Written env)
    (hRunning : isRunning env thread)
    (hPhase : thread.phase = .header []) :
    feed env thread message.bytes = after thread message := by
  have hLength := message.length_header
  have hClean :
      ∀ i,
        i < message.junk.length →
          headerNumber
              ((message.junk ++ message.header).drop i) 0 ≠
            env.magicNumber := by
    intro i hLt
    have hPlace := message.clean i hLt
    rw [show message.junk ++ _ = message.bytes from rfl,
      message.bytes_eq,
      List.drop_append_of_le_length
        (by rw [List.length_append]; omega),
      headerNumber_append _
        (by
          rw [List.length_drop, List.length_append, hLength]
          unfold HEADER_LENGTH
          omega)] at hPlace
    exact hPlace
  have hSome : message.header ≠ [] := by
    apply List.ne_nil_of_length_pos
    rw [hLength]
    decide
  have hLast := List.dropLast_append_getLast hSome
  set last := message.header.getLast hSome with hDef
  have hFront :
      feed env thread
          (message.junk ++ message.header.dropLast) =
        { thread with
          phase :=
            .header
              (findMagic env.magicNumber
                (message.junk ++ message.header.dropLast)) } := by
    refine feed_header hRunning hPhase fun start hStart => ?_
    refine findMagic_junk hClean ?_ ?_
    · refine hStart.trans ?_
      rw [List.prefix_append_right_inj]
      exact List.dropLast_prefix _
    · have hLe := hStart.length_le
      rw [List.length_append, List.length_dropLast,
        hLength] at hLe
      unfold HEADER_LENGTH at hLe ⊢
      omega
  have hFound :
      findMagic env.magicNumber
          (message.junk ++ message.header) =
        message.header := by
    rw [findMagic_skip, findMagic_of_magic message.magic]
    intro i hLt
    refine ⟨?_, hClean i hLt⟩
    rw [List.length_append, hLength]
    unfold HEADER_LENGTH
    omega
  have hHeader :
      feed env thread (message.junk ++ message.header) =
        headerDone env thread message.header := by
    nth_rewrite 1 [← hLast]
    rw [← List.append_assoc, feed_append, hFront]
    refine (feed_cons ?_ last []).trans ?_
    · exact hRunning
    simp only [onRead]
    rw [findMagic_append, List.append_assoc, hLast, hFound,
      if_neg (by omega)]
    rfl
  rw [message.bytes_eq, feed_append, hHeader,
    message.headerDone_eq]
  by_cases hEmpty : message.payload = []
  · rw [if_pos (by rw [hEmpty]; rfl), hEmpty]
    have hDone :=
      message.payloadDone_eq thread (.payload message.header [])
    rw [hEmpty] at hDone
    exact hDone
  · rw [if_neg fun h => hEmpty (List.length_eq_zero_iff.mp h)]
    refine (feed_payload ?_ rfl hEmpty ?_).trans ?_
    · exact hRunning
    · exact message.msgLen_header.symm
    · exact message.payloadDone_eq thread _

/- All messages behind each other on the wire -/
def wire (messages : List (Written env)) : List UInt8 :=
  messages.flatMap Written.bytes

variable (env) in
/-
  The messages that the thread passes on: all of them, until
  one is refused or the socket is closed.
-/
def served : P → List (Written env) → List Delivery
  | _, [] => []
  | peer, message :: messages =>
      if env.isOpen peer then
        let (peer, isAccepted) :=
          env.acceptMessage peer message.type message.payload
        message.delivery ::
          if isAccepted then served peer messages else []
      else []

/- A whole wire makes the thread pass on what is to be served. -/
theorem feed_wire
    (thread : PeerThread P)
    (messages : List (Written env))
    (hPhase : thread.phase = .header [])
    (hError : thread.error = none) :
    (feed env thread (wire messages)).passed =
      thread.passed ++ served env thread.peer messages := by
  induction messages generalizing thread with
  | nil => exact (List.append_nil _).symm
  | cons message messages ih =>
      unfold served
      by_cases hOpen : env.isOpen thread.peer
      case neg =>
        rw [if_neg hOpen, List.append_nil, feed_ended]
        unfold isRunning
        simp [hOpen]
      have hRunning : isRunning env thread := by
        unfold isRunning
        simp [hOpen, hError]
      rw [if_pos hOpen, wire, List.flatMap_cons, feed_append,
        feed_written message hRunning hPhase]
      unfold after
      rcases hAccept :
          env.acceptMessage thread.peer message.type
            message.payload with ⟨peer, _ | _⟩
      · rw [feed_ended (by simp [isRunning])]
        rfl
      · refine (ih _ rfl rfl).trans ?_
        dsimp only
        rw [List.append_assoc]
        rfl

/- Every message that is passed on has its checksum. -/
def Checked (sha256_2 : List UInt8 → UInt256)
    (thread : PeerThread P) : Prop :=
  ∀ delivery ∈ thread.passed,
    checksumOf (sha256_2 delivery.payload) = delivery.checksum

theorem onRead_checked
    {thread : PeerThread P}
    (hChecked : Checked env.sha256_2 thread)
    (chunk : List UInt8) :
    Checked env.sha256_2
      (onRead env thread (.bytes chunk)) := by
  have hPayload :
      ∀ (thread : PeerThread P) header payload,
        Checked env.sha256_2 thread →
          Checked env.sha256_2
            (payloadDone env thread header payload) := by
    intro thread header payload hChecked
    unfold payloadDone
    dsimp only
    split
    · exact hChecked
    · next hSame =>
        intro delivery hMem
        rcases List.mem_append.mp hMem with hOld | hNew
        · exact hChecked delivery hOld
        · rw [List.mem_singleton.mp hNew]
          exact not_not.mp hSame
  unfold onRead
  dsimp only
  split
  · split_ifs
    · exact hChecked
    · unfold headerDone
      dsimp only
      split_ifs
      · exact hChecked
      · exact hChecked
      · exact hPayload _ _ _ hChecked
      · exact hChecked
  · split_ifs
    · exact hChecked
    · exact hPayload _ _ _ hChecked

theorem feed_checked
    {thread : PeerThread P}
    (hChecked : Checked env.sha256_2 thread)
    (bytes : List UInt8) :
    Checked env.sha256_2 (feed env thread bytes) := by
  induction bytes generalizing thread with
  | nil => exact hChecked
  | cons byte rest ih =>
      by_cases hRunning : isRunning env thread
      · rw [feed_cons hRunning]
        exact ih (onRead_checked hChecked [byte])
      · rwa [feed_ended hRunning]

/-
  However the wire is cut, only the messages that are to be
  served are passed on, and all of them are when enough reads
  bring bytes; and no stream makes the thread pass on a message
  with another checksum.
-/
theorem receive_served
    (env : Env P)
    (peer : P) :
    (∀ (messages : List (Written env)) arrivals,
        (receive env (start peer) (wire messages)
              arrivals).1.passed <+:
            served env peer messages ∧
          ((wire messages).length ≤ arrivedCount arrivals →
            (receive env (start peer) (wire messages)
                arrivals).1.passed =
              served env peer messages)) ∧
      ∀ stream arrivals,
        Checked env.sha256_2
          (receive env (start peer) stream arrivals).1 := by
  constructor
  · intro messages arrivals
    have hWire :=
      feed_wire (start peer) messages rfl rfl
    rcases receive_eq_feed env (reading_start peer)
        (wire messages) arrivals with
      ⟨consumed, hAll, hFeed, hCount⟩
    set left :=
      (receive env (start peer) (wire messages) arrivals).2
      with hLeft
    rw [hFeed]
    rw [← hAll, feed_append] at hWire
    change _ = served env peer messages at hWire
    refine ⟨hWire ▸ feed_passed _ left, fun hEnough => ?_⟩
    rw [← hWire]
    by_cases hRuns : isRunning env
        (feed env (start peer) consumed)
    · have hNone : left = [] := by
        by_contra hSome
        have hRead := hCount (hFeed ▸ hRuns) hSome
        have hPositive := List.length_pos_of_ne_nil hSome
        rw [← hAll, List.length_append] at hEnough
        omega
      rw [hNone]
      rfl
    · rw [feed_ended hRuns]
  · intro stream arrivals
    rcases receive_eq_feed env (reading_start peer)
        stream arrivals with ⟨consumed, -, hFeed, -⟩
    rw [hFeed]
    exact feed_checked (by intro _ h; cases h) consumed

end Feeding

------------------------------------------------------------
-- A Message That Is Refused
------------------------------------------------------------

/- The double hash of no bytes -/
def emptyHash : UInt256 :=
  ⟨[0x5d, 0xf6, 0xe0, 0xe2, 0x76, 0x13, 0x59, 0xd3, 0x0a,
    0x82, 0x75, 0x05, 0x8e, 0x29, 0x9f, 0xcc, 0x03, 0x81,
    0x53, 0x45, 0x45, 0xf5, 0x5c, 0xf4, 0x3e, 0x41, 0x98,
    0x3f, 0x5d, 0x4c, 0x94, 0x56],
    rfl⟩

/- A connection that has just been opened -/
def newEnv : Env BRPeerContext where
  sha256_2 _ := emptyHash
  magicNumber := 0xd9b4bef9
  isOpen _ := true
  acceptMessage peer type payload :=
    let messageType : BRPeerContext.MessageType :=
      if type = cString "version" then .version
      else .other true
    match
        peer.acceptMessage (fun _ => emptyHash) messageType
          payload 0 with
    | .ok (peer, _, isAccepted) => (peer, isAccepted)
    | .error _ => (peer, false)

/- A message without payload, sent at once -/
def emptyMessage
    (type : List UInt8)
    (hLength : type.length ≤ 11)
    (hNonzero : (0 : UInt8) ∉ type) : Written newEnv where
  junk := []
  type := type
  payload := []
  results := [.sent 24]
  type_le := hLength
  type_nonzero := hNonzero
  payload_le := Nat.zero_le _
  sent := by
    have hLength :
        (sendBuf newEnv.sha256_2 newEnv.magicNumber []
          type).length = 24 := by
      unfold sendBuf
      simp only [List.length_append, length_littleEndian,
        length_strncpy, List.length_take,
        List.Vector.toList_length]
      rfl
    unfold sendMessage
    rw [if_neg (by decide)]
    rcases hBuf : sendBuf newEnv.sha256_2 newEnv.magicNumber []
        type with _ | ⟨byte, left⟩
    · rfl
    · rw [hBuf] at hLength
      unfold sendLoop
      rw [List.drop_of_length_le hLength.le]
      rfl
  clean := fun _ hLt => absurd hLt (Nat.not_lt_zero _)

def emptyVersion : Written newEnv :=
  emptyMessage (cString "version") (by decide) (by decide)

def emptyVerack : Written newEnv :=
  emptyMessage (cString "verack") (by decide) (by decide)

/- A version that is too short ends the thread. -/
theorem version_ends_thread :
    ¬(receive newEnv (start BRPeerContext.new)
          (wire [emptyVersion, emptyVerack])
          (List.replicate 48 (.bytes 0))).1.passed =
        [emptyVersion, emptyVerack].map Written.delivery := by
  decide +kernel

end PeerThread

end PlusWallet
