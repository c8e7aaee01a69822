import PlusWallet.Peer.Delivery

/-
  What `_BRPeerAcceptHeadersMessage` asks for next, and what it
  does in terms of the headers that a message carries.

  Main declarations:
    * `Request`, `requestAfter`
    * `BRPeerContext.headersRequest`
    * `BRPeerContext.Carries`
    * `headersRequest_eq`, `acceptHeadersMessage_eq`
-/

namespace PlusWallet

open Bytes

/- The seconds of a week. -/
def WEEK : UInt32 := 7 * 24 * 60 * 60

/- A request for the chain behind the first known locator. -/
inductive Request (Hash : Type) where
  | getblocks (locators : List Hash)
  | getheaders (locators : List Hash)
deriving DecidableEq

namespace Headers

variable {Hash : Type}

------------------------------------------------------------
-- Lists of Headers
------------------------------------------------------------

/- The time stamp of a header, 0 behind the last. -/
def timeAt
    (headers : List (BRMerkleBlock Hash))
    (index : Nat) : UInt32 :=
  (headers[index]?).elim 0 BRMerkleBlock.timestamp

/- A time stamp less than a week before the earliest key. -/
def isRecent (earliestKeyTime timestamp : UInt32) : Bool :=
  earliestKeyTime ≤ timestamp + WEEK + BLOCK_MAX_TIME_DRIFT

/- Where the first header behind an index is that is recent. -/
def firstRecent
    (earliestKeyTime : UInt32)
    (headers : List (BRMerkleBlock Hash)) : Nat → Nat → Nat
  | 0, last => last
  | rounds + 1, last =>
      let timestamp := timeAt headers (last + 1)
      if 0 < timestamp ∧
          isRecent earliestKeyTime timestamp = false then
        firstRecent earliestKeyTime headers rounds (last + 1)
      else last + 1

/- The hashes of two headers. -/
def locators
    (headers : List (BRMerkleBlock Hash))
    (index : Nat) : List Hash :=
  [index, 0].filterMap fun place =>
    (headers[place]?).map BRMerkleBlock.blockHash

/- The header before the first recent one, behind the first. -/
def switchIndex
    (earliestKeyTime : UInt32)
    (headers : List (BRMerkleBlock Hash)) : Nat :=
  firstRecent earliestKeyTime headers headers.length 0 - 1

/- What is asked for once a message with these headers came. -/
def requestAfter
    (earliestKeyTime : UInt32)
    (headers : List (BRMerkleBlock Hash)) :
    Option (Request Hash) :=
  let timestamp := timeAt headers (headers.length - 1)
  if 0 < timestamp ∧ isRecent earliestKeyTime timestamp then
    -- request blocks for the remainder of the chain
    some
      (.getblocks
        (locators headers
          (switchIndex earliestKeyTime headers)))
  else if 2000 ≤ headers.length then
    some (.getheaders (locators headers (headers.length - 1)))
  else none

------------------------------------------------------------
-- Where the Requests Switch
------------------------------------------------------------

/- A header behind the last one has the time stamp 0. -/
theorem lt_of_timeAt_pos
    {headers : List (BRMerkleBlock Hash)}
    {index : Nat}
    (hPositive : 0 < timeAt headers index) :
    index < headers.length := by
  by_contra hBehind
  rw [timeAt, List.getElem?_eq_none (not_lt.mp hBehind)]
    at hPositive
  exact UInt32.lt_irrefl 0 hPositive

theorem firstRecent_le
    (earliestKeyTime : UInt32)
    (headers : List (BRMerkleBlock Hash))
    (rounds : Nat)
    {last : Nat}
    (hLast : last < headers.length) :
    firstRecent earliestKeyTime headers rounds last ≤
      headers.length := by
  induction rounds generalizing last with
  | zero => exact hLast.le
  | succ rounds ih =>
      unfold firstRecent
      dsimp only
      split_ifs with hOld
      · exact ih (lt_of_timeAt_pos hOld.1)
      · exact hLast

theorem switchIndex_lt
    (earliestKeyTime : UInt32)
    {headers : List (BRMerkleBlock Hash)}
    (hHeaders : 0 < headers.length) :
    switchIndex earliestKeyTime headers < headers.length := by
  have hLe :=
    firstRecent_le earliestKeyTime headers headers.length
      hHeaders
  rw [switchIndex]
  omega

/- A header that the scan has passed is not recent. -/
theorem old_of_lt_firstRecent
    {earliestKeyTime : UInt32}
    {headers : List (BRMerkleBlock Hash)}
    {rounds last index : Nat}
    (hLast : last < index)
    (hIndex :
      index <
        firstRecent earliestKeyTime headers rounds last) :
    isRecent earliestKeyTime (timeAt headers index) =
      false := by
  induction rounds generalizing last with
  | zero =>
      rw [firstRecent] at hIndex
      omega
  | succ rounds ih =>
      unfold firstRecent at hIndex
      dsimp only at hIndex
      split_ifs at hIndex with hOld
      · rcases Nat.eq_or_lt_of_le hLast with rfl | hNext
        · exact hOld.2
        · exact ih hNext hIndex
      · omega

/- The header that blocks are asked for from. -/
theorem locators_eq
    {headers : List (BRMerkleBlock Hash)}
    {index : Nat}
    (hFirst : 0 < headers.length)
    (hIndex : index < headers.length) :
    locators headers index =
      [headers[index].blockHash, headers[0].blockHash] := by
  simp [locators, List.getElem?_eq_getElem hIndex,
    List.getElem?_eq_getElem hFirst]

end Headers

namespace BRPeerContext

open Faults

------------------------------------------------------------
-- Requests
------------------------------------------------------------

/- The request that `_BRPeerAcceptHeadersMessage` sends. -/
def headersRequest
    (sha256_2 : List UInt8 → UInt256)
    (peer : BRPeerContext)
    (msg : List UInt8) :
    Except Fault (Option (Request UInt256)) := do
  let (count, off) := itemCount msg
  if isMalformed msg 81 then .ok none
  else
    let timestamp ← headerTime msg count off (count - 1)
    if 2000 ≤ count ∨
        (0 < timestamp ∧ peer.isRecent timestamp) then
      let final ← headerAt msg off (count - 1)
      let first ← headerAt msg off 0
      if 0 < timestamp ∧ peer.isRecent timestamp then
        -- request blocks for the remainder of the chain
        let last ← firstRecent peer msg count off count 0
        let locator ← headerAt msg off (last - 1)
        .ok
          (some
            (.getblocks [sha256_2 locator, sha256_2 first]))
      else
        .ok
          (some (.getheaders [sha256_2 final, sha256_2 first]))
    else .ok none

/- A message is well formed, and these are its headers. -/
structure Carries
    (sha256_2 : List UInt8 → UInt256)
    (msg : List UInt8)
    (headers : List (BRMerkleBlock UInt256)) : Prop where
  count : (itemCount msg).1 = headers.length
  isWhole : isMalformed msg 81 = false
  fits : (itemCount msg).2 + 81 * headers.length < 2 ^ 64
  parsed :
    ∀ index header, headers[index]? = some header →
      ∃ bytes,
        headerAt msg (itemCount msg).2 index = .ok bytes ∧
        BRMerkleBlock.parse sha256_2 bytes = some (some header)

------------------------------------------------------------
-- Reading Headers
------------------------------------------------------------

section Reads

variable {sha256_2 : List UInt8 → UInt256}
variable {msg bytes : List UInt8}
variable {header : BRMerkleBlock UInt256}
variable {headers : List (BRMerkleBlock UInt256)}

/- What the parser makes of the bytes of a header. -/
theorem header_of_parse
    (hLength : bytes.length = 80)
    (hParse :
      BRMerkleBlock.parse sha256_2 bytes =
        some (some header)) :
    getUInt32LE bytes 68 = some header.timestamp ∧
      header.blockHash = sha256_2 bytes := by
  have hShort : ¬ 84 ≤ bytes.length := by omega
  have hLong : ¬ bytes.length < 80 := by omega
  unfold BRMerkleBlock.parse at hParse
  simp only [Option.bind_eq_bind, if_neg hShort, if_neg hLong,
    Option.bind_eq_some_iff, Option.some_inj,
    exists_eq_left'] at hParse
  rcases hParse with
    ⟨version, -, prevBlock, -, merkleRoot, -, timestamp, hTime,
      target, -, nonce, -, rfl⟩
  refine ⟨hTime, ?_⟩
  rw [List.take_of_length_le hLength.le]

theorem length_of_slice
    {buf : List UInt8}
    {off size : Nat}
    (hSlice : slice buf off size = some bytes) :
    bytes.length = size := by
  unfold slice at hSlice
  split_ifs at hSlice with hInside
  cases hSlice
  rw [List.length_take, List.length_drop]
  omega

/- A part of a part. -/
theorem slice_of_slice
    {buf : List UInt8}
    {off size inner length : Nat}
    (hSlice : slice buf off size = some bytes)
    (hInner : inner + length ≤ size) :
    slice buf (off + inner) length =
      slice bytes inner length := by
  have hLength := length_of_slice hSlice
  unfold slice at hSlice ⊢
  split_ifs at hSlice with hInside
  cases hSlice
  rw [if_pos (by omega), if_pos (by omega), List.drop_take,
    List.drop_drop, List.take_take]
  congr 2
  omega

theorem Carries.offset
    (hCarries : Carries sha256_2 msg headers)
    {index : Nat}
    (hIndex : index < headers.length) :
    addSize (itemCount msg).2 (mulSize 81 index) =
      (itemCount msg).2 + 81 * index := by
  have hFits := hCarries.fits
  have hMul : mulSize 81 index = 81 * index :=
    Nat.mod_eq_of_lt (by omega)
  rw [hMul, addSize_eq (by omega)]

theorem Carries.headerTime_eq
    (hCarries : Carries sha256_2 msg headers)
    (index : Nat) :
    headerTime msg headers.length (itemCount msg).2 index =
      .ok (Headers.timeAt headers index) := by
  unfold headerTime Headers.timeAt
  split_ifs with hIndex
  · rcases hCarries.parsed index _
        (List.getElem?_eq_getElem hIndex) with
      ⟨bytes, hBytes, hParse⟩
    rw [headerAt, payload_eq_ok_iff, hCarries.offset hIndex]
      at hBytes
    have hTime :=
      (header_of_parse (length_of_slice hBytes) hParse).1
    have hFits := hCarries.fits
    rw [List.getElem?_eq_getElem hIndex, payload_eq_ok_iff,
      hCarries.offset hIndex, addSize_eq (by omega),
      getUInt32LE, slice_of_slice hBytes (by decide)]
    exact hTime
  · rw [List.getElem?_eq_none (not_lt.mp hIndex)]
    rfl

/- The bytes of a header, by the hash of the header. -/
theorem Carries.exists_headerAt
    (hCarries : Carries sha256_2 msg headers)
    {index : Nat}
    (hHeader : headers[index]? = some header) :
    ∃ bytes,
      headerAt msg (itemCount msg).2 index = .ok bytes ∧
      sha256_2 bytes = header.blockHash := by
  rcases hCarries.parsed index header hHeader with
    ⟨bytes, hBytes, hParse⟩
  have hSlice := hBytes
  rw [headerAt, payload_eq_ok_iff] at hSlice
  exact
    ⟨bytes, hBytes,
      (header_of_parse (length_of_slice hSlice)
        hParse).2.symm⟩

theorem Carries.firstRecent_eq
    (hCarries : Carries sha256_2 msg headers)
    (peer : BRPeerContext)
    (rounds last : Nat) :
    firstRecent peer msg headers.length (itemCount msg).2
        rounds last =
      .ok
        (Headers.firstRecent peer.earliestKeyTime headers
          rounds last) := by
  induction rounds generalizing last with
  | zero => rfl
  | succ rounds ih =>
      unfold firstRecent Headers.firstRecent
      rw [hCarries.headerTime_eq]
      change (if _ then _ else _) = _
      have hSame :
          peer.isRecent (Headers.timeAt headers (last + 1)) =
            Headers.isRecent peer.earliestKeyTime
              (Headers.timeAt headers (last + 1)) := rfl
      rw [hSame]
      dsimp only
      split_ifs with hOld
      · exact ih (last + 1)
      · rfl

/- The request is the one for the headers of the message. -/
theorem headersRequest_eq
    (hCarries : Carries sha256_2 msg headers)
    (peer : BRPeerContext) :
    peer.headersRequest sha256_2 msg =
      .ok
        (Headers.requestAfter peer.earliestKeyTime headers) := by
  have hRecent :
      ∀ timestamp,
        peer.isRecent timestamp =
          Headers.isRecent peer.earliestKeyTime timestamp :=
    fun _ => rfl
  unfold headersRequest Headers.requestAfter
  dsimp only
  rw [hCarries.isWhole, hCarries.count,
    hCarries.headerTime_eq]
  simp only [Bool.false_eq_true, if_false, hRecent]
  change (if _ then _ else _) = _
  by_cases hNone : headers.length = 0
  · have hOld :
        ¬ (0 < Headers.timeAt headers (headers.length - 1) ∧
          Headers.isRecent peer.earliestKeyTime
              (Headers.timeAt headers (headers.length - 1)) =
            true) := by
      intro hSwitches
      have hLast := Headers.lt_of_timeAt_pos hSwitches.1
      omega
    have hFew : ¬ 2000 ≤ headers.length := by omega
    rw [if_neg hOld, if_neg hFew, if_neg (by tauto)]
  have hCount : 0 < headers.length := Nat.pos_of_ne_zero hNone
  have hFinal : headers.length - 1 < headers.length := by omega
  have hSwitch :=
    Headers.switchIndex_lt peer.earliestKeyTime hCount
  rcases hCarries.exists_headerAt
      (List.getElem?_eq_getElem hFinal) with
    ⟨final, hFinalBytes, hFinalHash⟩
  rcases hCarries.exists_headerAt
      (List.getElem?_eq_getElem hCount) with
    ⟨first, hFirstBytes, hFirstHash⟩
  rcases hCarries.exists_headerAt
      (List.getElem?_eq_getElem hSwitch) with
    ⟨locator, hLocatorBytes, hLocatorHash⟩
  unfold Headers.switchIndex at hLocatorBytes
  rw [hFinalBytes, hFirstBytes, hCarries.firstRecent_eq]
  rw [Headers.locators_eq hCount hSwitch,
    Headers.locators_eq hCount hFinal, ← hFinalHash,
    ← hFirstHash, ← hLocatorHash]
  by_cases hSwitches :
      0 < Headers.timeAt headers (headers.length - 1) ∧
        Headers.isRecent peer.earliestKeyTime
            (Headers.timeAt headers (headers.length - 1)) =
          true
  · rw [if_pos (Or.inr hSwitches), if_pos hSwitches]
    change (if _ then _ else _) = _
    rw [if_pos hSwitches]
    change
      (headerAt msg _ _ >>= fun locator => .ok _) = _
    rw [hLocatorBytes]
    rfl
  · rw [if_neg hSwitches]
    by_cases hMany : 2000 ≤ headers.length
    · rw [if_pos (Or.inl hMany), if_pos hMany]
      change (if _ then _ else _) = _
      rw [if_neg hSwitches]
    · rw [if_neg hMany, if_neg (by tauto)]

/- Valid headers are relayed one after another. -/
theorem relayHeaders_eq
    (hCarries : Carries sha256_2 msg headers)
    {now : UInt64}
    (hValid :
      ∀ header ∈ headers,
        header.isValid sha256_2 now.toUInt32 = some true)
    {rounds index : Nat}
    (hRounds : index + rounds = headers.length) :
    relayHeaders sha256_2 msg (itemCount msg).2 now rounds
        index =
      .ok
        ((headers.drop index).map Call.relayedBlock, true) := by
  induction rounds generalizing index with
  | zero =>
      rw [List.drop_eq_nil_of_le (by omega)]
      rfl
  | succ rounds ih =>
      have hIndex : index < headers.length := by omega
      rcases hCarries.parsed index _
          (List.getElem?_eq_getElem hIndex) with
        ⟨bytes, hBytes, hParse⟩
      have hHeader :=
        hValid headers[index] (List.getElem_mem hIndex)
      rw [List.drop_eq_getElem_cons hIndex]
      unfold relayHeaders
      rw [hBytes]
      change
        (payload (BRMerkleBlock.parse sha256_2 bytes) >>=
          _) = _
      rw [hParse]
      change
        (arrays
            (headers[index].isValid sha256_2 now.toUInt32) >>=
          _) = _
      rw [hHeader]
      change
        (relayHeaders sha256_2 msg (itemCount msg).2 now rounds
            (index + 1) >>=
          _) = _
      rw [ih (by omega)]
      rfl

/- The locators are there if a request is sent. -/
theorem readLocators_of_sent
    {peer : BRPeerContext}
    {count off : Nat}
    {timestamp : UInt32}
    {request : Request UInt256}
    (hSent :
      (do
        let final ← headerAt msg off (count - 1)
        let first ← headerAt msg off 0
        if 0 < timestamp ∧ peer.isRecent timestamp then
          let last ← firstRecent peer msg count off count 0
          let locator ← headerAt msg off (last - 1)
          Except.ok
            (some
              (.getblocks [sha256_2 locator, sha256_2 first]))
        else
          Except.ok
            (some
              (.getheaders
                [sha256_2 final, sha256_2 first]))) =
        (Except.ok (some request) :
          Except Fault (Option (Request UInt256)))) :
    peer.readLocators msg count off timestamp = .ok () := by
  rw [bind_eq_ok_iff] at hSent
  rcases hSent with ⟨final, hFinal, hSent⟩
  rw [bind_eq_ok_iff] at hSent
  rcases hSent with ⟨first, hFirst, hSent⟩
  unfold readLocators
  rw [hFinal]
  change (headerAt msg off 0 >>= _) = _
  rw [hFirst]
  change (if _ then _ else _) = _
  split at hSent
  · rename_i hSwitches
    rw [bind_eq_ok_iff] at hSent
    rcases hSent with ⟨last, hLast, hSent⟩
    rw [bind_eq_ok_iff] at hSent
    rcases hSent with ⟨locator, hLocator, -⟩
    rw [if_pos hSwitches, hLast]
    change (headerAt msg off (last - 1) >>= _) = _
    rw [hLocator]
    rfl
  · rename_i hOld
    rw [if_neg hOld]

/-
  A message of valid headers is accepted if something is asked
  for next, and its headers are relayed.
-/
theorem acceptHeadersMessage_eq
    (hCarries : Carries sha256_2 msg headers)
    (peer : BRPeerContext)
    {now : UInt64}
    (hValid :
      ∀ header ∈ headers,
        header.isValid sha256_2 now.toUInt32 = some true)
    {request : Request UInt256}
    (hRequest :
      Headers.requestAfter peer.earliestKeyTime headers =
        some request) :
    peer.acceptHeadersMessage sha256_2 msg now =
      .ok (peer, headers.map Call.relayedBlock, true) := by
  have hSent := headersRequest_eq hCarries peer
  rw [hRequest] at hSent
  have hRelayed :=
    relayHeaders_eq hCarries hValid
      (Nat.zero_add headers.length)
  rw [List.drop_zero] at hRelayed
  unfold headersRequest at hSent
  unfold acceptHeadersMessage
  dsimp only at hSent ⊢
  rw [hCarries.isWhole, hCarries.count] at hSent ⊢
  simp only [Bool.false_eq_true, if_false] at hSent ⊢
  rw [bind_eq_ok_iff] at hSent
  rcases hSent with ⟨timestamp, hTime, hSent⟩
  rw [hTime]
  change (if _ then _ else _) = _
  by_cases hEnough :
      2000 ≤ headers.length ∨
        (0 < timestamp ∧ peer.isRecent timestamp)
  · rw [if_pos hEnough] at hSent ⊢
    rw [readLocators_of_sent hSent]
    change
      (relayHeaders sha256_2 msg (itemCount msg).2 now
          headers.length 0 >>=
        _) = _
    rw [hRelayed]
    rfl
  · rw [if_neg hEnough] at hSent
    cases hSent

end Reads

end BRPeerContext

end PlusWallet
