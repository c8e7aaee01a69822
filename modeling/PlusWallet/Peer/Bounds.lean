import PlusWallet.Peer.BRPeer
import PlusWallet.Transaction.Bounds

/-
  The handlers read inside their messages when the sizes that
  a message claims do not wrap around into it.

  Main declarations:
    * `NoWrap`, `SizesFit`
    * `avoids_payload_of_sizesFit`
-/

namespace PlusWallet

open Bytes

------------------------------------------------------------
-- Sizes That a Message Claims
------------------------------------------------------------

namespace BRPeerContext

open Faults

/- A size is not taken for a size within the message. -/
def NoWrap (msg : List UInt8) (size : Nat) : Prop :=
  size % 2 ^ 64 ≤ msg.length → size < 2 ^ 64

/- Where the fields of a version message end. -/
def versionEnd (msg : List UInt8) : Nat :=
  let (strLen, len) := varInt (msg.drop 80)
  80 + len + strLen + 4

/- Where the headers of a message end. -/
def headersEnd (msg : List UInt8) : Nat :=
  let (count, off) := itemCount msg
  off + 81 * count

/- Where the code of a reject message ends. -/
def codeEnd (msg : List UInt8) : Nat :=
  let (strLen, off) := varInt msg
  off + strLen + 1

/- The length of the hash behind a reject message. -/
def rejectedHashLen (msg : List UInt8) : Nat :=
  let (strLen, off) := varInt msg
  match readString msg (min strLen 0xfff) off with
  | .ok type => if type = MSG_TX then 32 else 0
  | .error _ => 0

/- Where a reject message ends. -/
def rejectEnd (msg : List UInt8) : Nat :=
  let (strLen, len) := varInt (msg.drop (codeEnd msg))
  codeEnd msg + len + strLen + rejectedHashLen msg

/-
  No size that the counts and lengths of a message add up to
  wraps around into the message.
-/
def SizesFit (msg : List UInt8) : MessageType → Prop
  | .version =>
      ∀ version, getUInt32LE msg 0 = some version →
        MIN_PROTO_VERSION ≤ version →
          NoWrap msg (versionEnd msg)
  | .headers => NoWrap msg (headersEnd msg)
  | .reject =>
      NoWrap msg (codeEnd msg) ∧ NoWrap msg (rejectEnd msg)
  | .tx => BRTransaction.dataEnd msg < 2 ^ 64
  | _ => True

theorem avoids_payload
    {Value : Type}
    {read : Option Value}
    (hRead : ∃ value, read = some value) :
    Avoids Fault.payload (payload read) := by
  rcases hRead with ⟨value, rfl⟩
  exact Avoids.ok _ value

theorem avoids_arrays
    {Value : Type}
    (access : Option Value) :
    Avoids Fault.payload (arrays access) := by
  cases access with
  | none => exact Avoids.error (by decide)
  | some value => exact Avoids.ok _ value

------------------------------------------------------------
-- Items
------------------------------------------------------------

/- Items of a message that is neither too short nor dropped. -/
theorem items_inside
    {msg : List UInt8}
    {size : Nat}
    (hSize : size ≤ 36)
    (hLong : isMalformed msg size = false)
    (hFew : (itemCount msg).1 ≤ MAX_GETDATA_HASHES) :
    (itemCount msg).2 + (itemCount msg).1 * size ≤
      msg.length := by
  unfold isMalformed at hLong
  dsimp only at hLong
  rw [decide_eq_false_iff_not, not_or, not_lt] at hLong
  have hOff : (itemCount msg).2 ≤ 9 := varInt_snd_le msg
  have hItems :
      (itemCount msg).1 * size ≤ MAX_GETDATA_HASHES * 36 :=
    Nat.mul_le_mul hFew hSize
  have hBound : MAX_GETDATA_HASHES * 36 = 1800000 := rfl
  rw [hBound] at hItems
  have hMul :
      mulSize (itemCount msg).1 size =
        (itemCount msg).1 * size :=
    Nat.mod_eq_of_lt (by omega)
  rw [hMul, addSize_eq (by omega)] at hLong
  exact hLong.2

theorem avoids_readItems
    {msg : List UInt8}
    {count off : Nat}
    (hInside : off + count * 36 ≤ msg.length) :
    Avoids Fault.payload (readItems msg count off) := by
  induction count generalizing off with
  | zero => exact Avoids.ok _ _
  | succ count ih =>
      unfold readItems
      refine (avoids_payload
        (exists_getUInt32LE (by omega))).bind ?_
      intro type _
      refine (avoids_payload
        (exists_getUInt256 (by omega))).bind ?_
      intro hash _
      refine (ih (by omega)).bind ?_
      intro items _
      exact Avoids.ok _ _

theorem avoids_inventory
    {msg : List UInt8}
    (hLong : isMalformed msg 36 = false)
    (hFew : (itemCount msg).1 ≤ MAX_GETDATA_HASHES) :
    Avoids Fault.payload (inventory msg) :=
  avoids_readItems (items_inside (le_refl _) hLong hFew)

theorem avoids_inv
    (peer : BRPeerContext)
    (msg : List UInt8) :
    Avoids Fault.payload (peer.acceptInvMessage msg) := by
  unfold acceptInvMessage
  refine Avoids.ite (fun _ => Avoids.ok _ _) fun hLong => ?_
  refine Avoids.ite (fun _ => Avoids.ok _ _) fun hFew => ?_
  rw [Bool.not_eq_true] at hLong
  refine (avoids_inventory hLong (not_lt.mp hFew)).bind ?_
  intro items _
  refine Avoids.ite (fun _ => Avoids.ok _ _) fun _ => ?_
  refine Avoids.ite (fun _ => Avoids.ok _ _) fun _ => ?_
  refine Avoids.ite (fun _ => Avoids.ok _ _) fun _ => ?_
  exact Avoids.ok _ _

theorem avoids_getdata
    (peer : BRPeerContext)
    (msg : List UInt8) :
    Avoids Fault.payload (peer.acceptGetdataMessage msg) := by
  unfold acceptGetdataMessage
  refine Avoids.ite (fun _ => Avoids.ok _ _) fun hLong => ?_
  refine Avoids.ite (fun _ => Avoids.ok _ _) fun hFew => ?_
  rw [Bool.not_eq_true] at hLong
  refine (avoids_inventory hLong (not_lt.mp hFew)).bind ?_
  intro items _
  exact Avoids.ok _ _

theorem avoids_notfound
    (peer : BRPeerContext)
    (msg : List UInt8) :
    Avoids Fault.payload (peer.acceptNotfoundMessage msg) := by
  unfold acceptNotfoundMessage
  refine Avoids.ite (fun _ => Avoids.ok _ _) fun hLong => ?_
  refine Avoids.ite (fun _ => Avoids.ok _ _) fun hFew => ?_
  rw [Bool.not_eq_true] at hLong
  refine (avoids_inventory hLong (not_lt.mp hFew)).bind ?_
  intro items _
  exact Avoids.ok _ _

theorem avoids_readPeers
    {msg : List UInt8}
    {count off : Nat}
    (hInside : off + count * 30 ≤ msg.length) :
    Avoids Fault.payload (readPeers msg count off) := by
  induction count generalizing off with
  | zero => exact Avoids.ok _ _
  | succ count ih =>
      have hPeer : Avoids Fault.payload (readPeer msg off) := by
        unfold readPeer
        refine (avoids_payload
          (exists_getUInt32LE (by omega))).bind ?_
        intro timestamp _
        refine (avoids_payload
          (exists_slice (by omega))).bind ?_
        intro services _
        refine (avoids_payload
          (exists_slice (by omega))).bind ?_
        intro address _
        refine (avoids_payload
          (exists_slice (by omega))).bind ?_
        intro port _
        exact Avoids.ok _ _
      unfold readPeers
      refine hPeer.bind ?_
      intro peer _
      refine (ih (by omega)).bind ?_
      intro peers _
      exact Avoids.ok _ _

theorem avoids_addr
    (peer : BRPeerContext)
    (msg : List UInt8)
    (now : UInt64) :
    Avoids Fault.payload (peer.acceptAddrMessage msg now) := by
  unfold acceptAddrMessage
  dsimp only
  refine Avoids.ite (fun _ => Avoids.ok _ _) fun hLong => ?_
  refine Avoids.ite (fun _ => Avoids.ok _ _) fun hFew => ?_
  refine Avoids.ite (fun _ => ?_) fun _ => Avoids.ok _ _
  rw [Bool.not_eq_true] at hLong
  have hCount : (itemCount msg).1 ≤ MAX_GETDATA_HASHES := by
    have hBound : MAX_GETDATA_HASHES = 50000 := rfl
    omega
  refine (avoids_readPeers
    (items_inside (by decide) hLong hCount)).bind ?_
  intro items _
  exact Avoids.ok _ _

------------------------------------------------------------
-- Versions
------------------------------------------------------------

theorem addSize_mod (size other : Nat) :
    addSize (size % 2 ^ 64) other =
      (size + other) % 2 ^ 64 := by
  unfold addSize
  omega

theorem avoids_version
    (peer : BRPeerContext)
    {msg : List UInt8}
    (hFits : SizesFit msg .version) :
    Avoids Fault.payload (peer.acceptVersionMessage msg) := by
  unfold acceptVersionMessage
  refine Avoids.ite (fun _ => Avoids.ok _ _) fun hLong => ?_
  refine (avoids_payload
    (exists_getUInt32LE (by omega))).bind ?_
  intro version hVersion
  refine (avoids_payload (exists_slice (by omega))).bind ?_
  intro other _
  dsimp only
  refine Avoids.ite (fun _ => Avoids.ok _ _) fun hInside => ?_
  refine Avoids.ite (fun _ => Avoids.ok _ _) fun hNew => ?_
  have hRead : getUInt32LE msg 0 = some version := by
    revert hVersion
    cases getUInt32LE msg 0 with
    | none => exact nofun
    | some number =>
        intro hNumber
        cases hNumber
        rfl
  have hNoWrap := hFits version hRead (UInt32.not_lt.mp hNew)
  unfold versionEnd NoWrap at hNoWrap
  dsimp only at hNoWrap
  have hLen := varInt_snd_le (msg.drop 80)
  have hOff :
      addSize 80 (varInt (msg.drop 80)).2 =
        80 + (varInt (msg.drop 80)).2 :=
    addSize_eq (by omega)
  rw [hOff, not_lt] at hInside
  rw [hOff]
  have hEnd :
      80 + (varInt (msg.drop 80)).2 +
          (varInt (msg.drop 80)).1 + 4 < 2 ^ 64 := by
    apply hNoWrap
    rw [← addSize_mod]
    exact hInside
  have hStringEnd :
      addSize (80 + (varInt (msg.drop 80)).2)
          (varInt (msg.drop 80)).1 =
        80 + (varInt (msg.drop 80)).2 +
          (varInt (msg.drop 80)).1 :=
    addSize_eq (by omega)
  rw [hStringEnd, addSize_eq hEnd] at hInside
  rw [hStringEnd]
  refine (avoids_payload (exists_slice (by omega))).bind ?_
  intro useragent _
  refine (avoids_payload
    (exists_getUInt32LE hInside)).bind ?_
  intro lastblock _
  exact Avoids.ok _ _

------------------------------------------------------------
-- Headers
------------------------------------------------------------

section Headers

variable {msg : List UInt8} {count off : Nat}

theorem mulSize_header
    (hInside : off + 81 * count ≤ msg.length)
    (hFits : off + 81 * count < 2 ^ 64)
    {index : Nat}
    (hIndex : index < count) :
    addSize off (mulSize 81 index) = off + 81 * index ∧
      off + 81 * index + 81 ≤ msg.length := by
  have hMul : mulSize 81 index = 81 * index :=
    Nat.mod_eq_of_lt (by omega)
  rw [hMul, addSize_eq (by omega)]
  exact ⟨rfl, by omega⟩

theorem avoids_headerTime
    (hInside : off + 81 * count ≤ msg.length)
    (hFits : off + 81 * count < 2 ^ 64)
    (index : Nat) :
    Avoids Fault.payload (headerTime msg count off index) := by
  unfold headerTime
  refine Avoids.ite (fun hIndex => ?_) fun _ => Avoids.ok _ _
  rcases mulSize_header hInside hFits hIndex with
    ⟨hOff, hEnd⟩
  apply avoids_payload
  apply exists_getUInt32LE
  rw [hOff, addSize_eq (by omega)]
  omega

/- A header behind the last one has the time stamp 0. -/
theorem lt_of_headerTime_pos
    {index : Nat}
    {timestamp : UInt32}
    (hTime : headerTime msg count off index = .ok timestamp)
    (hPositive : 0 < timestamp) :
    index < count := by
  unfold headerTime at hTime
  split at hTime
  · assumption
  · cases hTime
    exact absurd hPositive (by decide)

theorem avoids_headerAt
    (hInside : off + 81 * count ≤ msg.length)
    (hFits : off + 81 * count < 2 ^ 64)
    {index : Nat}
    (hIndex : index < count) :
    Avoids Fault.payload (headerAt msg off index) := by
  rcases mulSize_header hInside hFits hIndex with
    ⟨hOff, hEnd⟩
  apply avoids_payload
  apply exists_slice
  rw [hOff]
  omega

theorem avoids_firstRecent
    (peer : BRPeerContext)
    (hInside : off + 81 * count ≤ msg.length)
    (hFits : off + 81 * count < 2 ^ 64)
    (rounds last : Nat) :
    Avoids Fault.payload
      (firstRecent peer msg count off rounds last) := by
  induction rounds generalizing last with
  | zero => exact Avoids.ok _ _
  | succ rounds ih =>
      unfold firstRecent
      refine (avoids_headerTime hInside hFits _).bind ?_
      intro timestamp _
      exact Avoids.ite (fun _ => ih _) fun _ => Avoids.ok _ _

theorem firstRecent_le
    {peer : BRPeerContext}
    {rounds last result : Nat}
    (hLast : last < count)
    (hRecent :
      firstRecent peer msg count off rounds last =
        .ok result) :
    result ≤ count := by
  induction rounds generalizing last with
  | zero =>
      cases hRecent
      exact hLast.le
  | succ rounds ih =>
      unfold firstRecent at hRecent
      rw [bind_eq_ok_iff] at hRecent
      rcases hRecent with ⟨timestamp, hTime, hRecent⟩
      split at hRecent
      · rename_i hOld
        exact ih (lt_of_headerTime_pos hTime hOld.1) hRecent
      · cases hRecent
        exact hLast

theorem avoids_readLocators
    (peer : BRPeerContext)
    (hInside : off + 81 * count ≤ msg.length)
    (hFits : off + 81 * count < 2 ^ 64)
    (hCount : 0 < count)
    (timestamp : UInt32) :
    Avoids Fault.payload
      (peer.readLocators msg count off timestamp) := by
  unfold readLocators
  refine (avoids_headerAt hInside hFits (by omega)).bind ?_
  intro locator _
  refine (avoids_headerAt hInside hFits hCount).bind ?_
  intro first _
  refine Avoids.ite (fun _ => ?_) fun _ => Avoids.ok _ _
  refine (avoids_firstRecent peer hInside hFits _ _).bind ?_
  intro last hLast
  have hLe := firstRecent_le hCount hLast
  refine (avoids_headerAt hInside hFits (by omega)).bind ?_
  intro locator _
  exact Avoids.ok _ _

theorem avoids_relayHeaders
    (sha256_2 : List UInt8 → UInt256)
    (now : UInt64)
    (hInside : off + 81 * count ≤ msg.length)
    (hFits : off + 81 * count < 2 ^ 64)
    {rounds index : Nat}
    (hRounds : index + rounds ≤ count) :
    Avoids Fault.payload
      (relayHeaders sha256_2 msg off now rounds index) := by
  induction rounds generalizing index with
  | zero => exact Avoids.ok _ _
  | succ rounds ih =>
      unfold relayHeaders
      refine (avoids_headerAt hInside hFits (by omega)).bind ?_
      intro header _
      refine (avoids_payload
        (BRMerkleBlock.exists_parse sha256_2 header)).bind ?_
      intro parsed _
      refine (avoids_arrays _).bind ?_
      intro block _
      refine (avoids_arrays _).bind ?_
      intro isValid _
      refine Avoids.ite (fun _ => Avoids.ok _ _) fun _ => ?_
      refine (ih (by omega)).bind ?_
      intro rest _
      exact Avoids.ok _ _

end Headers

theorem avoids_headers
    (sha256_2 : List UInt8 → UInt256)
    (peer : BRPeerContext)
    {msg : List UInt8}
    (hFits : SizesFit msg .headers)
    (now : UInt64) :
    Avoids Fault.payload
      (peer.acceptHeadersMessage sha256_2 msg now) := by
  unfold acceptHeadersMessage
  dsimp only
  refine Avoids.ite (fun _ => Avoids.ok _ _) fun hLong => ?_
  unfold isMalformed at hLong
  dsimp only at hLong
  rw [decide_eq_true_iff, not_or, not_lt] at hLong
  have hSame :
      addSize (itemCount msg).2
          (mulSize (itemCount msg).1 81) =
        ((itemCount msg).2 + 81 * (itemCount msg).1) %
          2 ^ 64 := by
    unfold addSize mulSize
    omega
  rw [hSame] at hLong
  have hEnd :
      (itemCount msg).2 + 81 * (itemCount msg).1 < 2 ^ 64 :=
    hFits hLong.2
  have hInside := hLong.2
  rw [Nat.mod_eq_of_lt hEnd] at hInside
  refine (avoids_headerTime hInside hEnd _).bind ?_
  intro timestamp hTime
  refine Avoids.ite (fun hEnough => ?_)
    fun _ => Avoids.ok _ _
  have hCount : 0 < (itemCount msg).1 := by
    rcases hEnough with hMany | hRecent
    · omega
    · have hLast := lt_of_headerTime_pos hTime hRecent.1
      omega
  refine (avoids_readLocators peer hInside hEnd hCount
    _).bind ?_
  intro locators _
  refine (avoids_relayHeaders sha256_2 now hInside hEnd
    (by omega)).bind ?_
  intro relayed _
  exact Avoids.ok _ _

------------------------------------------------------------
-- Rejects
------------------------------------------------------------

theorem avoids_readString
    {msg : List UInt8}
    {room off : Nat}
    (hInside : off + room ≤ msg.length) :
    Avoids Fault.payload (readString msg room off) := by
  induction room generalizing off with
  | zero => exact Avoids.ok _ _
  | succ room ih =>
      unfold readString
      refine (avoids_payload
        ⟨msg[off], List.getElem?_eq_getElem (by omega)⟩).bind ?_
      intro byte _
      refine Avoids.ite (fun _ => Avoids.ok _ _) fun _ => ?_
      refine (ih (by omega)).bind ?_
      intro bytes _
      exact Avoids.ok _ _

theorem avoids_rejectedHash
    {msg : List UInt8}
    {off hashLen : Nat}
    (hInside : off + hashLen ≤ msg.length) :
    Avoids Fault.payload (rejectedHash msg off hashLen) := by
  unfold rejectedHash
  refine Avoids.ite (fun hTx => ?_) fun _ => Avoids.ok _ _
  rw [hTx] at hInside
  exact avoids_payload (exists_getUInt256 hInside)

theorem avoids_reject
    (peer : BRPeerContext)
    {msg : List UInt8}
    (hLength : msg.length ≤ MAX_MSG_LENGTH)
    (hFits : SizesFit msg .reject) :
    Avoids Fault.payload (peer.acceptRejectMessage msg) := by
  rcases hFits with ⟨hCodeFits, hEndFits⟩
  have hBound : MAX_MSG_LENGTH = 33554432 := rfl
  unfold acceptRejectMessage
  rcases hFirst : varInt msg with ⟨strLen, off⟩
  have hCodeEnd : codeEnd msg = off + strLen + 1 := by
    unfold codeEnd
    rw [hFirst]
  have hOff : off ≤ 9 := by
    have hLen := varInt_snd_le msg
    rwa [hFirst] at hLen
  dsimp only
  refine Avoids.ite (fun _ => Avoids.ok _ _) fun hCode => ?_
  have hCodeSum :
      addSize (addSize off strLen) 1 =
        codeEnd msg % 2 ^ 64 := by
    rw [hCodeEnd]
    exact addSize_mod _ _
  rw [hCodeSum, not_lt] at hCode
  have hCodeInside := hCodeFits hCode
  rw [Nat.mod_eq_of_lt hCodeInside] at hCode
  have hStringOff : addSize off strLen = off + strLen :=
    addSize_eq (by omega)
  refine (avoids_readString (by omega)).bind ?_
  intro type hType
  rw [hCodeSum, Nat.mod_eq_of_lt hCodeInside, hStringOff]
  refine (avoids_payload
    ⟨msg[off + strLen],
      List.getElem?_eq_getElem (by omega)⟩).bind ?_
  intro code _
  have hHashLen :
      (if type = MSG_TX then 32 else 0) =
        rejectedHashLen msg := by
    unfold rejectedHashLen
    rw [hFirst]
    dsimp only
    rw [hType]
  rw [hHashLen]
  rcases hSecond : varInt (msg.drop (codeEnd msg)) with
    ⟨reasonLen, len⟩
  have hRejectEnd :
      rejectEnd msg =
        codeEnd msg + len + reasonLen +
          rejectedHashLen msg := by
    unfold rejectEnd
    rw [hSecond]
  have hLen : len ≤ 9 := by
    have hLen := varInt_snd_le (msg.drop (codeEnd msg))
    rwa [hSecond] at hLen
  dsimp only
  have hReasonOff :
      addSize (codeEnd msg) len = codeEnd msg + len :=
    addSize_eq (by omega)
  rw [hReasonOff]
  refine Avoids.ite (fun _ => Avoids.ok _ _) fun hEnd => ?_
  have hEndSum :
      addSize (addSize (codeEnd msg + len) reasonLen)
          (rejectedHashLen msg) =
        rejectEnd msg % 2 ^ 64 := by
    rw [hRejectEnd]
    exact addSize_mod _ _
  rw [hEndSum, not_lt] at hEnd
  have hEndInside := hEndFits hEnd
  rw [Nat.mod_eq_of_lt hEndInside] at hEnd
  have hHashOff :
      addSize (codeEnd msg + len) reasonLen =
        codeEnd msg + len + reasonLen :=
    addSize_eq (by omega)
  rw [hHashOff]
  refine (avoids_readString (by omega)).bind ?_
  intro reason _
  refine (avoids_rejectedHash (by omega)).bind ?_
  intro txHash _
  exact Avoids.ok _ _

------------------------------------------------------------
-- All Messages
------------------------------------------------------------

theorem avoids_tx
    (sha256_2 : List UInt8 → UInt256)
    (peer : BRPeerContext)
    {msg : List UInt8}
    (hFits : SizesFit msg .tx) :
    Avoids Fault.payload
      (peer.acceptTxMessage sha256_2 msg) := by
  unfold acceptTxMessage
  refine (avoids_payload
    (BRTransaction.exists_parse sha256_2 hFits)).bind ?_
  intro parsed _
  cases parsed with
  | none => exact Avoids.ok _ _
  | some tx =>
      exact Avoids.ite (fun _ => Avoids.ok _ _)
        fun _ => Avoids.ok _ _

theorem avoids_merkleblock
    (sha256_2 : List UInt8 → UInt256)
    (peer : BRPeerContext)
    (msg : List UInt8)
    (now : UInt64) :
    Avoids Fault.payload
      (peer.acceptMerkleblockMessage sha256_2 msg now) := by
  unfold acceptMerkleblockMessage
  refine (avoids_payload
    (BRMerkleBlock.exists_parse sha256_2 msg)).bind ?_
  intro parsed _
  cases parsed with
  | none => exact Avoids.ok _ _
  | some block =>
      refine (avoids_arrays _).bind ?_
      intro isValid _
      refine Avoids.ite (fun _ => Avoids.ok _ _) fun _ => ?_
      refine Avoids.ite (fun _ => Avoids.ok _ _) fun _ => ?_
      refine (avoids_arrays _).bind ?_
      intro hashes _
      exact Avoids.ok _ _

end BRPeerContext

end PlusWallet
