import PlusWallet.Library.ByteOrder
import PlusWallet.Transaction.Parse

/-
  How `Extensions.swift` seals some bytes under a key, over the
  two functions of `BRCrypto.c` for ChaCha20 with Poly1305.

  `sealing` and `opening` are the cipher with its tag.  What the two
  functions of `BRCrypto.c` do around it is spelled out: the
  size that they tell without a buffer, and the zero that they
  return for a failure.

  Main declarations:
    * `AEAD`, `AEAD.Laws`
    * `BRChacha20Poly1305AEADEncrypt`,
      `BRChacha20Poly1305AEADDecrypt`
    * `genNonce`
    * `chacha20Poly1305AEADEncrypt`,
      `chacha20Poly1305AEADDecrypt`
    * `genNonces_nodup_iff`
-/

namespace PlusWallet

namespace SealedValues

open Bytes

------------------------------------------------------------
-- The Cipher
------------------------------------------------------------

/- What is made of some bytes under a key and a nonce. -/
structure AEAD where
  sealing : UInt256 → List UInt8 → List UInt8 → List UInt8
  opening : UInt256 → List UInt8 → List UInt8 →
    Option (List UInt8)

/- It opens what it has sealed, and nothing else. -/
structure AEAD.Laws (aead : AEAD) : Prop where
  length_sealing :
    ∀ key nonce data,
      (aead.sealing key nonce data).length = data.length + 16
  opening_iff :
    ∀ key nonce sealedData data,
      aead.opening key nonce sealedData = some data ↔
        sealedData = aead.sealing key nonce data

def UINT32_MAX : Nat := 2 ^ 32 - 1

/-
  What the function returns, and what it writes to a buffer of
  some size, `none` for `NULL`.  There is no associated data.
-/
def BRChacha20Poly1305AEADEncrypt
    (aead : AEAD)
    (outLen : Option Nat)
    (key32 : UInt256)
    (nonce12 data : List UInt8) : Nat × List UInt8 :=
  match outLen with
  | none => (data.length + 16, [])
  | some outLen =>
      if outLen < data.length + 16 ∨
          UINT32_MAX ≤ data.length / 64 then (0, [])
      else (data.length + 16, aead.sealing key32 nonce12 data)

/- The same for the function that opens. -/
def BRChacha20Poly1305AEADDecrypt
    (aead : AEAD)
    (outLen : Option Nat)
    (key32 : UInt256)
    (nonce12 data : List UInt8) : Nat × List UInt8 :=
  match outLen with
  | none =>
      (if data.length < 16 then 0 else data.length - 16, [])
  | some outLen =>
      if data.length < 16 ∨
          UINT32_MAX ≤ (data.length - 16) / 64 ∨
          outLen + 16 < data.length then (0, [])
      else
        match aead.opening key32 nonce12 data with
        | none => (0, [])
        | some opened => (data.length - 16, opened)

------------------------------------------------------------
-- Nonces
------------------------------------------------------------

/- A reading of the clock, with microseconds below a second. -/
structure Timeval where
  tv_sec : Nat
  tv_usec : Nat
  tv_usec_lt : tv_usec < 1000000
deriving DecidableEq

/- `genNonce` -/
def genNonce (tv : Timeval) : List UInt8 :=
  let t := tv.tv_usec * 1000000 + tv.tv_usec
  List.replicate 4 0 ++ littleEndian 8 t

theorem length_genNonce (tv : Timeval) :
    (genNonce tv).length = 12 := by
  rw [genNonce, List.length_append, List.length_replicate,
    length_littleEndian]

/- The microseconds are all that a nonce shows. -/
theorem genNonce_inj
    {first second : Timeval} :
    genNonce first = genNonce second ↔
      first.tv_usec = second.tv_usec := by
  have hFirst := first.tv_usec_lt
  have hSecond := second.tv_usec_lt
  constructor
  · intro hEq
    have hBytes := List.append_cancel_left hEq
    have hNumbers := congrArg ofLittleEndian hBytes
    rw [ofLittleEndian_littleEndian 8 (by omega),
      ofLittleEndian_littleEndian 8 (by omega)] at hNumbers
    omega
  · intro hEq
    rw [genNonce, genNonce, hEq]

------------------------------------------------------------
-- Sealed Values
------------------------------------------------------------

/- A buffer of zeros to which some bytes were written. -/
def written (size : Nat) (bytes : List UInt8) : List UInt8 :=
  bytes ++ List.replicate (size - bytes.length) 0

section

variable (aead : AEAD) (key : UInt256)

/- `chacha20Poly1305AEADEncrypt`, at a reading of the clock -/
def chacha20Poly1305AEADEncrypt
    (tv : Timeval)
    (data : List UInt8) : List UInt8 :=
  let nonce := genNonce tv
  let outSize :=
    (BRChacha20Poly1305AEADEncrypt aead none key nonce data).1
  let outData :=
    written outSize
      (BRChacha20Poly1305AEADEncrypt aead (some outSize) key
        nonce data).2
  nonce ++ outData

/- `BRReplicatedKVStoreError.malformedData` -/
inductive OpenError where
  | malformedData
deriving DecidableEq

/-
  `chacha20Poly1305AEADDecrypt`, where the nonce is one byte
  too long
-/
def chacha20Poly1305AEADDecrypt
    (data : List UInt8) : Except OpenError (List UInt8) :=
  if data.length ≤ 12 then .error .malformedData
  else
    let nonce := (data.take 13).take 12
    let inData := data.drop 12
    let outSize :=
      (BRChacha20Poly1305AEADDecrypt aead none key nonce
        inData).1
    let outData :=
      written outSize
        (BRChacha20Poly1305AEADDecrypt aead (some outSize) key
          nonce inData).2
    .ok outData

/- The nonce in front of an encryption. -/
def nonceOf (sealedValue : List UInt8) : List UInt8 :=
  sealedValue.take 12

end

------------------------------------------------------------
-- Nonces of Many Encryptions
------------------------------------------------------------

theorem nonceOf_encrypt
    (aead : AEAD)
    (key : UInt256)
    (tv : Timeval)
    (data : List UInt8) :
    nonceOf (chacha20Poly1305AEADEncrypt aead key tv data) =
      genNonce tv :=
  List.take_left' (length_genNonce tv)

/- The nonces of encryptions at some readings of the clock. -/
def nonces
    (aead : AEAD)
    (key : UInt256)
    (calls : List (Timeval × List UInt8)) :
    List (List UInt8) :=
  calls.map fun call =>
    nonceOf (chacha20Poly1305AEADEncrypt aead key call.1 call.2)

theorem nonces_eq
    (aead : AEAD)
    (key : UInt256)
    (calls : List (Timeval × List UInt8)) :
    nonces aead key calls =
      calls.map fun call => genNonce call.1 :=
  List.map_congr_left fun call _ =>
    nonceOf_encrypt aead key call.1 call.2

/-
  The nonces of encryptions are distinct where already the
  microseconds of the clock are.
-/
theorem genNonces_nodup_iff
    (aead : AEAD)
    (key : UInt256)
    (calls : List (Timeval × List UInt8)) :
    (nonces aead key calls).Nodup ↔
      (calls.map fun call => call.1.tv_usec).Nodup := by
  rw [nonces_eq]
  unfold List.Nodup
  rw [List.pairwise_map, List.pairwise_map]
  apply List.Pairwise.iff
  intro first second
  exact not_congr genNonce_inj

/- Two readings that are a second apart. -/
def secondApart : List (Timeval × List UInt8) :=
  [(⟨1, 5, by decide⟩, [1]), (⟨2, 5, by decide⟩, [2])]

theorem genNonces_repeat :
    (secondApart.map fun call => call.1).Nodup ∧
      ∀ aead key, ¬ (nonces aead key secondApart).Nodup := by
  refine ⟨by decide, ?_⟩
  intro aead key
  rw [nonces_eq]
  decide

end SealedValues

end PlusWallet
